import PrettyPayload.Format.Event
import PrettyPayload.Markup.OfXml
import PrettyPayload.Markup.Serializer

/-!
# Formatting XML

An XML payload has to be well formed. It is written again with every element on a line of its own.
Carriage returns are dropped first.
-/

namespace PrettyPayload

namespace Format

def xml (options : Options) (t : Text) : Traced (Except Failure Text) :=
  match Markup.Document.ofXml? (Text.withoutReturns t) with
  | none => ⟨[], .error .xml⟩
  | some d => ⟨[.xmlParsed d.size], .ok (d.serialize options)⟩

end Format

end PrettyPayload
