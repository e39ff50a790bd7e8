import PrettyPayload.Format.Event
import PrettyPayload.Markup.OfHtml
import PrettyPayload.Markup.Serializer
import PrettyPayload.Markup.StylePass

/-!
# Formatting HTML

An HTML payload is read leniently, its styles are laid out, and it is written again with every
element on a line of its own. Carriage returns are dropped first.
-/

namespace PrettyPayload

namespace Format

def writeHtml (options : Options) (bytes : Nat) (d : Markup.Document) :
    Traced (Except Failure Text) :=
  match d.reindentStyles options.indent options.indent with
  | (_, .error e) => ⟨[], .error (.css e)⟩
  | (d, .ok blocks) =>
    match d.compactStyles with
    | (_, .error e) => ⟨[.styleBlocks blocks], .error (.css e)⟩
    | (d, .ok styles) =>
      ⟨[.styleBlocks blocks, .inlineStyles styles, .passesComplete bytes blocks styles,
        .markupSummary blocks styles d.size], .ok (d.serialize options)⟩

def html (options : Options) (t : Text) : Traced (Except Failure Text) :=
  let page := Html.read (Text.withoutReturns t)
  let written := writeHtml options (Text.byteLength t) (.ofPage page)
  { written with events := List.replicate page.misplaced .misplaced ++ written.events }

end Format

end PrettyPayload
