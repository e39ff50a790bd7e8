import PrettyPayload.Format.Css
import PrettyPayload.Json.Printer
import PrettyPayload.Json.Reader

/-!
# Formatting JSON

A JSON payload is read and written again over several lines. The order of keys and the digits of
numbers stay as they are.
-/

namespace PrettyPayload

namespace Format

def json (options : Options) (t : Text) : Traced (Except Failure Text) :=
  ⟨[], match Json.parse? t with
    | none => .error .json
    | some v => .ok (withLineEndings options (v.pretty options.indent))⟩

end Format

end PrettyPayload
