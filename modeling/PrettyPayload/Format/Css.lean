import PrettyPayload.Css.Printer
import PrettyPayload.Css.Reader
import PrettyPayload.Format.Event
import PrettyPayload.Options

/-!
# Formatting stylesheets

A stylesheet payload is read and written again over several lines. Carriage returns are dropped
first.
-/

namespace PrettyPayload

namespace Format

def withLineEndings (options : Options) (t : Text) : Text :=
  Text.replaceChar '\n' options.newline t

def css (options : Options) (t : Text) : Traced (Except Failure Text) :=
  ⟨[], match Css.parseStylesheet (Text.withoutReturns t) with
    | .error e => .error (.css e)
    | .ok sheet => .ok (withLineEndings options (sheet.pretty options.indent))⟩

end Format

end PrettyPayload
