import PrettyPayload.LineEnding

/-!
# Layout options

The three settings that all formatters share.
-/

namespace PrettyPayload

structure Options where
  /-- What is written once per level of nesting. -/
  indent : Text
  lineEnding : LineEnding
  /-- Whether an element whose only content is one line of text stays on one line. -/
  inlineSingleText : Bool
  deriving DecidableEq, Repr

namespace Options

/-- Two spaces per level, the line ending of the platform, short elements on one line. -/
def standard : Options := ⟨[' ', ' '], .native, true⟩

def newline (options : Options) : Text := options.lineEnding.terminator

end Options

end PrettyPayload
