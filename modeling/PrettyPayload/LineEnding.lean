import PrettyPayload.Text.Basic

/-!
# Line endings

The three settings for the characters between two lines, and the names they go by in settings
files and in the environment.
-/

namespace PrettyPayload

inductive LineEnding where
  /-- The custom of the platform, which here is a line feed. -/
  | native
  | lf
  | crlf
  deriving DecidableEq, Repr

namespace LineEnding

def terminator : LineEnding → Text
  | native => ['\n']
  | lf => ['\n']
  | crlf => ['\r', '\n']

def name : LineEnding → String
  | native => "native"
  | lf => "lf"
  | crlf => "crlf"

/-- The line ending of one of the names in use, whatever its case and the white space around
it. -/
def ofName? (t : Text) : Option LineEnding :=
  let key := Text.lower (Text.trim Text.isBlank t)
  if key = "native".toList then some native
  else if key = "lf".toList ∨ key = "unix".toList then some lf
  else if key = "crlf".toList ∨ key = "windows".toList then some crlf
  else none

end LineEnding

end PrettyPayload
