import PrettyPayload.Options
import PrettyPayload.Text.Number

/-!
# Settings

What the user can set about the layout of output. Each setting may come from a settings file, from
the environment or from the command line, and from none of them.
-/

namespace PrettyPayload

structure Settings where
  /-- The number of spaces per level of nesting; without effect where tabs are used. -/
  indentWidth : Nat
  useTabs : Bool
  lineEnding : LineEnding
  inlineSingleText : Bool
  deriving DecidableEq, Repr

abbrev Environment := List (Text × Text)

namespace Settings

def standard : Settings := ⟨2, false, .native, true⟩

/-- What is written once per level of nesting. -/
def indentUnit (s : Settings) : Text :=
  if s.useTabs then ['\t'] else List.replicate s.indentWidth ' '

def options (s : Settings) : Options := ⟨s.indentUnit, s.lineEnding, s.inlineSingleText⟩

/-! ## The environment -/

/-- The number in the variable of a name, if there is one. White space around it is ignored. -/
def numberIn? (env : Environment) (name : String) : Option Nat := do
  let value ← env.lookup name.toList
  (Text.number (Text.trim Text.isBlank value)).toOption

def flagIn? (env : Environment) (name : String) : Option Bool :=
  (env.lookup name.toList).map fun value =>
    value = ['1'] || Text.equalsIgnoringCase "true".toList value

def lineEndingIn? (env : Environment) (name : String) : Option LineEnding :=
  (env.lookup name.toList).bind LineEnding.ofName?

def withEnvironment (env : Environment) (s : Settings) : Settings where
  indentWidth := (numberIn? env "RUNE_INDENT_WIDTH").getD s.indentWidth
  useTabs := (flagIn? env "RUNE_USE_TABS").getD s.useTabs
  lineEnding := (lineEndingIn? env "RUNE_LINE_ENDING").getD s.lineEnding
  inlineSingleText := (flagIn? env "RUNE_INLINE_TEXT").getD s.inlineSingleText

end Settings

end PrettyPayload
