import PrettyPayload.Kind
import PrettyPayload.Settings.Basic
import PrettyPayload.Text.Path

/-!
# The command line

Arguments are flags, some of them with a value behind them, and at most one input. A flag that is
given again replaces what it said before.
-/

namespace PrettyPayload

inductive Input where
  | stdin
  | file (path : Text)
  deriving DecidableEq, Repr

structure Arguments where
  kind : Option Kind
  /-- The path of a settings file. -/
  config : Option Text
  indent : Option Nat
  tabs : Bool
  lineEnding : Option LineEnding
  /-- The input, if one was named. -/
  named : Option Input
  help : Bool
  deriving DecidableEq, Repr

namespace Arguments

inductive Error where
  /-- The value of a flag is missing. -/
  | missingValue (flag : String)
  | unknownKind (value : Text)
  | notANumber (value : Text) (fault : Text.NumberError)
  | unknownFlag (flag : Text)
  | secondInput (value : Text)
  deriving DecidableEq, Repr

namespace Error

def message : Error → String
  | missingValue flag => flag ++ " expects a value"
  | unknownKind value => Kind.unknownMessage value
  | notANumber value _ => "--indent expects a number, got `" ++ String.ofList value ++ "`"
  | unknownFlag flag => "unknown flag `" ++ String.ofList flag ++ "`"
  | secondInput value => "more than one input given (extra `" ++ String.ofList value ++ "`)"

def cause? : Error → Option String
  | notANumber _ fault => some fault.message
  | _ => none

end Error

def empty : Arguments := ⟨none, none, none, false, none, none, false⟩

/-! ## Flags -/

def setKind (value : Text) (a : Arguments) : Except Error Arguments :=
  match Kind.ofName? value with
  | some kind => .ok { a with kind := some kind }
  | none => .error (.unknownKind value)

def setConfig (value : Text) (a : Arguments) : Except Error Arguments :=
  .ok { a with config := some value }

def setIndent (value : Text) (a : Arguments) : Except Error Arguments :=
  match Text.number value with
  | .ok n => .ok { a with indent := some n }
  | .error fault => .error (.notANumber value fault)

/-- Names the input; a dash stands for standard input. -/
def setInput (value : Text) (a : Arguments) : Except Error Arguments :=
  if a.named.isSome then .error (.secondInput value)
  else .ok { a with named := some (if value = ['-'] then .stdin else .file value) }

def valued? (flag : Text) : Option (String × (Text → Arguments → Except Error Arguments)) :=
  if flag = "--kind".toList then some ("--kind", setKind)
  else if flag = "--config".toList then some ("--config", setConfig)
  else if flag = "--indent".toList then some ("--indent", setIndent)
  else none

def plain? (flag : Text) (a : Arguments) : Option Arguments :=
  if flag = "--tabs".toList then some { a with tabs := true }
  else if flag = "--crlf".toList then some { a with lineEnding := some .crlf }
  else if flag = "--lf".toList then some { a with lineEnding := some .lf }
  else if flag = "-h".toList ∨ flag = "--help".toList then some { a with help := true }
  else none

def readOnto (a : Arguments) : List Text → Except Error Arguments
  | [] => .ok a
  | arg :: rest =>
    match valued? arg with
    | some (flag, set) =>
      match rest with
      | [] => .error (.missingValue flag)
      | value :: rest =>
        match set value a with
        | .ok a => readOnto a rest
        | .error e => .error e
    | none =>
      match plain? arg a with
      | some a => readOnto a rest
      | none =>
        if Text.startsWith "--".toList arg then .error (.unknownFlag arg)
        else
          match setInput arg a with
          | .ok a => readOnto a rest
          | .error e => .error e

def read (args : List Text) : Except Error Arguments := readOnto empty args

/-! ## What follows from the arguments -/

/-- Where the payload comes from: standard input, if no input was named. -/
def input (a : Arguments) : Input := a.named.getD .stdin

def kindOfPath? (path : Text) : Option Kind :=
  match (Text.extension? path).map Kind.ofExtension with
  | some .none => none
  | other => other

/-- The kind of the payload: the one asked for, else the one that the name of the input tells, else
HTML. -/
def payloadKind (a : Arguments) : Kind :=
  match a.kind, a.input with
  | some kind, _ => kind
  | none, .file path => (kindOfPath? path).getD .html
  | none, .stdin => .html

def apply (a : Arguments) (s : Settings) : Settings :=
  { s with
    indentWidth := a.indent.getD s.indentWidth
    useTabs := a.tabs || s.useTabs
    lineEnding := a.lineEnding.getD s.lineEnding }

end Arguments

end PrettyPayload
