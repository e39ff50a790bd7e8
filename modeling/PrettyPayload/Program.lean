import PrettyPayload.CommandLine
import PrettyPayload.Dispatcher
import PrettyPayload.Log
import PrettyPayload.Settings.File

/-!
# The program

What the program does is a function of its arguments and its surroundings: the environment, the
files, and standard input. It reads its arguments, then its settings, then the payload, and the
first of these that fails ends it. Once the payload is read nothing can fail any more.
-/

namespace PrettyPayload

namespace Program

inductive ReadError where
  | missing
  | directory
  | notText
  /-- Any other reason, in the words of the system. -/
  | other (reason : String)
  deriving DecidableEq, Repr

def ReadError.message : ReadError → String
  | missing => "No such file or directory (os error 2)"
  | directory => "Is a directory (os error 21)"
  | notText => "stream did not contain valid UTF-8"
  | other reason => reason

/-- Everything outside the program that it looks at. -/
structure Surroundings where
  environment : Environment
  files : Text → Except ReadError ByteArray
  stdin : Except ReadError ByteArray

def decode (bytes : ByteArray) : Except ReadError Text :=
  match String.fromUTF8? bytes with
  | some s => .ok s.toList
  | none => .error .notText

def Surroundings.readFile (w : Surroundings) (path : Text) : Except ReadError Text :=
  w.files path >>= decode

def Surroundings.readStdin (w : Surroundings) : Except ReadError Text := w.stdin >>= decode

/-! ## Errors -/

inductive Error where
  | arguments (e : Arguments.Error)
  | settingsUnreadable (e : ReadError)
  | settingsMalformed
  | fileUnreadable (path : Text) (e : ReadError)
  | stdinUnreadable (e : ReadError)
  deriving DecidableEq, Repr

namespace Error

def message : Error → String
  | arguments e => e.message
  | settingsUnreadable e => "Failed to read config file: " ++ e.message
  | settingsMalformed => "Failed to parse config file"
  | fileUnreadable path _ => "failed to read " ++ String.ofList path
  | stdinUnreadable _ => "failed to read stdin"

def cause? : Error → Option String
  | arguments e => e.cause?
  | fileUnreadable _ e => some e.message
  | stdinUnreadable e => some e.message
  | _ => none

def report (e : Error) : List String :=
  ("Error: " ++ e.message) ::
    match e.cause? with
    | some cause => ["", "Caused by:", "    " ++ cause]
    | none => []

end Error

/-! ## Settings -/

/-- Where settings are looked for if the arguments name no file. -/
def defaultSettingsPath : Text := "rune.toml".toList

def settingsIn (w : Surroundings) (path : Text) : Except Error Settings :=
  match w.readFile path with
  | .error e => .error (.settingsUnreadable e)
  | .ok t =>
    match Settings.ofToml? t with
    | some settings => .ok settings
    | none => .error .settingsMalformed

/-- The settings in the file of the usual name; the standard ones if it cannot be used. -/
def usualSettings (w : Surroundings) : Settings :=
  match settingsIn w defaultSettingsPath with
  | .ok settings => settings
  | .error _ => .standard

/-- The settings that hold in the end: from the file, the environment and the arguments, what comes
later counting more. -/
def settings (a : Arguments) (w : Surroundings) : Except Error Settings := do
  let inFile ←
    match a.config with
    | some path => settingsIn w path
    | none => .ok (usualSettings w)
  return a.apply (inFile.withEnvironment w.environment)

/-! ## Runs -/

def usage : Text :=
  ("Usage: rune-pretty [--kind <html|css|json|xml|none>] [--config <file>] [--indent <n>] " ++
    "[--tabs] [--crlf|--lf] [<file>|-]").toList

def payload (a : Arguments) (w : Surroundings) : Except Error Text :=
  match a.input with
  | .stdin => (w.readStdin).mapError .stdinUnreadable
  | .file path => (w.readFile path).mapError (.fileUnreadable path)

def formatPayload (options : Options) (kind : Kind) (t : Text) : Traced Text :=
  let formatted := Dispatcher.formatStandard options kind t
  ⟨.reading (Text.byteLength t) kind :: formatted.events, formatted.result.text⟩

def output (args : List Text) (w : Surroundings) : Except Error (Traced Text) := do
  let a ← (Arguments.read args).mapError .arguments
  if a.help then return ⟨[], usage ++ ['\n']⟩
  else
    let settings ← settings a w
    let t ← payload a w
    return formatPayload settings.options a.payloadKind t

structure Outcome where
  code : Nat
  stdout : Text
  /-- Complaints about the log filter. -/
  complaints : List String
  log : List Log.Line
  /-- The report of an error. -/
  report : List String
  deriving DecidableEq, Repr

def run (args : List Text) (w : Surroundings) : Outcome :=
  let (filter, complaints) := Log.Filter.read ((w.environment.lookup "RUST_LOG".toList).getD [])
  let diagnostics :=
    ((w.environment.lookup "RUNE_DIAGNOSTICS".toList).map Log.showsDiagnostics).getD false
  match output args w with
  | .ok out => ⟨0, out.result, complaints, Log.lines filter diagnostics out.events, []⟩
  | .error e => ⟨1, [], complaints, [], e.report⟩

end Program

end PrettyPayload
