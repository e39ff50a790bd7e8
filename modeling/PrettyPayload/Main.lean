import PrettyPayload.Program

/-!
# The command

Gathers what the program looks at, runs it, and writes what it says. The two files that a run may
need follow from the arguments, so they are read beforehand.
-/

namespace PrettyPayload

namespace Command

open Program

def readErrorOf : IO.Error → ReadError
  | .noFileOrDirectory .. => .missing
  | .inappropriateType .. => .directory
  | e => .other (toString e)

def readFile (path : Text) : IO (Except ReadError ByteArray) :=
  try return .ok (← IO.FS.readBinFile (String.ofList path))
  catch e => return .error (readErrorOf e)

/-- The bytes of a stream up to its end. -/
partial def readAll (stream : IO.FS.Stream) (bytes : ByteArray) : IO ByteArray := do
  let more ← stream.read 65536
  if more.isEmpty then return bytes
  else readAll stream (bytes ++ more)

def readStdin : IO (Except ReadError ByteArray) :=
  try return .ok (← readAll (← IO.getStdin) ByteArray.empty)
  catch e => return .error (readErrorOf e)

def variableNames : List String :=
  ["RUNE_INDENT_WIDTH", "RUNE_USE_TABS", "RUNE_LINE_ENDING", "RUNE_INLINE_TEXT",
    "RUNE_DIAGNOSTICS", "RUST_LOG"]

def readEnvironment : IO Environment :=
  variableNames.filterMapM fun name => do
    return (← IO.getEnv name).map fun value => (name.toList, value.toList)

def gather (a : Arguments) : IO Surroundings := do
  let environment ← readEnvironment
  let settingsPath := a.config.getD defaultSettingsPath
  let settings ← readFile settingsPath
  match a.input with
  | .stdin =>
    return ⟨environment, fun _ => settings, ← readStdin⟩
  | .file path =>
    let payload ← readFile path
    return ⟨environment, fun p => if p = path then payload else settings, .ok ByteArray.empty⟩

def gatherLittle : IO Surroundings := do
  return ⟨← readEnvironment, fun _ => .error .missing, .ok ByteArray.empty⟩

def logLine (line : Log.Line) : String :=
  "[" ++ line.level.name ++ " " ++ line.topic ++ "] " ++ String.ofList line.shown

def execute (args : List Text) : IO UInt32 := do
  let surroundings ←
    match Arguments.read args with
    | .ok a => if a.help then gatherLittle else gather a
    | .error _ => gatherLittle
  let outcome := run args surroundings
  for complaint in outcome.complaints do
    IO.eprintln complaint
  for line in outcome.log do
    IO.eprint (logLine line)
  for line in outcome.report do
    IO.eprintln line
  let stdout ← IO.getStdout
  stdout.putStr (String.ofList outcome.stdout)
  stdout.flush
  return UInt32.ofNat outcome.code

end Command

end PrettyPayload

def main (args : List String) : IO UInt32 :=
  PrettyPayload.Command.execute (args.map String.toList)
