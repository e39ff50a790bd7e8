import PrettyPayload.Text.Digit

/-!
# Faults of patterns

A fault is a cause and the part of the pattern where it shows, and for a few causes the earlier part
that it clashes with. `Fault.report` shows the pattern line by line and marks both parts.
-/

namespace PrettyPayload

namespace Pattern

/-- A part of a pattern, given by the numbers of characters that remain at its start and behind
it. -/
structure Span where
  start : Nat
  stop : Nat
  deriving DecidableEq, Repr

namespace Span

def between (t u : Text) : Span := ⟨t.length, u.length⟩

def here (t : Text) : Span := ⟨t.length, t.length⟩

def atEnd : Span := ⟨0, 0⟩

def first (t : Text) : Span := ⟨t.length, t.length - 1⟩

end Span

def depthLimit : Nat := 250

inductive Cause where
  | setEscape
  | setRangeOrder
  | setRangeBound
  | setUnclosed
  | decimalTooLarge
  | hexEmpty
  | hexNoCharacter
  | hexDigit
  | escapeUnfinished
  | escapeUnknown
  | flagDangling
  | flagRepeated
  | flagNegationRepeated
  | flagUnfinished
  | flagUnknown
  | nameRepeated
  | nameEmpty
  | nameCharacter
  | nameUnfinished
  | groupUnclosed
  | groupUnopened
  | tooDeep
  | countOrder
  | countMissing
  | countUnclosed
  | nothingToRepeat
  | boundaryUnclosed
  | boundaryUnknown
  | boundaryUnfinished
  | propertyName
  | backReference
  | lookAround
  | beyondAscii
  | bytesNoText
  | propertyUnknown
  | propertyValueUnknown
  | shorthandUnavailable
  | caseUnavailable
  deriving DecidableEq, Repr

def Cause.message : Cause → String
  | setEscape => "invalid escape sequence found in character class"
  | setRangeOrder => "invalid character class range, the start must be <= the end"
  | setRangeBound => "invalid range boundary, must be a literal"
  | setUnclosed => "unclosed character class"
  | decimalTooLarge => "decimal literal invalid"
  | hexEmpty => "hexadecimal literal empty"
  | hexNoCharacter => "hexadecimal literal is not a Unicode scalar value"
  | hexDigit => "invalid hexadecimal digit"
  | escapeUnfinished => "incomplete escape sequence, reached end of pattern prematurely"
  | escapeUnknown => "unrecognized escape sequence"
  | flagDangling => "dangling flag negation operator"
  | flagRepeated => "duplicate flag"
  | flagNegationRepeated => "flag negation operator repeated"
  | flagUnfinished => "expected flag but got end of regex"
  | flagUnknown => "unrecognized flag"
  | nameRepeated => "duplicate capture group name"
  | nameEmpty => "empty capture group name"
  | nameCharacter => "invalid capture group character"
  | nameUnfinished => "unclosed capture group name"
  | groupUnclosed => "unclosed group"
  | groupUnopened => "unopened group"
  | tooDeep =>
    "exceed the maximum number of nested parentheses/brackets (" ++ toString depthLimit ++ ")"
  | countOrder => "invalid repetition count range, the start must be <= the end"
  | countMissing => "repetition quantifier expects a valid decimal"
  | countUnclosed => "unclosed counted repetition"
  | nothingToRepeat => "repetition operator missing expression"
  | boundaryUnclosed =>
    "special word boundary assertion is either unclosed or contains an invalid character"
  | boundaryUnknown =>
    "unrecognized special word boundary assertion, valid choices are: start, end, " ++
      "start-half or end-half"
  | boundaryUnfinished =>
    "found either the beginning of a special word boundary or a bounded repetition on a \\b " ++
      "with an opening brace, but no closing brace"
  | propertyName => "invalid Unicode character class"
  | backReference => "backreferences are not supported"
  | lookAround => "look-around, including look-ahead and look-behind, is not supported"
  | beyondAscii => "Unicode not allowed here"
  | bytesNoText => "pattern can match invalid UTF-8"
  | propertyUnknown => "Unicode property not found"
  | propertyValueUnknown => "Unicode property value not found"
  | shorthandUnavailable =>
    "Unicode-aware Perl class not found (make sure the unicode-perl feature is enabled)"
  | caseUnavailable =>
    "Unicode-aware case insensitivity matching is not available " ++
      "(make sure the unicode-case feature is enabled)"

structure Fault where
  cause : Cause
  span : Span
  /-- The earlier part that it clashes with. -/
  earlier : Option Span := none
  deriving DecidableEq, Repr

/-! ## Reports -/

def placeBehind (before : Text) : Nat × Nat :=
  (before.count '\n', (before.reverse.takeWhile (· ≠ '\n')).length)

/-- The marks under the parts of a line, given by the columns of their ends in order, from a column
on. -/
def marksFrom (column : Nat) : List (Nat × Nat) → Text
  | [] => []
  | (start, stop) :: rest =>
    let width := max 1 (stop - start)
    List.replicate (start - column) ' ' ++ List.replicate width '^' ++
      marksFrom (max column start + width) rest

def padded (width n : Nat) : Text :=
  List.replicate (width - (Text.decimal n).length) ' ' ++ Text.decimal n

namespace Fault

def spans (fault : Fault) : List Span :=
  match fault.earlier with
  | none => [fault.span]
  | some other =>
    if (other.start, other.stop) = (fault.span.start, fault.span.stop) ∨
        fault.span.start < other.start then [other, fault.span]
    else [fault.span, other]

/-- The ends of the marked parts as lines and columns. -/
def places (pattern : Text) (fault : Fault) : List ((Nat × Nat) × (Nat × Nat)) :=
  let place (remaining : Nat) : Nat × Nat :=
    placeBehind (pattern.take (pattern.length - remaining))
  fault.spans.map fun span => (place span.start, place span.stop)

def marked (pattern : Text) (fault : Fault) (heading : Nat → Text) : List Text :=
  let places := fault.places pattern
  (Text.lines pattern).zipIdx.flatMap fun (line, i) =>
    let onLine := places.filter fun (start, stop) => start.1 = i && stop.1 = i
    let marks := marksFrom 0 (onLine.map fun (start, stop) => (start.2, stop.2))
    (heading i ++ line) ::
      if onLine.isEmpty then [] else [List.replicate (heading i).length ' ' ++ marks]

/-- What is said of the parts that go over several lines. -/
def remarks (pattern : Text) (fault : Fault) : List Text :=
  ((fault.places pattern).filter fun (start, stop) => start.1 ≠ stop.1).map
    fun (start, stop) =>
      "on line ".toList ++ Text.decimal (start.1 + 1) ++ " (column ".toList ++
        Text.decimal (start.2 + 1) ++ ") through line ".toList ++ Text.decimal (stop.1 + 1) ++
        " (column ".toList ++ Text.decimal stop.2 ++ ")".toList

/-- The report of a fault. The lines of a pattern that has several are numbered. -/
def report (pattern : Text) (fault : Fault) : Text :=
  let message := "error: ".toList ++ fault.cause.message.toList
  let title := "regex parse error:".toList
  let body :=
    if pattern.contains '\n' then
      let divider := List.replicate 79 '~'
      let width := (Text.decimal (pattern.count '\n' + 1)).length
      let heading (i : Nat) : Text := padded width (i + 1) ++ ": ".toList
      title :: divider :: fault.marked pattern heading ++ divider :: fault.remarks pattern
    else title :: fault.marked pattern fun _ => "    ".toList
  Text.joinWith ['\n'] (body ++ [message])

end Fault

end Pattern

end PrettyPayload
