import PrettyPayload.Pattern.Node

/-!
# Words of patterns

The smallest parts of a pattern: blanks and remarks, which a loose pattern ignores, decimal numbers,
and what a backslash starts. A reader takes the text from a place on and gives what it read together
with the rest.
-/

namespace PrettyPayload

namespace Pattern

def fail {α : Type} (cause : Cause) (span : Span) : Except Fault α :=
  .error { cause, span }

/-! ## What is ignored -/

/-- The text behind white space and remarks, from within a remark or not. A remark goes from a
number sign to the end of its line. -/
def skipIgnored (inRemark : Bool) : Text → Text
  | [] => []
  | c :: t =>
    if inRemark then skipIgnored (c ≠ '\n') t
    else if Text.isBlank c then skipIgnored false t
    else if c = '#' then skipIgnored true t
    else c :: t

def skip (loose : Bool) (t : Text) : Text := if loose then skipIgnored false t else t

theorem length_skipIgnored_le (inRemark : Bool) (t : Text) :
    (skipIgnored inRemark t).length ≤ t.length := by
  induction t generalizing inRemark with
  | nil => simp [skipIgnored]
  | cons c t ih =>
    simp only [skipIgnored, List.length_cons]
    split
    · exact Nat.le_succ_of_le (ih _)
    · split
      · exact Nat.le_succ_of_le (ih _)
      · split
        · exact Nat.le_succ_of_le (ih _)
        · simp

theorem length_skip_le (loose : Bool) (t : Text) : (skip loose t).length ≤ t.length := by
  unfold skip
  split
  · exact length_skipIgnored_le _ _
  · exact Nat.le_refl _

/-- The characters of a class at the start of a text, without what is ignored among and behind
them, and the rest. -/
def takeLoose (loose : Bool) (p : Char → Bool) : Text → Text × Text
  | [] => ([], [])
  | c :: t =>
    if p c then
      let (more, rest) := takeLoose loose p (skip loose t)
      (c :: more, rest)
    else ([], c :: t)
termination_by t => t.length
decreasing_by
  have := length_skip_le loose t
  simp only [List.length_cons]; omega

/-! ## Numbers -/

def countLimit : Nat := 4294967295

/-- The decimal number at the start of a text, with blanks around it, and the rest. That there is
none may be overlooked if something else is missing, so the rest comes in any case. -/
def count (loose : Bool) (t : Text) : Except Fault Nat × Text :=
  let start := t.dropWhile Text.isBlank
  let (digits, behind) := takeLoose loose (Text.isDigit 10) start
  let span := Span.between start behind
  let found : Except Fault Nat :=
    if digits = [] then fail .countMissing span
    else if Text.ofDigits 10 digits ≤ countLimit then .ok (Text.ofDigits 10 digits)
    else fail .decimalTooLarge span
  (found, skip loose (behind.dropWhile Text.isBlank))

/-! ## Escapes -/

inductive Atom where
  | literal (l : Literal)
  | assertion (span : Span) (kind : Assertion)
  | shorthand (span : Span) (negated : Bool) (kind : Shorthand)
  | property (span : Span) (name : Text)
  deriving Repr

def Atom.span : Atom → Span
  | literal l => l.span
  | assertion s _ => s
  | shorthand s _ _ => s
  | property s _ => s

/-- Whether a character stands for itself behind a backslash: any of ASCII but letters, digits and
angle brackets. -/
def isEscapable (c : Char) : Bool :=
  c.toNat < 0x80 && c ≠ '<' && c ≠ '>' &&
    !(('a' ≤ c && c ≤ 'z') || ('A' ≤ c && c ≤ 'Z') || ('0' ≤ c && c ≤ '9'))

def controlLetters : List (Char × Char) :=
  [('a', '\x07'), ('f', '\x0c'), ('t', '\t'), ('n', '\n'), ('r', '\r'), ('v', '\x0b')]

def assertionLetters : List (Char × Assertion) :=
  [('A', .textStart), ('z', .textEnd), ('b', .wordBoundary), ('B', .noWordBoundary),
    ('<', .wordStart), ('>', .wordEnd)]

def shorthandLetters : List (Char × (Bool × Shorthand)) :=
  [('d', false, .digit), ('s', false, .space), ('w', false, .word), ('D', true, .digit),
    ('S', true, .space), ('W', true, .word)]

/-- The numbers of digits behind the letters for hexadecimal escapes. -/
def hexLengths : List (Char × Nat) := [('x', 2), ('u', 4), ('U', 8)]

def hexChar? (digits : Text) : Option Char :=
  let n := Text.ofDigits 16 digits
  if n.isValidChar then some (Char.ofNat n) else none

def hexDigits (loose : Bool) : Nat → Text → Except Fault (Text × Text)
  | 0, t => .ok ([], t)
  | _ + 1, [] => fail .escapeUnfinished .atEnd
  | n + 1, c :: t =>
    if Text.isDigit 16 c then
      (hexDigits loose n (skip loose t)).map fun (digits, rest) => (c :: digits, rest)
    else fail .hexDigit (.first (c :: t))

def hexEscape (loose : Bool) (letter : Char) (start t : Text) : Except Fault (Literal × Text) :=
  match skip loose t with
  | [] => fail .escapeUnfinished .atEnd
  | '\x7b' :: u =>
    match takeLoose loose (Text.isDigit 16) (skip loose u) with
    | (_, []) => fail .escapeUnfinished ⟨u.length + 1, 0⟩
    | (digits, c :: v) =>
      let rest := skip loose v
      if c ≠ '\x7d' then fail .hexDigit (.first (c :: v))
      else if digits = [] then fail .hexEmpty ⟨u.length + 1, rest.length⟩
      else
        match hexChar? digits with
        | some d => .ok (⟨.between start rest, d, false⟩, rest)
        | none => fail .hexNoCharacter (.between u (c :: v))
  | u => do
    let (digits, rest) ← hexDigits loose ((hexLengths.lookup letter).getD 0) u
    match hexChar? digits with
    | some d => return (⟨.between start rest, d, letter = 'x'⟩, rest)
    | none => fail .hexNoCharacter (.between u rest)

def propertyEscape (loose : Bool) (start t : Text) : Except Fault (Atom × Text) :=
  match skip loose t with
  | [] => fail .escapeUnfinished .atEnd
  | '\x7b' :: u =>
    match takeLoose loose (· ≠ '\x7d') (skip loose u) with
    | (_, []) => fail .escapeUnfinished .atEnd
    | (name, _ :: rest) => .ok (.property (.between start rest) name, rest)
  | c :: u =>
    if c = '\\' then fail .propertyName (.first (c :: u))
    else
      let rest := skip loose u
      .ok (.property (.between start rest) [c], rest)

def isBoundaryLetter (c : Char) : Bool :=
  ('a' ≤ c && c ≤ 'z') || ('A' ≤ c && c ≤ 'Z') || c = '-'

def boundaries : List (Text × Assertion) :=
  [("start".toList, .wordStart), ("end".toList, .wordEnd), ("start-half".toList, .wordStartHalf),
    ("end-half".toList, .wordEndHalf)]

/-- A word boundary, from its backslash and from behind its letter, and the rest. What stands in
braces there is a name if it starts like one, and else the count of a repetition. -/
def wordBoundary (loose : Bool) (start t : Text) : Except Fault (Atom × Text) :=
  let plain : Except Fault (Atom × Text) := .ok (.assertion (.between start t) .wordBoundary, t)
  match t with
  | '\x7b' :: u =>
    match skip loose u with
    | [] => fail .boundaryUnfinished (.between start [])
    | c :: v =>
      if isBoundaryLetter c then
        match takeLoose loose isBoundaryLetter (c :: v) with
        | (name, '\x7d' :: rest) =>
          match boundaries.lookup name with
          | some kind => .ok (.assertion (.between start rest) kind, rest)
          | none => fail .boundaryUnknown ⟨v.length + 1, rest.length + 1⟩
        | (_, rest) => fail .boundaryUnclosed (.between t rest)
      else plain
  | _ => plain

def escape (loose : Bool) (start : Text) : Except Fault (Atom × Text) :=
  match start.drop 1 with
  | [] => fail .escapeUnfinished (.between start [])
  | c :: t =>
    let span := Span.between start t
    if Text.isDigit 10 c then fail .backReference span
    else if (hexLengths.lookup c).isSome then
      (hexEscape loose c start t).map fun (l, rest) => (.literal l, rest)
    else if c = 'p' ∨ c = 'P' then propertyEscape loose start t
    else if c = 'b' then wordBoundary loose start t
    else if isEscapable c then .ok (.literal ⟨span, c, false⟩, t)
    else
      match shorthandLetters.lookup c, controlLetters.lookup c, assertionLetters.lookup c with
      | some (negated, kind), _, _ => .ok (.shorthand span negated kind, t)
      | none, some d, _ => .ok (.literal ⟨span, d, false⟩, t)
      | none, none, some kind => .ok (.assertion span kind, t)
      | none, none, none => fail .escapeUnknown span

end Pattern

end PrettyPayload
