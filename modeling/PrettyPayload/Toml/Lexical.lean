import PrettyPayload.Text.Digit

/-!
# Words of TOML

Blanks, line ends, comments and quoted strings. Apart from the tab, no control character may stand
in a comment or a string; a line ends with a line feed, with or without a carriage return before
it.
-/

namespace PrettyPayload

namespace Toml

/-! ## Blanks and line ends -/

/-- The blanks within a line. -/
def isBlank (c : Char) : Bool := c = ' ' || c = '\t'

def skipBlanks (t : Text) : Text := t.dropWhile isBlank

def isPrintable (c : Char) : Bool := c = '\t' || (' ' ≤ c && c ≠ '\x7f')

def newline? : Text → Option Text
  | '\n' :: t => some t
  | '\r' :: '\n' :: t => some t
  | _ => none

def skipComment (t : Text) : Text :=
  match t with
  | '#' :: u => u.dropWhile isPrintable
  | _ => t

/-- The text behind the end of a line: blanks, a comment if there is one, and a line end, which may
be missing only at the end of the text. -/
def lineEnd? (t : Text) : Option Text :=
  match skipComment (skipBlanks t) with
  | [] => some []
  | u => newline? u

/-- The text behind blanks, line ends and comments, as they may stand between the items of an
array. -/
def skipGap (t : Text) : Text :=
  match skipBlanks t with
  | [] => []
  | c :: u =>
    match newline? (skipComment (c :: u)) with
    | some rest => if rest.length < t.length then skipGap rest else c :: u
    | none => c :: u
termination_by t.length

/-! ## Strings -/

def hexNumber? (digits : Nat) (t : Text) : Option (Nat × Text) :=
  let written := t.take digits
  if written.length = digits ∧ written.all (Text.isDigit 16) then
    some (Text.ofDigits 16 written, t.drop digits)
  else none

def letterEscapes : List (Char × Char) :=
  [('b', '\x08'), ('t', '\t'), ('n', '\n'), ('f', '\x0c'), ('r', '\r'), ('"', '"'), ('\\', '\\')]

def escape? (t : Text) : Option (Char × Text) :=
  let numeric (digits : Nat) (t : Text) : Option (Char × Text) := do
    let (n, rest) ← hexNumber? digits t
    if n.isValidChar then some (Char.ofNat n, rest) else none
  match t with
  | [] => none
  | 'u' :: u => numeric 4 u
  | 'U' :: u => numeric 8 u
  | letter :: u => (letterEscapes.lookup letter).map (·, u)

/-- The text of a string in double quotes, from behind its opening quote, and what follows its
closing one. -/
def basicString? (t : Text) : Option (Text × Text) :=
  match t with
  | [] => none
  | '"' :: rest => some ([], rest)
  | '\\' :: u => do
    let (c, rest) ← escape? u
    if rest.length ≤ u.length then
      let (s, rest) ← basicString? rest
      return (c :: s, rest)
    else none
  | c :: u => if isPrintable c then (basicString? u).map fun (s, rest) => (c :: s, rest) else none
termination_by t.length

/-- The text of a string in single quotes, from behind its opening quote, and what follows its
closing one. Nothing is escaped in it. -/
def literalString? : Text → Option (Text × Text)
  | [] => none
  | '\'' :: rest => some ([], rest)
  | c :: t =>
    if isPrintable c then (literalString? t).map fun (s, rest) => (c :: s, rest) else none

/-- What the end of a string over several lines leaves: three quotes close it, and up to two more
belong to it. -/
def closing? (q : Char) (t : Text) : Option (Text × Text) :=
  match t with
  | a :: b :: c :: rest =>
    if a = q ∧ b = q ∧ c = q then
      match rest with
      | d :: e :: rest' =>
        if d = q ∧ e = q then some ([q, q], rest')
        else if d = q then some ([q], e :: rest')
        else some ([], rest)
      | [d] => if d = q then some ([q], []) else some ([], rest)
      | [] => some ([], [])
    else none
  | _ => none

def skipBlankLines : Text → Text
  | ' ' :: t => skipBlankLines t
  | '\t' :: t => skipBlankLines t
  | '\n' :: t => skipBlankLines t
  | '\r' :: '\n' :: t => skipBlankLines t
  | t => t

/-- The text behind a backslash at the end of a line: the line end, and the blanks and line ends
behind it. -/
def joinedLine? (t : Text) : Option Text := (newline? (skipBlanks t)).map skipBlankLines

/-- The text of a string over several lines between quotes `q`, from behind its opening quotes, and
what follows its closing ones; only some strings have escapes. -/
def longString? (q : Char) (escapes : Bool) (t : Text) : Option (Text × Text) :=
  match closing? q t with
  | some found => some found
  | none =>
    match t with
    | [] => none
    | c :: u =>
      let next : Option (Text × Text) :=
        match newline? t with
        | some rest => some (['\n'], rest)
        | none =>
          if c = '\\' ∧ escapes then
            match joinedLine? u with
            | some rest => some ([], rest)
            | none => (escape? u).map fun (c, rest) => ([c], rest)
          else if isPrintable c then some ([c], u)
          else none
      match next with
      | none => none
      | some (part, rest) =>
        if rest.length ≤ u.length then
          (longString? q escapes rest).map fun (s, rest) => (part ++ s, rest)
        else none
termination_by t.length

def dropNewline (t : Text) : Text := (newline? t).getD t

def string? (t : Text) : Option (Text × Text) :=
  match t with
  | '"' :: '"' :: '"' :: rest => longString? '"' true (dropNewline rest)
  | '\'' :: '\'' :: '\'' :: rest => longString? '\'' false (dropNewline rest)
  | '"' :: rest => basicString? rest
  | '\'' :: rest => literalString? rest
  | _ => none

end Toml

end PrettyPayload
