import PrettyPayload.Html.NamedCharacter
import PrettyPayload.Text.Alphanumeric

/-!
# Character references of HTML

`decode` replaces the references in a text and turns every line end into a line feed. A reference
is a number or a name behind an ampersand; an ampersand that starts none stands for itself. Of
several names that match, the longest counts. In an attribute value, a name without a semicolon
does not count where a letter, a digit or an equals sign follows.

A carriage return is read along while the end of a name is looked for. Directly behind the name it
is then lost, and behind characters that turned out not to belong to the name it has become a
line feed of its own; `afterName` states this.

`pieces` is the same text as `decode` gives, in the parts in which it is read.
-/

namespace PrettyPayload

namespace Html

/-! ## Numbers -/

/-- The characters meant by the numbers of the second control block, where one is meant. -/
def controlReplacements : List (Nat × Nat) :=
  [(0x80, 0x20AC), (0x82, 0x201A), (0x83, 0x0192), (0x84, 0x201E), (0x85, 0x2026),
    (0x86, 0x2020), (0x87, 0x2021), (0x88, 0x02C6), (0x89, 0x2030), (0x8A, 0x0160),
    (0x8B, 0x2039), (0x8C, 0x0152), (0x8E, 0x017D), (0x91, 0x2018), (0x92, 0x2019),
    (0x93, 0x201C), (0x94, 0x201D), (0x95, 0x2022), (0x96, 0x2013), (0x97, 0x2014),
    (0x98, 0x02DC), (0x99, 0x2122), (0x9A, 0x0161), (0x9B, 0x203A), (0x9C, 0x0153),
    (0x9E, 0x017E), (0x9F, 0x0178)]

def replacement : Char := '\uFFFD'

/-- The character of a number; numbers that are no characters give the replacement character. -/
def charOfNumber (n : Nat) : Char :=
  match controlReplacements.lookup n with
  | some m => Char.ofNat m
  | none => if n = 0 ∨ ¬n.isValidChar then replacement else Char.ofNat n

/-- The digits of a numeric reference and their base, from what follows the number sign. -/
def numberStart (t : Text) : Nat × Text :=
  match t with
  | 'x' :: u => (16, u)
  | 'X' :: u => (16, u)
  | _ => (10, t)

def dropSemicolon : Text → Text
  | ';' :: t => t
  | t => t

/-- The character of a numeric reference and what follows it, from what follows the number
sign. -/
def numericReference? (t : Text) : Option (Char × Text) :=
  let (base, u) := numberStart t
  match u.takeWhile (Text.isDigit base) with
  | [] => none
  | digits =>
    some (charOfNumber (Text.ofDigits base digits),
      dropSemicolon (u.dropWhile (Text.isDigit base)))

/-! ## Names -/

def commonLength : Text → Text → Nat
  | a :: s, b :: t => if a = b then commonLength s t + 1 else 0
  | _, _ => 0

/-- The names that may be written at the start of a text, with the semicolons that belong to them,
and their characters. -/
def spellings (letter : Char) : List (Text × Text) :=
  (namedCharactersAt letter).flatMap fun (name, chars) =>
    if legacyNames.contains name then [(name, chars), (name ++ [';'], chars)]
    else [(name ++ [';'], chars)]

/-- The longer of two matches; the first of two equal ones. -/
def longerMatch (a b : Option (Text × Text)) : Option (Text × Text) :=
  match a, b with
  | none, _ => b
  | _, none => a
  | some x, some y => if x.1.length < y.1.length then b else a

def longestName? (t : Text) : Option (Text × Text) :=
  match t with
  | [] => none
  | letter :: _ =>
    ((spellings letter).filter fun (name, _) => name.isPrefixOf t).foldl
      (fun best entry => longerMatch best (some entry)) none

/-- How many characters are read before it is certain where a name ends. -/
def readLength (t : Text) : Nat :=
  match t with
  | [] => 0
  | letter :: _ => (spellings letter).foldl (fun n (name, _) => max n (commonLength name t)) 0

/-- What remains of a text after a name of `used` characters, when `read` characters and the one
behind them were looked at. -/
def afterName (used read : Nat) (t : Text) : Text :=
  match t.drop read with
  | '\r' :: rest =>
    if read = used then rest else (t.take read).drop used ++ '\n' :: rest
  | _ => t.drop used

/-- The characters of a named reference and what follows it, from what follows the ampersand. Where
there is none, the ampersand stands for itself. -/
def namedReference (inAttribute : Bool) (t : Text) : Text × Text :=
  let read := readLength t
  match longestName? t with
  | none =>
    let next := (t.drop read).head?
    let read :=
      if next.any Text.isAsciiAlphanumeric then
        read + ((t.drop read).takeWhile Text.isAsciiAlphanumeric).length
      else read
    (['&'], afterName 0 read t)
  | some (name, chars) =>
    let closed := name.getLast? = some ';'
    let blocked (c : Char) : Bool := c = '=' || Text.isAsciiAlphanumeric c
    if inAttribute ∧ ¬closed ∧ ((t.drop name.length).head?).any blocked then
      (['&'], afterName 0 read t)
    else (chars, afterName name.length read t)

def reference (inAttribute : Bool) (t : Text) : Text × Text :=
  match t with
  | [] => (['&'], [])
  | '#' :: u =>
    match numericReference? u with
    | some (c, rest) => ([c], rest)
    | none => (['&'], t)
  | c :: _ =>
    if c = '\t' ∨ c = '\n' ∨ c = '\x0c' ∨ c = ' ' ∨ c = '<' ∨ c = '&' then (['&'], t)
    else namedReference inAttribute t

/-! ## Texts -/

/-- The text with its references replaced and its line ends made line feeds. -/
def decode (inAttribute : Bool) : Text → Text
  | [] => []
  | '&' :: t =>
    let (chars, rest) := reference inAttribute t
    if _h : rest.length ≤ t.length then chars ++ decode inAttribute rest else chars
  | '\r' :: '\n' :: t => '\n' :: decode inAttribute t
  | '\r' :: t => '\n' :: decode inAttribute t
  | c :: t => c :: decode inAttribute t
termination_by t => t.length
decreasing_by all_goals (simp_all; try omega)

def withLineFeeds : Text → Text
  | [] => []
  | '\r' :: '\n' :: t => '\n' :: withLineFeeds t
  | '\r' :: t => '\n' :: withLineFeeds t
  | c :: t => c :: withLineFeeds t

def withoutNull (t : Text) : Text := t.map fun c => if c = '\x00' then replacement else c

def startsUnterminated (t : Text) : Bool :=
  match t with
  | '&' :: '#' :: u =>
    let (base, digits) := numberStart u
    !(digits.takeWhile (Text.isDigit base)).isEmpty &&
      (digits.dropWhile (Text.isDigit base)).head? ≠ some ';'
  | _ => false

/-! ## Pieces of text -/

/-- How many characters behind an ampersand are read and given back, from what follows the
ampersand. It may be one more than there are. -/
def givenBack (t : Text) : Nat :=
  match t with
  | [] => 0
  | '#' :: u => if (numericReference? u).isSome then 0 else t.length - (numberStart u).2.length
  | c :: _ =>
    if c = '\t' ∨ c = '\n' ∨ c = '\x0c' ∨ c = ' ' ∨ c = '<' ∨ c = '&' then 0
    else
      let read := readLength t
      match longestName? t with
      | some (name, _) => read + 1 - name.length
      | none => read + ((t.drop read).takeWhile Text.isAsciiAlphanumeric).length + 1

/-- Whether a character goes on the piece in front of it: references and line ends do not. -/
def isPlain (c : Char) : Bool := c ≠ '&' && c ≠ '\n' && c ≠ '\r'

/-- Puts a character in front of the first piece if that goes it on, and else in a piece of its
own. -/
def joinPiece (c : Char) (goesOn : Bool) : List Text → List Text
  | [] => [[c]]
  | piece :: pieces => if goesOn then (c :: piece) :: pieces else [c] :: piece :: pieces

/-- The pieces of a text whose references are replaced. Line feeds and the characters of references
are pieces of their own, and a piece ends where the text does that was read and given back; `left`
is the length of that text, or zero if there is none. -/
def piecesFrom (left : Nat) : Text → List Text
  | [] => []
  | '&' :: t =>
    let (chars, rest) := reference false t
    let own := chars.map fun c => [c]
    if _h : rest.length ≤ t.length then own ++ piecesFrom (givenBack t) rest else own
  | '\r' :: '\n' :: t => ['\n'] :: piecesFrom (left - 2) t
  | '\r' :: t => ['\n'] :: piecesFrom (left - 1) t
  | c :: t =>
    joinPiece c (isPlain c && left ≠ 1 && (t.head?).any isPlain) (piecesFrom (left - 1) t)
termination_by t => t.length
decreasing_by all_goals (simp_all; try omega)

/-- The pieces of a text whose references are replaced. -/
def pieces (t : Text) : List Text := piecesFrom 0 t

end Html

end PrettyPayload
