import PrettyPayload.Text.Digit
import PrettyPayload.Xml.Character

/-!
# References of XML

An ampersand starts a reference: to a character by its number, to one of the five characters that
have a name, or to an entity of the document. `pieces?` cuts a text into its characters and its
references; unlike in HTML, a stray ampersand is an error. What the pieces stand for depends on
where they are, since white space is treated in one way in a text and in another in an attribute,
and a character that was written by reference escapes this treatment.
-/

namespace PrettyPayload

namespace Xml

inductive Piece where
  | plain (c : Char)
  /-- A character written by reference. -/
  | escaped (c : Char)
  | entity (name : Text)
  deriving DecidableEq, Repr

def namedCharacters : List (Text × Char) :=
  [("quot".toList, '"'), ("amp".toList, '&'), ("apos".toList, '\''), ("lt".toList, '<'),
    ("gt".toList, '>')]

def name? : Text → Option (Text × Text)
  | [] => none
  | c :: t =>
    if isNameStart c then some (c :: t.takeWhile isNameChar, t.dropWhile isNameChar) else none

/-- The character of a number below 2³²; a number that is no character gives the replacement
character. -/
def charOfNumber? (n : Nat) : Option Char :=
  if n < 0x100000000 then
    let c := if n.isValidChar then Char.ofNat n else '\uFFFD'
    if isAllowed c then some c else none
  else none

/-- The base of a numeric reference and its digits, from what follows the number sign. -/
def numberStart (t : Text) : Nat × Text :=
  match t with
  | 'x' :: u => (16, u)
  | _ => (10, t)

def openReference? (t : Text) : Option (Piece × Text) :=
  match t with
  | '#' :: u =>
    let (base, u) := numberStart u
    match u.takeWhile (Text.isDigit base) with
    | [] => none
    | digits =>
      (charOfNumber? (Text.ofDigits base digits)).map fun c =>
        (.escaped c, u.dropWhile (Text.isDigit base))
  | _ =>
    (name? t).map fun (name, rest) =>
      match namedCharacters.lookup name with
      | some c => (.escaped c, rest)
      | none => (.entity name, rest)

def reference? (t : Text) : Option (Piece × Text) :=
  match openReference? t with
  | some (piece, ';' :: rest) => some (piece, rest)
  | _ => none

theorem length_dropWhile_le (p : Char → Bool) (t : Text) :
    (t.dropWhile p).length ≤ t.length := by
  induction t with
  | nil => simp
  | cons c t ih => by_cases h : p c <;> simp [h]; omega

theorem length_of_name? {t name rest : Text} (h : name? t = some (name, rest)) :
    rest.length < t.length := by
  cases t with
  | nil => simp [name?] at h
  | cons c t =>
    simp only [name?] at h
    split at h
    · obtain ⟨-, rfl⟩ := Prod.mk.inj (Option.some.inj h)
      have := length_dropWhile_le isNameChar t
      simp only [List.length_cons]; omega
    · cases h

theorem length_numberStart_le (t : Text) : (numberStart t).2.length ≤ t.length := by
  unfold numberStart; split <;> simp

theorem length_of_openReference? {t rest : Text} {piece : Piece}
    (h : openReference? t = some (piece, rest)) : rest.length < t.length := by
  unfold openReference? at h
  split at h
  next u =>
    have hu := length_numberStart_le u
    have hd := length_dropWhile_le (Text.isDigit (numberStart u).1) (numberStart u).2
    dsimp only at h
    split at h
    · cases h
    · obtain ⟨c, -, hc⟩ := Option.map_eq_some_iff.1 h
      obtain ⟨-, rfl⟩ := Prod.mk.inj hc
      simp only [List.length_cons]; omega
  next =>
    obtain ⟨⟨name, rest'⟩, hn, hc⟩ := Option.map_eq_some_iff.1 h
    have := length_of_name? hn
    dsimp only at hc
    split at hc <;> (obtain ⟨-, rfl⟩ := Prod.mk.inj hc; exact this)

theorem length_of_reference? {t rest : Text} {piece : Piece}
    (h : reference? t = some (piece, rest)) : rest.length < t.length := by
  unfold reference? at h
  split at h
  next rest' ho =>
    have := length_of_openReference? ho
    obtain ⟨-, rfl⟩ := Prod.mk.inj (Option.some.inj h)
    simp only [List.length_cons] at this; omega
  next => cases h

def pieces? : Text → Option (List Piece)
  | [] => some []
  | '&' :: t =>
    match _h : reference? t with
    | some (piece, rest) => (pieces? rest).map (piece :: ·)
    | none => none
  | c :: t => (pieces? t).map (.plain c :: ·)
termination_by t => t.length
decreasing_by
  · have := length_of_reference? _h; simp only [List.length_cons]; omega
  · simp

/-! ## Line ends -/

/-- Adds a character to a text in reverse. A carriage return becomes a line feed as soon as the next
character comes, which is dropped if it is a line feed itself, or at once where no more comes. -/
def pushSettled (reversed : Text) (c : Char) (atEnd : Bool) : Text :=
  let settled := match reversed with
    | '\r' :: t => '\n' :: t
    | t => t
  if c = '\r' ∧ atEnd then '\n' :: settled
  else if c = '\n' ∧ reversed.head? = some '\r' then settled
  else c :: settled

/-- The characters behind `reversed`, with line ends made line feeds; `literal` says for each
whether it, and the one behind it, are taken as they are. -/
def settleOnto (final : Bool) (keep : Bool) (reversed : Text) : List (Char × Bool) → Text
  | [] => reversed.reverse
  | (c, literal) :: rest =>
    if literal then settleOnto final true (c :: reversed) rest
    else if keep then settleOnto final false (c :: reversed) rest
    else settleOnto final false (pushSettled reversed c (final && rest.isEmpty)) rest

/-- The text of characters of which some are literal; `final` says that nothing follows them. -/
def settle (final : Bool) (chars : List (Char × Bool)) : Text := settleOnto final false [] chars

/-- The stretches between the entities of a text, and their names: the first stretch, and behind
each entity the next one. -/
def stretches (inEntity : Bool) : List Piece → List (Char × Bool) × List (Text × List (Char × Bool))
  | [] => ([], [])
  | .plain c :: rest =>
    let (first, more) := stretches inEntity rest
    ((c, false) :: first, more)
  | .escaped c :: rest =>
    let (first, more) := stretches inEntity rest
    ((c, !inEntity) :: first, more)
  | .entity name :: rest =>
    let (first, more) := stretches inEntity rest
    ([], (name, first) :: more)

end Xml

end PrettyPayload
