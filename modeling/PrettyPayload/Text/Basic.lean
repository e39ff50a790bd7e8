/-!
# Text

A payload is a list of characters, and every rule of this library is a function on that list.
This module holds the few operations that all payload kinds share: the two classes of blank
characters, trimming at either end, splitting into lines and words, and repeating an indent.

Two classes are kept apart. `isBlank` is the Unicode property White_Space, which trims the texts
of a stylesheet and of a command line. `isAsciiBlank` holds the five blanks of the markup
languages: space, tab, line feed, form feed and carriage return.
-/

namespace PrettyPayload

abbrev Text := List Char

namespace Text

/-! ## Character classes -/

/-- The five blanks of the markup languages and of stylesheets. -/
def isAsciiBlank (c : Char) : Bool :=
  c = ' ' || c = '\t' || c = '\n' || c = '\x0c' || c = '\r'

/-- The Unicode property White_Space. -/
def isBlank (c : Char) : Bool :=
  (9 ≤ c.val && c.val ≤ 13) || c.val = 0x20 || c.val = 0x85 || c.val = 0xA0 || c.val = 0x1680 ||
    (0x2000 ≤ c.val && c.val ≤ 0x200A) || c.val = 0x2028 || c.val = 0x2029 || c.val = 0x202F ||
    c.val = 0x205F || c.val = 0x3000

/-- An ASCII capital letter becomes its small letter; every other character stays. -/
def lowerChar (c : Char) : Char :=
  if 'A' ≤ c ∧ c ≤ 'Z' then Char.ofNat (c.toNat + 32) else c

/-- An ASCII small letter becomes its capital letter; every other character stays. -/
def upperChar (c : Char) : Char :=
  if 'a' ≤ c ∧ c ≤ 'z' then Char.ofNat (c.toNat - 32) else c

def lower (t : Text) : Text := t.map lowerChar

def upper (t : Text) : Text := t.map upperChar

def equalsIgnoringCase (s t : Text) : Bool := lower s = lower t

/-! ## Trimming -/

def trimStart (p : Char → Bool) (t : Text) : Text := t.dropWhile p

def trimEnd (p : Char → Bool) : Text → Text
  | [] => []
  | c :: t =>
    match trimEnd p t with
    | [] => if p c then [] else [c]
    | kept => c :: kept

def trim (p : Char → Bool) (t : Text) : Text := trimEnd p (trimStart p t)

@[simp] theorem trimEnd_nil (p : Char → Bool) : trimEnd p [] = [] := rfl

@[simp] theorem trim_nil (p : Char → Bool) : trim p [] = [] := rfl

/-! ## Prefixes -/

def dropPrefix? : (p t : Text) → Option Text
  | [], t => some t
  | _ :: _, [] => none
  | a :: p, b :: t => if a = b then dropPrefix? p t else none

def dropPrefixIgnoringCase? : (p t : Text) → Option Text
  | [], t => some t
  | _ :: _, [] => none
  | a :: p, b :: t => if lowerChar a = lowerChar b then dropPrefixIgnoringCase? p t else none

def startsWith (p t : Text) : Bool := (dropPrefix? p t).isSome

theorem dropPrefix?_eq_some_iff {p t r : Text} : dropPrefix? p t = some r ↔ t = p ++ r := by
  induction p generalizing t with
  | nil => simp [dropPrefix?]
  | cons a p ih =>
    cases t with
    | nil => simp [dropPrefix?]
    | cons b t =>
      by_cases h : a = b
      · simp [dropPrefix?, h, ih]
      · simp [dropPrefix?, h, Ne.symm h]

@[simp] theorem dropPrefix?_append (p r : Text) : dropPrefix? p (p ++ r) = some r :=
  dropPrefix?_eq_some_iff.2 rfl

/-- What follows the first occurrence of `p`, and what stands before it. -/
def breakAt? (p : Text) : Text → Option (Text × Text)
  | [] => if p = [] then some ([], []) else none
  | c :: t =>
    match dropPrefix? p (c :: t) with
    | some rest => some ([], rest)
    | none => (breakAt? p t).map fun (before, rest) => (c :: before, rest)

/-! ## Lines and words -/

/-- The parts between the occurrences of a character; one more than there are occurrences. -/
def splitOn (d : Char) : Text → List Text
  | [] => [[]]
  | c :: t =>
    if c = d then [] :: splitOn d t
    else
      match splitOn d t with
      | [] => [[c]]
      | part :: parts => (c :: part) :: parts

/-- The lines of a text as an editor counts them: a final line feed ends the last line instead of
opening an empty one, and a carriage return right before a line feed belongs to the line end. -/
def lines (t : Text) : List Text :=
  let parts := splitOn '\n' t
  let closed := parts.dropLast.map dropReturn
  match parts.getLast? with
  | none | some [] => closed
  | some last => closed ++ [last]
where
  /-- The line without one carriage return at its end. -/
  dropReturn (line : Text) : Text :=
    if line.getLast? = some '\r' then line.dropLast else line

/-- The maximal runs of characters outside a class. -/
def wordsBy (p : Char → Bool) : Text → List Text
  | [] => []
  | c :: t =>
    if p c then wordsBy p t
    else
      match t with
      | [] => [[c]]
      | d :: _ =>
        if p d then [c] :: wordsBy p t
        else
          match wordsBy p t with
          | [] => [[c]]
          | word :: words => (c :: word) :: words

def words (t : Text) : List Text := wordsBy isBlank t

def joinWith (separator : Text) (parts : List Text) : Text := separator.intercalate parts

def times (n : Nat) (t : Text) : Text := (List.replicate n t).flatten

def replaceChar (d : Char) (by' : Text) (t : Text) : Text :=
  t.flatMap fun c => if c = d then by' else [c]

def withoutReturns (t : Text) : Text := t.filter (· ≠ '\r')

/-! ## Splitting keeps every character -/

theorem splitOn_ne_nil (d : Char) (t : Text) : splitOn d t ≠ [] := by
  cases t with
  | nil => simp [splitOn]
  | cons c t => simp only [splitOn]; split <;> (try split) <;> simp

theorem joinWith_splitOn (d : Char) (t : Text) : joinWith [d] (splitOn d t) = t := by
  induction t with
  | nil => rfl
  | cons c t ih =>
    rw [splitOn]
    split
    next h =>
      subst h
      cases hs : splitOn c t with
      | nil => exact absurd hs (splitOn_ne_nil c t)
      | cons part parts =>
        rw [hs] at ih
        simp [joinWith, List.intercalate, List.intersperse] at ih ⊢
        exact ih
    next h =>
      cases hs : splitOn d t with
      | nil => exact absurd hs (splitOn_ne_nil d t)
      | cons part parts =>
        rw [hs] at ih
        cases parts <;> simp_all [joinWith, List.intercalate, List.intersperse]

/-- What holds of the characters of a text, found by going through them. -/
theorem forall_mem_of_all {p : Char → Prop} [DecidablePred p] {t : Text}
    (h : (t.all fun c => decide (p c)) = true) : ∀ c ∈ t, p c :=
  fun c hc => of_decide_eq_true (List.all_eq_true.1 h c hc)

theorem ne_of_class {p : Char → Bool} {c d : Char} (hc : p c = true) (hd : p d = false) :
    c ≠ d := by
  rintro rfl
  rw [hc] at hd
  cases hd

end Text

end PrettyPayload
