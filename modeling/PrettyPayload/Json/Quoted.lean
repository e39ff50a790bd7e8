import PrettyPayload.Text.Digit

/-!
# Strings of JSON

A string stands between quotes. Inside, a quote, a backslash and the control characters below the
space are written as escapes, and any character may be. An escape by number gives a unit of UTF-16;
a character beyond the first plane takes two of them, of which neither may stand alone.
-/

namespace PrettyPayload

namespace Json

/-- The number that four hexadecimal digits spell, and what follows them. -/
def unit? : Text → Option (Nat × Text)
  | a :: b :: c :: d :: rest =>
    if [a, b, c, d].all (Text.isDigit 16) then some (Text.ofDigits 16 [a, b, c, d], rest) else none
  | _ => none

def numericEscape? (t : Text) : Option (Char × Text) :=
  match unit? t with
  | none => none
  | some (high, rest) =>
    if high.isValidChar then some (Char.ofNat high, rest)
    else if high < 0xDC00 then
      match rest with
      | '\\' :: 'u' :: u =>
        match unit? u with
        | some (low, rest) =>
          if 0xDC00 ≤ low ∧ low < 0xE000 then
            some (Char.ofNat (0x10000 + (high - 0xD800) * 0x400 + (low - 0xDC00)), rest)
          else none
        | none => none
      | _ => none
    else none

def letterEscapes : List (Char × Char) :=
  [('"', '"'), ('\\', '\\'), ('\x08', 'b'), ('\x0c', 'f'), ('\n', 'n'), ('\r', 'r'), ('\t', 't')]

def escape? : Text → Option (Char × Text)
  | [] => none
  | 'u' :: t => numericEscape? t
  | '/' :: t => some ('/', t)
  | letter :: t =>
    (letterEscapes.find? fun (_, l) => l = letter).map fun (c, _) => (c, t)

theorem length_of_unit? {t rest : Text} {n : Nat} (h : unit? t = some (n, rest)) :
    rest.length < t.length := by
  unfold unit? at h
  split at h
  · split at h
    · obtain ⟨-, rfl⟩ := Prod.mk.inj (Option.some.inj h)
      simp only [List.length_cons]; omega
    · cases h
  · cases h

theorem length_of_numericEscape? {t rest : Text} {c : Char}
    (h : numericEscape? t = some (c, rest)) : rest.length < t.length := by
  unfold numericEscape? at h
  split at h
  · cases h
  next high r hu =>
    have := length_of_unit? hu
    split at h
    · obtain ⟨-, rfl⟩ := Prod.mk.inj (Option.some.inj h)
      exact this
    · split at h
      · split at h
        · split at h
          next hv =>
            have := length_of_unit? hv
            split at h
            · obtain ⟨-, rfl⟩ := Prod.mk.inj (Option.some.inj h)
              simp only [List.length_cons] at *; omega
            · cases h
          next => cases h
        · cases h
      · cases h

theorem length_of_escape? {t rest : Text} {c : Char} (h : escape? t = some (c, rest)) :
    rest.length < t.length := by
  unfold escape? at h
  split at h
  · cases h
  · have := length_of_numericEscape? h
    simp only [List.length_cons]; omega
  · obtain ⟨-, rfl⟩ := Prod.mk.inj (Option.some.inj h)
    simp
  · obtain ⟨p, -, he⟩ := Option.map_eq_some_iff.1 h
    obtain ⟨-, rfl⟩ := Prod.mk.inj he
    simp

/-- The text of a string, from behind its opening quote, and what follows its closing one. -/
def decode? : Text → Option (Text × Text)
  | [] => none
  | '"' :: rest => some ([], rest)
  | '\\' :: t =>
    match _h : escape? t with
    | some (c, rest) => (decode? rest).map fun (s, rest) => (c :: s, rest)
    | none => none
  | c :: t => if c < ' ' then none else (decode? t).map fun (s, rest) => (c :: s, rest)
termination_by t => t.length
decreasing_by
  · have := length_of_escape? _h
    simp only [List.length_cons]; omega
  · simp

theorem length_of_decode? {t s rest : Text} (h : decode? t = some (s, rest)) :
    rest.length < t.length := by
  fun_induction decode? t generalizing s with
  | case1 => cases h
  | case2 => simp_all
  | case3 t c r hr ih =>
    obtain ⟨⟨u, r'⟩, hd, he⟩ := Option.map_eq_some_iff.1 h
    obtain ⟨-, rfl⟩ := Prod.mk.inj he
    have := length_of_escape? hr
    have := ih hd
    simp only [List.length_cons]; omega
  | case4 => cases h
  | case5 => cases h
  | case6 c t _ _ _ ih =>
    obtain ⟨⟨u, r'⟩, hd, he⟩ := Option.map_eq_some_iff.1 h
    obtain ⟨-, rfl⟩ := Prod.mk.inj he
    have := ih hd
    simp only [List.length_cons]; omega

def hexLetter (n : Nat) : Char := Nat.digitChar n

def encodeChar (c : Char) : Text :=
  match letterEscapes.lookup c with
  | some letter => ['\\', letter]
  | none =>
    if c < ' ' then ['\\', 'u', '0', '0', hexLetter (c.toNat / 16), hexLetter (c.toNat % 16)]
    else [c]

def encode (s : Text) : Text := '"' :: s.flatMap encodeChar ++ ['"']

end Json

end PrettyPayload
