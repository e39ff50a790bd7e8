import PrettyPayload.Text.Digit

/-!
# Numbers of JSON

A number is kept digit by digit, so that it can be written again as it was. Only the exponent has
one written form: a small `e`, its sign and its digits.
-/

namespace PrettyPayload

namespace Json

structure Number where
  negative : Bool
  /-- The digits before the point. -/
  whole : Text
  /-- The digits behind the point; none if there is no point. -/
  fraction : Text
  /-- Whether the exponent is negative, and its digits. -/
  exponent : Option (Bool × Text)
  deriving DecidableEq, Repr

def isDigit (c : Char) : Bool := Text.isDigit 10 c

/-- The digits at the start of a text and what follows them; at least one has to be there. -/
def digits? (t : Text) : Option (Text × Text) :=
  match t.takeWhile isDigit with
  | [] => none
  | digits => some (digits, t.dropWhile isDigit)

namespace Number

/-- The digits before the point and what follows them. A zero stands alone. -/
def whole? (t : Text) : Option (Text × Text) :=
  match t with
  | '0' :: rest => some (['0'], rest)
  | _ => digits? t

def fraction? (t : Text) : Option (Text × Text) :=
  match t with
  | '.' :: rest => digits? rest
  | _ => some ([], t)

/-- Whether a sign is a minus, and what follows it; no sign counts as a plus. -/
def sign (t : Text) : Bool × Text :=
  match t with
  | '-' :: rest => (true, rest)
  | '+' :: rest => (false, rest)
  | _ => (false, t)

def exponent? (t : Text) : Option (Option (Bool × Text) × Text) :=
  let signed (t : Text) : Option (Option (Bool × Text) × Text) :=
    (digits? (sign t).2).map fun (digits, rest) => (some ((sign t).1, digits), rest)
  match t with
  | 'e' :: rest => signed rest
  | 'E' :: rest => signed rest
  | _ => some (none, t)

def minus (t : Text) : Bool × Text :=
  match t with
  | '-' :: rest => (true, rest)
  | _ => (false, t)

def read? (t : Text) : Option (Number × Text) := do
  let (whole, u) ← whole? (minus t).2
  let (fraction, u) ← fraction? u
  let (exponent, u) ← exponent? u
  return (⟨(minus t).1, whole, fraction, exponent⟩, u)

def ofText? (t : Text) : Option Number :=
  match read? t with
  | some (n, []) => some n
  | _ => none

def writeExponent : Option (Bool × Text) → Text
  | none => []
  | some (negative, digits) => 'e' :: (if negative then '-' else '+') :: digits

def write (n : Number) : Text :=
  (if n.negative then ['-'] else []) ++ n.whole ++
    (if n.fraction = [] then [] else '.' :: n.fraction) ++ writeExponent n.exponent

end Number

/-! ## What is read is not read again -/

theorem length_of_digits? {t digits rest : Text} (h : digits? t = some (digits, rest)) :
    rest.length < t.length := by
  unfold digits? at h
  split at h
  · cases h
  next hne =>
    obtain ⟨-, rfl⟩ := Prod.mk.inj (Option.some.inj h)
    have hs := congrArg List.length (List.takeWhile_append_dropWhile (p := isDigit) (l := t))
    rw [List.length_append] at hs
    have := List.length_pos_iff.2 hne
    omega

namespace Number

theorem length_of_whole? {t digits rest : Text} (h : whole? t = some (digits, rest)) :
    rest.length < t.length := by
  unfold whole? at h
  split at h
  · obtain ⟨-, rfl⟩ := Prod.mk.inj (Option.some.inj h)
    simp
  · exact length_of_digits? h

theorem length_of_fraction? {t digits rest : Text} (h : fraction? t = some (digits, rest)) :
    rest.length ≤ t.length := by
  unfold fraction? at h
  split at h
  · have := length_of_digits? h
    simp only [List.length_cons]; omega
  · obtain ⟨-, rfl⟩ := Prod.mk.inj (Option.some.inj h)
    exact Nat.le_refl _

theorem length_sign_le (t : Text) : (sign t).2.length ≤ t.length := by
  unfold sign; split <;> simp

theorem length_minus_le (t : Text) : (minus t).2.length ≤ t.length := by
  unfold minus; split <;> simp

theorem length_of_exponent? {t rest : Text} {e : Option (Bool × Text)}
    (h : exponent? t = some (e, rest)) : rest.length ≤ t.length := by
  unfold exponent? at h
  dsimp only at h
  split at h
  next u =>
    obtain ⟨⟨digits, r⟩, hd, he⟩ := Option.map_eq_some_iff.1 h
    obtain ⟨-, rfl⟩ := Prod.mk.inj he
    have := length_of_digits? hd
    have := length_sign_le u
    simp only [List.length_cons]; omega
  next u =>
    obtain ⟨⟨digits, r⟩, hd, he⟩ := Option.map_eq_some_iff.1 h
    obtain ⟨-, rfl⟩ := Prod.mk.inj he
    have := length_of_digits? hd
    have := length_sign_le u
    simp only [List.length_cons]; omega
  · obtain ⟨-, rfl⟩ := Prod.mk.inj (Option.some.inj h)
    exact Nat.le_refl _

theorem length_of_read? {t rest : Text} {n : Number} (h : read? t = some (n, rest)) :
    rest.length < t.length := by
  simp only [read?, Option.bind_eq_bind, Option.bind_eq_some_iff, Option.pure_def,
    Option.some.injEq, Prod.mk.injEq, Prod.exists] at h
  obtain ⟨w, t₁, hw, f, t₂, hf, e, t₃, he, -, rfl⟩ := h
  have := length_of_whole? hw
  have := length_of_fraction? hf
  have := length_of_exponent? he
  have := length_minus_le t
  omega

end Number

end Json

end PrettyPayload
