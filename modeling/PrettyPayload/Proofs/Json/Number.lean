import PrettyPayload.Json.Number
import PrettyPayload.Proofs.Text.Break

/-!
# Numbers read and written

A number that was read has digits where digits belong, and no zero in front of others. Written, it
is read as it was, if what follows cannot be taken for a part of it.
-/

namespace PrettyPayload

namespace Json

variable {t rest : Text} {c d : Char} {n : Number}

/-! ## Digits -/

def IsDigits (t : Text) : Prop := t ≠ [] ∧ ∀ c ∈ t, isDigit c = true

theorem digits?_append (h : IsDigits t) (hr : ∀ c, rest.head? = some c → isDigit c = false) :
    digits? (t ++ rest) = some (t, rest) := by
  obtain ⟨htake, hdrop⟩ := Text.takeWhile_append_of_head? h.2 hr
  rw [digits?, htake, hdrop]
  split
  next hnil => exact absurd rfl h.1
  next => rfl

theorem isDigits_of_digits? {digits : Text} (h : digits? t = some (digits, rest)) :
    IsDigits digits := by
  unfold digits? at h
  split at h
  next => cases h
  next hne =>
    obtain ⟨rfl, -⟩ := Prod.mk.inj (Option.some.inj h)
    refine ⟨hne, ?_⟩
    intro c hc
    exact List.all_eq_true.1 List.all_takeWhile c hc

/-! ## Numbers -/

namespace Number

/-- A number as it can be written: digits before the point, of which the first is no zero unless it
stands alone, and digits behind the point and in the exponent. -/
structure Proper (n : Number) : Prop where
  whole : n.whole = ['0'] ∨ IsDigits n.whole ∧ n.whole.head? ≠ some '0'
  fraction : n.fraction = [] ∨ IsDigits n.fraction
  exponent : ∀ negative digits, n.exponent = some (negative, digits) → IsDigits digits

def Ends (rest : Text) : Prop :=
  ∀ c, rest.head? = some c → isDigit c = false ∧ c ≠ '.' ∧ c ≠ 'e' ∧ c ≠ 'E'

theorem ends_nil : Ends [] := by
  intro c hc
  cases hc

theorem Proper.isDigits_whole (h : n.Proper) : IsDigits n.whole := by
  rcases h.whole with hzero | hdigits
  · rw [hzero]
    exact ⟨by simp, by simp; decide⟩
  · exact hdigits.1

/-! ### Reading gives proper numbers -/

theorem proper_whole_of_whole? {whole : Text} (h : whole? t = some (whole, rest)) :
    whole = ['0'] ∨ IsDigits whole ∧ whole.head? ≠ some '0' := by
  unfold whole? at h
  split at h
  next =>
    obtain ⟨rfl, -⟩ := Prod.mk.inj (Option.some.inj h)
    exact Or.inl rfl
  next hzero =>
    refine Or.inr ⟨isDigits_of_digits? h, ?_⟩
    unfold digits? at h
    split at h
    next => cases h
    next =>
      obtain ⟨rfl, -⟩ := Prod.mk.inj (Option.some.inj h)
      cases t with
      | nil => simp
      | cons c t =>
        have hc : c ≠ '0' := fun hc => hzero t (by rw [hc])
        rw [List.takeWhile_cons]
        split <;> simp [hc]

theorem proper_fraction_of_fraction? {fraction : Text}
    (h : fraction? t = some (fraction, rest)) : fraction = [] ∨ IsDigits fraction := by
  unfold fraction? at h
  split at h
  next => exact Or.inr (isDigits_of_digits? h)
  next =>
    obtain ⟨rfl, -⟩ := Prod.mk.inj (Option.some.inj h)
    exact Or.inl rfl

theorem proper_exponent_of_exponent? {exponent : Option (Bool × Text)}
    (h : exponent? t = some (exponent, rest)) :
    ∀ negative digits, exponent = some (negative, digits) → IsDigits digits := by
  intro negative digits he
  unfold exponent? at h
  dsimp only at h
  split at h
  next u =>
    obtain ⟨⟨found, r⟩, hd, hx⟩ := Option.map_eq_some_iff.1 h
    obtain ⟨rfl, -⟩ := Prod.mk.inj hx
    obtain ⟨-, rfl⟩ := Prod.mk.inj (Option.some.inj he)
    exact isDigits_of_digits? hd
  next u =>
    obtain ⟨⟨found, r⟩, hd, hx⟩ := Option.map_eq_some_iff.1 h
    obtain ⟨rfl, -⟩ := Prod.mk.inj hx
    obtain ⟨-, rfl⟩ := Prod.mk.inj (Option.some.inj he)
    exact isDigits_of_digits? hd
  next =>
    obtain ⟨rfl, -⟩ := Prod.mk.inj (Option.some.inj h)
    cases he

theorem proper_of_read? (h : read? t = some (n, rest)) : n.Proper := by
  simp only [read?, Option.bind_eq_bind, Option.bind_eq_some_iff, Option.pure_def,
    Option.some.injEq, Prod.mk.injEq, Prod.exists] at h
  obtain ⟨whole, u, hw, fraction, v, hf, exponent, w, he, rfl, rfl⟩ := h
  exact ⟨proper_whole_of_whole? hw, proper_fraction_of_fraction? hf,
    proper_exponent_of_exponent? he⟩

/-! ### Written numbers are read again -/

theorem minus_of_ne (h : c ≠ '-') : minus (c :: t) = (false, c :: t) := by
  rw [minus]
  intro u hu
  exact h (List.cons.inj hu).1

theorem minus_append (negative : Bool) (h : IsDigits t) :
    minus ((if negative then ['-'] else []) ++ (t ++ rest)) = (negative, t ++ rest) := by
  cases negative with
  | true => rfl
  | false =>
    obtain ⟨c, t, rfl⟩ := List.exists_cons_of_ne_nil h.1
    have hc : c ≠ '-' := Text.ne_of_class (h.2 c List.mem_cons_self) (by decide)
    exact minus_of_ne hc

theorem whole?_append (h : n.Proper) (hr : ∀ c, rest.head? = some c → isDigit c = false) :
    whole? (n.whole ++ rest) = some (n.whole, rest) := by
  rcases h.whole with hzero | ⟨hdigits, hhead⟩
  · rw [hzero]
    rfl
  · rw [whole?, digits?_append hdigits hr]
    intro t ht
    obtain ⟨c, s, hs⟩ := List.exists_cons_of_ne_nil hdigits.1
    rw [hs] at hhead ht
    exact hhead (congrArg some (List.cons.inj ht).1)

theorem fraction?_append (h : n.Proper)
    (hr : ∀ c, rest.head? = some c → isDigit c = false ∧ c ≠ '.') :
    fraction? ((if n.fraction = [] then [] else '.' :: n.fraction) ++ rest) =
      some (n.fraction, rest) := by
  rcases h.fraction with hnil | hdigits
  · rw [if_pos hnil, List.nil_append, hnil, fraction?]
    intro t ht
    exact (hr '.' (by rw [ht, List.head?_cons])).2 rfl
  · rw [if_neg hdigits.1, List.cons_append, fraction?]
    exact digits?_append hdigits fun c hc => (hr c hc).1

theorem exponent?_append (h : n.Proper) (hr : Ends rest) :
    exponent? (writeExponent n.exponent ++ rest) = some (n.exponent, rest) := by
  cases he : n.exponent with
  | none =>
    rw [writeExponent, List.nil_append, exponent?]
    · intro t ht
      exact (hr 'e' (by rw [ht, List.head?_cons])).2.2.1 rfl
    · intro t ht
      exact (hr 'E' (by rw [ht, List.head?_cons])).2.2.2 rfl
  | some e =>
    obtain ⟨negative, digits⟩ := e
    have hdigits := digits?_append (h.exponent negative digits he) fun c hc => (hr c hc).1
    cases negative with
    | true => simp [writeExponent, exponent?, sign, hdigits]
    | false => simp [writeExponent, exponent?, sign, hdigits]

theorem ends_writeExponent (e : Option (Bool × Text)) (hr : Ends rest) :
    ∀ c, (writeExponent e ++ rest).head? = some c → isDigit c = false ∧ c ≠ '.' := by
  intro c hc
  cases e with
  | none => exact ⟨(hr c hc).1, (hr c hc).2.1⟩
  | some e =>
    obtain rfl : 'e' = c := Option.some.inj hc
    decide

theorem read?_write_append (h : n.Proper) (hr : Ends rest) :
    read? (n.write ++ rest) = some (n, rest) := by
  have hexponent := ends_writeExponent n.exponent hr
  have hfraction : ∀ c, ((if n.fraction = [] then [] else '.' :: n.fraction) ++
      (writeExponent n.exponent ++ rest)).head? = some c → isDigit c = false := by
    intro c hc
    by_cases hnil : n.fraction = []
    · rw [if_pos hnil] at hc
      exact (hexponent c hc).1
    · rw [if_neg hnil] at hc
      obtain rfl : '.' = c := Option.some.inj hc
      decide
  rw [read?, write, List.append_assoc, List.append_assoc, List.append_assoc,
    minus_append n.negative h.isDigits_whole]
  simp only [Option.bind_eq_bind, Option.bind_some, Option.pure_def, whole?_append h hfraction,
    fraction?_append h hexponent, exponent?_append h hr]

end Number

end Json

end PrettyPayload
