import PrettyPayload.Proofs.Text.Break
import PrettyPayload.Proofs.Text.Number
import PrettyPayload.Toml.Reader

/-!
# Numbers that are written

The decimal digits of a number, at the end of a line, are read as an integer: they are no string, no
truth value, no date and no float, and no notation of another base. `scalar?_decimal` says so for
every number that fits into 63 bits.
-/

namespace PrettyPayload

namespace Toml

variable {ds rest : Text} {d : Char} {n : Nat}

/-! ## Digits at the end of a line -/

theorem digits_append (hds : ∀ c ∈ ds, c.isDigit = true) (rest : Text) :
    digits 10 (ds ++ '\n' :: rest) = (ds, '\n' :: rest) := by
  induction ds with
  | nil => rfl
  | cons c ds ih =>
    obtain ⟨hc, hds⟩ := List.forall_mem_cons.1 hds
    rw [List.cons_append, digits]
    · rw [if_pos ((Text.isDigit_ten c).trans hc), ih hds]
    · rintro d u rfl
      cases hc

theorem sign_append (hds : ∀ c ∈ ds, c.isDigit = true) (hne : ds ≠ []) (rest : Text) :
    sign (ds ++ rest) = (false, ds ++ rest) := by
  rw [sign]
  · exact fun u => Text.append_ne_cons hne hds rfl
  · exact fun u => Text.append_ne_cons hne hds rfl

/-- No zero stands in front of other digits. -/
def IsPlain (ds : Text) : Prop := ds = ['0'] ∨ ds ≠ [] ∧ ds.head? ≠ some '0'

theorem whole?_append (hds : ∀ c ∈ ds, c.isDigit = true) (hplain : IsPlain ds) (rest : Text) :
    whole? (ds ++ '\n' :: rest) = some (ds, '\n' :: rest) := by
  rcases hplain with rfl | ⟨hne, hhead⟩
  · rfl
  · obtain ⟨c, u, rfl⟩ := List.exists_cons_of_ne_nil hne
    rw [whole?]
    · rw [digits?, digits_append hds, if_pos]
      exact (Text.isDigit_ten c).trans (hds c List.mem_cons_self)
    · intro v hv
      exact hhead (congrArg some (List.cons.inj hv).1)

theorem IsPlain.ne_nil (h : IsPlain ds) : ds ≠ [] := by
  rcases h with rfl | h
  · exact List.cons_ne_nil _ _
  · exact h.1

theorem float?_append (hds : ∀ c ∈ ds, c.isDigit = true) (hplain : IsPlain ds) (rest : Text) :
    float? (ds ++ '\n' :: rest) = none := by
  have hdecimal : decimal? (ds ++ '\n' :: rest) = none := by
    rw [decimal?, sign_append hds hplain.ne_nil]
    simp only [Option.bind_eq_bind, whole?_append hds hplain, Option.bind_some]
    rfl
  have hinf : Text.dropPrefix? "inf".toList (ds ++ '\n' :: rest) = none :=
    Text.dropPrefix?_append_eq_none hplain.ne_nil hds (c := 'i') rfl _
  have hnan : Text.dropPrefix? "nan".toList (ds ++ '\n' :: rest) = none :=
    Text.dropPrefix?_append_eq_none hplain.ne_nil hds (c := 'n') rfl _
  rw [float?, hdecimal, sign_append hds hplain.ne_nil]
  simp only [hinf, hnan]

/-- What stands behind some of the digits is another digit or the end of the line. -/
theorem dropPrefix?_of_fixedNumber? {k m : Nat} {u : Text} (hds : ∀ c ∈ ds, c.isDigit = true)
    (h : fixedNumber? k (ds ++ '\n' :: rest) = some (m, u)) (hd : d.isDigit = false)
    (hnewline : d ≠ '\n') : Text.dropPrefix? [d] u = none := by
  rw [fixedNumber?] at h
  split at h
  next hwritten =>
    obtain ⟨-, rfl⟩ := Prod.mk.inj (Option.some.inj h)
    have hk : k ≤ ds.length := by
      refine Nat.le_of_not_lt fun hlt => ?_
      obtain ⟨j, hj⟩ := Nat.exists_eq_add_of_lt hlt
      have hmem : '\n' ∈ (ds ++ '\n' :: rest).take k := by
        rw [List.take_append, List.mem_append, hj]
        refine Or.inr ?_
        rw [show ds.length + j + 1 - ds.length = j + 1 by omega, List.take_succ_cons]
        exact List.mem_cons_self
      have hdigit := List.all_eq_true.1 hwritten.2 '\n' hmem
      rw [Text.isDigit_ten] at hdigit
      cases hdigit
    rw [List.drop_append_of_le_length hk]
    cases hdrop : ds.drop k with
    | nil => exact if_neg hnewline
    | cons e v =>
      have he := hds e (List.mem_of_mem_drop (hdrop ▸ List.mem_cons_self))
      exact if_neg (Text.ne_of_class he hd).symm
  next => cases h

theorem date?_append (hds : ∀ c ∈ ds, c.isDigit = true) (rest : Text) :
    date? (ds ++ '\n' :: rest) = none := by
  have hday : day? (ds ++ '\n' :: rest) = none := by
    rw [day?]
    cases h : fixedNumber? 4 (ds ++ '\n' :: rest) with
    | none => rfl
    | some found =>
      simp only [Option.bind_eq_bind, Option.bind_some,
        dropPrefix?_of_fixedNumber? hds h (d := '-') rfl (by decide), Option.bind_none]
  have hhour : hourAndMinute? (ds ++ '\n' :: rest) = none := by
    rw [hourAndMinute?]
    cases h : fixedNumber? 2 (ds ++ '\n' :: rest) with
    | none => rfl
    | some found =>
      simp only [Option.bind_eq_bind, Option.bind_some,
        dropPrefix?_of_fixedNumber? hds h (d := ':') rfl (by decide), Option.bind_none]
  rw [date?, hday]
  simp only [time?, hhour, Option.bind_eq_bind, Option.bind_none]

theorem inRange_of_lt (h : n < 0x8000000000000000) : inRange (n : Int) = some (n : Int) := by
  rw [inRange, if_pos]
  constructor <;> omega

theorem integer?_append (hds : ∀ c ∈ ds, c.isDigit = true) (hplain : IsPlain ds)
    (hlt : Text.ofDigits 10 ds < 0x8000000000000000) (rest : Text) :
    integer? (ds ++ '\n' :: rest) = some ((Text.ofDigits 10 ds : Int), '\n' :: rest) := by
  -- the base of another notation would be the second character
  have hbase : ∀ a b u, b.isDigit = false → b ≠ '\n' → ds ++ '\n' :: rest ≠ a :: b :: u := by
    intro a b u hb hnewline h
    obtain ⟨c, ds, rfl⟩ := List.exists_cons_of_ne_nil hplain.ne_nil
    cases ds with
    | nil => exact hnewline (List.cons.inj (List.cons.inj h).2).1.symm
    | cons e ds =>
      have he := hds e (List.mem_cons_of_mem c List.mem_cons_self)
      exact Text.ne_of_class he hb (List.cons.inj (List.cons.inj h).2).1
  have hrange := inRange_of_lt hlt
  rw [integer?]
  · -- the test of the range becomes any function, so that nobody computes with the bounds
    generalize inRange = range at hrange ⊢
    rw [sign_append hds hplain.ne_nil, whole?_append hds hplain, Option.map_some,
      Option.bind_eq_bind, Option.bind_some]
    simp only [Bool.false_eq_true, if_false]
    rw [hrange]
    rfl
  · exact fun u => hbase '0' 'x' u rfl (by decide)
  · exact fun u => hbase '0' 'o' u rfl (by decide)
  · exact fun u => hbase '0' 'b' u rfl (by decide)

/-! ## The digits of a number -/

theorem isPlain_decimal (n : Nat) : IsPlain (Text.decimal n) := by
  rcases Text.decimal_eq_zero_or_head?_ne n with h | h
  · exact Or.inl h
  · exact Or.inr ⟨Nat.toDigits_ne_nil, h⟩

/-- The digits of a number that is not too large are read as that number. -/
theorem scalar?_decimal (h : n < 0x8000000000000000) (rest : Text) :
    scalar? (Text.decimal n ++ '\n' :: rest) = some (.integer n, '\n' :: rest) := by
  have hds : ∀ c ∈ Text.decimal n, c.isDigit = true := fun c => Text.isDigit_of_mem_decimal
  have hplain := isPlain_decimal n
  have hinteger : integer? (Text.decimal n ++ '\n' :: rest) = some ((n : Int), '\n' :: rest) := by
    have hinteger := integer?_append hds hplain (by rwa [Text.ofDigits_decimal]) rest
    rwa [Text.ofDigits_decimal] at hinteger
  have hstring : string? (Text.decimal n ++ '\n' :: rest) = none := by
    rw [string?]
    · exact fun u => Text.append_ne_cons hplain.ne_nil hds rfl
    · exact fun u => Text.append_ne_cons hplain.ne_nil hds rfl
    · exact fun u => Text.append_ne_cons hplain.ne_nil hds rfl
    · exact fun u => Text.append_ne_cons hplain.ne_nil hds rfl
  have htrue : Text.dropPrefix? "true".toList (Text.decimal n ++ '\n' :: rest) = none :=
    Text.dropPrefix?_append_eq_none hplain.ne_nil hds (c := 't') rfl _
  have hfalse : Text.dropPrefix? "false".toList (Text.decimal n ++ '\n' :: rest) = none :=
    Text.dropPrefix?_append_eq_none hplain.ne_nil hds (c := 'f') rfl _
  rw [scalar?, hstring]
  simp only [htrue, hfalse, date?_append hds, float?_append hds hplain, hinteger, Option.map_some]

end Toml

end PrettyPayload
