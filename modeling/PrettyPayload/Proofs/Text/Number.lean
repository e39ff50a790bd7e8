import PrettyPayload.Text.Number

/-!
# Numbers in decimal digits

`Spells` says which texts are numbers in settings and on the command line: decimal digits, with or
without a plus before them, whose value has 64 bits. A text is read as the number that it spells,
and no other text is read. The digits in which a number is written have its value.
-/

namespace PrettyPayload

namespace Text

variable {t : Text} {c : Char} {m n : Nat}

/-- Decimal digits, at least one, of a value of 64 bits. -/
structure IsDecimal (t : Text) (n : Nat) : Prop where
  ne_nil : t ≠ []
  isDigit : ∀ c ∈ t, c.isDigit = true
  value : Nat.ofDigitChars 10 t 0 = n
  le : n ≤ 0xFFFFFFFFFFFFFFFF

inductive Spells : (t : Text) → (n : Nat) → Prop
  | plain {t : Text} {n : Nat} (h : IsDecimal t n) : Spells t n
  | plus {t : Text} {n : Nat} (h : IsDecimal t n) : Spells ('+' :: t) n

/-! ## Digits -/

theorem digit?_ten (c : Char) :
    digit? 10 c = if c.isDigit then some (c.toNat - '0'.toNat) else none := by
  have hdigit : ('0' ≤ c ∧ c ≤ '9') ↔ c.isDigit = true := by
    simp [Char.isDigit, Char.le_def]
  by_cases hc : c.isDigit = true
  · have hle : c.toNat ≤ '9'.toNat := (hdigit.2 hc).2
    have hlt : c.toNat - 48 < 10 := by
      have hnine : '9'.toNat = 57 := rfl
      omega
    rw [digit?, hexDigit?, if_pos (hdigit.2 hc), if_pos hc, Option.filter_some, if_pos]
    · rfl
    · exact decide_eq_true hlt
  · rw [digit?, hexDigit?, if_neg (mt hdigit.1 hc), if_neg hc]
    split
    next h =>
      have hge : 'a'.toNat ≤ c.toNat := h.1
      have ha : 'a'.toNat = 97 := rfl
      simp only [Option.filter_some, decide_eq_true_eq]
      rw [if_neg (by omega)]
    next =>
      split
      next h =>
        have hge : 'A'.toNat ≤ c.toNat := h.1
        have ha : 'A'.toNat = 65 := rfl
        simp only [Option.filter_some, decide_eq_true_eq]
        rw [if_neg (by omega)]
      next => rfl

theorem isDigit_ten (c : Char) : isDigit 10 c = c.isDigit := by
  rw [isDigit, digit?_ten]
  split <;> simp_all

theorem ofDigits_ten (h : ∀ c ∈ t, c.isDigit = true) :
    ofDigits 10 t = Nat.ofDigitChars 10 t 0 := by
  suffices hfrom : ∀ m, t.foldl (fun n c => 10 * n + (digit? 10 c).getD 0) m =
      Nat.ofDigitChars 10 t m from hfrom 0
  induction t with
  | nil => exact fun m => rfl
  | cons c t ih =>
    rw [List.forall_mem_cons] at h
    intro m
    rw [List.foldl_cons, digit?_ten, if_pos h.1, ih h.2, Nat.ofDigitChars_cons]
    rfl

theorem isDigit_of_mem_decimal (h : c ∈ decimal n) : c.isDigit = true :=
  Nat.isDigit_of_mem_toDigits (by decide) (by decide) h

theorem ofDigits_decimal (n : Nat) : ofDigits 10 (decimal n) = n := by
  rw [ofDigits_ten fun c => isDigit_of_mem_decimal]
  exact Nat.ofDigitChars_ten_toDigits

/-- A number is written without a zero in front of other digits. -/
theorem decimal_eq_zero_or_head?_ne (n : Nat) :
    decimal n = ['0'] ∨ (decimal n).head? ≠ some '0' := by
  rcases Nat.eq_zero_or_pos n with rfl | hpos
  · exact Or.inl (Nat.toDigits_zero 10)
  · refine Or.inr ?_
    induction n using Nat.strongRecOn with
    | ind n ih =>
      rw [decimal]
      by_cases hlt : n < 10
      · rw [Nat.toDigits_of_lt_base hlt, List.head?_cons]
        exact fun h => Nat.ne_of_gt hpos (Nat.digitChar_eq_zero.1 (Option.some.inj h))
      · have hhead := ih (n / 10) (by omega) (by omega)
        have hne : Nat.toDigits 10 (n / 10) ≠ [] := Nat.toDigits_ne_nil
        obtain ⟨c, u, hcons⟩ := List.exists_cons_of_ne_nil hne
        rw [Nat.toDigits_of_base_le (by decide) (by omega), hcons]
        rw [decimal, hcons] at hhead
        exact hhead

/-! ## Reading -/

theorem le_ofDigitChars (t : Text) (m : Nat) : m ≤ Nat.ofDigitChars 10 t m := by
  rw [Nat.ofDigitChars_eq_ofDigitChars_zero]
  exact Nat.le_trans (Nat.le_mul_of_pos_left m (Nat.pow_pos (by decide))) (Nat.le_add_right _ _)

/-- Digits are read one by one, and a value that is too large stays too large. -/
theorem foldlM_addDigit_eq_ok_iff (hm : m < numberBound) :
    t.foldlM addDigit m = .ok n ↔
      (∀ c ∈ t, c.isDigit = true) ∧ Nat.ofDigitChars 10 t m = n ∧ n < numberBound := by
  induction t generalizing m with
  | nil =>
    rw [Nat.ofDigitChars_nil]
    constructor
    · intro h
      obtain rfl := Except.ok.inj h
      exact ⟨List.forall_mem_nil _, rfl, hm⟩
    · rintro ⟨-, rfl, -⟩
      rfl
  | cons c t ih =>
    rw [List.foldlM_cons, addDigit, digit?_ten, List.forall_mem_cons, Nat.ofDigitChars_cons]
    by_cases hc : c.isDigit = true
    · rw [if_pos hc]
      dsimp only
      by_cases hlt : 10 * m + (c.toNat - '0'.toNat) < numberBound
      · rw [if_pos hlt]
        exact (ih hlt).trans (by simp [hc])
      · rw [if_neg hlt]
        refine ⟨nofun, ?_⟩
        rintro ⟨-, rfl, hbound⟩
        exact absurd (Nat.lt_of_le_of_lt (le_ofDigitChars t _) hbound) hlt
    · rw [if_neg hc]
      exact ⟨nofun, fun h => absurd h.1.1 hc⟩

theorem foldlM_addDigit_zero_eq_ok_iff (hne : t ≠ []) :
    t.foldlM addDigit 0 = .ok n ↔ IsDecimal t n := by
  rw [foldlM_addDigit_eq_ok_iff (by decide)]
  constructor
  · rintro ⟨hall, hvalue, hlt⟩
    exact ⟨hne, hall, hvalue, Nat.le_of_lt_succ hlt⟩
  · rintro ⟨-, hall, hvalue, hle⟩
    exact ⟨hall, hvalue, Nat.lt_succ_of_le hle⟩

theorem number_eq_ok_iff : number t = .ok n ↔ Spells t n := by
  have hplus : ∀ {u : Text} {k : Nat}, ¬IsDecimal ('+' :: u) k := fun h =>
    absurd (h.isDigit '+' List.mem_cons_self) (by decide)
  unfold number
  split
  next =>
    refine ⟨nofun, ?_⟩
    rintro (h | h)
    exact absurd rfl h.ne_nil
  next c u =>
    rw [foldlM_addDigit_zero_eq_ok_iff (List.cons_ne_nil c u)]
    refine ⟨.plus, ?_⟩
    rintro (h | h)
    · exact absurd h hplus
    · exact h
  next hne hsign =>
    rw [foldlM_addDigit_zero_eq_ok_iff hne]
    refine ⟨.plain, ?_⟩
    rintro (h | h)
    · exact h
    · obtain ⟨c, u, rfl⟩ := List.exists_cons_of_ne_nil h.ne_nil
      exact absurd rfl (hsign c u)

end Text

end PrettyPayload
