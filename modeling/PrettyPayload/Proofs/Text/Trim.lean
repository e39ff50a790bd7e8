import PrettyPayload.Text.Basic

/-!
# Trimming

A text whose two ends are outside a class is its own trimming, and characters of the class that
are put at an end are trimmed away again.
-/

namespace PrettyPayload

namespace Text

variable {p : Char → Bool} {s t : Text} {c : Char}

theorem trimEnd_cons_of_ne_nil (h : trimEnd p t ≠ []) :
    trimEnd p (c :: t) = c :: trimEnd p t := by
  rw [trimEnd]
  split
  · exact absurd ‹_› h
  · rfl

theorem trimEnd_append_of_ne_nil (h : trimEnd p t ≠ []) :
    trimEnd p (s ++ t) = s ++ trimEnd p t := by
  induction s with
  | nil => rfl
  | cons c s ih =>
    rw [List.cons_append, trimEnd_cons_of_ne_nil, ih, List.cons_append]
    rw [ih]
    exact List.append_ne_nil_of_right_ne_nil s h

theorem trimEnd_eq_nil (h : ∀ c ∈ t, p c = true) : trimEnd p t = [] := by
  induction t with
  | nil => rfl
  | cons c t ih =>
    rw [trimEnd, ih fun d hd => h d (List.mem_cons_of_mem c hd)]
    simp [h c List.mem_cons_self]

theorem trimEnd_append_of_eq_nil (h : trimEnd p t = []) : trimEnd p (s ++ t) = trimEnd p s := by
  induction s with
  | nil => rw [List.nil_append, h, trimEnd_nil]
  | cons c s ih => rw [List.cons_append, trimEnd, trimEnd, ih]

/-- Characters of the class at the end are trimmed away. -/
theorem trimEnd_append_of_all (h : ∀ c ∈ t, p c = true) : trimEnd p (s ++ t) = trimEnd p s :=
  trimEnd_append_of_eq_nil (trimEnd_eq_nil h)

theorem trimEnd_concat (h : p c = false) : trimEnd p (s ++ [c]) = s ++ [c] := by
  have hc : trimEnd p [c] = [c] := by simp [trimEnd, h]
  rw [trimEnd_append_of_ne_nil (by simp [hc]), hc]

/-- A text that ends outside the class is not trimmed at its end. -/
theorem trimEnd_eq_self (h : ∀ c, t.getLast? = some c → p c = false) : trimEnd p t = t := by
  rcases List.eq_nil_or_concat t with rfl | ⟨s, c, rfl⟩
  · rfl
  · rw [List.concat_eq_append] at h ⊢
    exact trimEnd_concat (h c (by simp))

theorem trimStart_cons (h : p c = false) : trimStart p (c :: t) = c :: t := by
  simp [trimStart, h]

/-- A text that starts outside the class is not trimmed at its start. -/
theorem trimStart_eq_self (h : ∀ c, t.head? = some c → p c = false) : trimStart p t = t := by
  cases t with
  | nil => rfl
  | cons c t => exact trimStart_cons (h c rfl)

theorem trimStart_append_of_all (h : ∀ c ∈ s, p c = true) :
    trimStart p (s ++ t) = trimStart p t := by
  induction s with
  | nil => rfl
  | cons c s ih =>
    rw [← ih fun d hd => h d (List.mem_cons_of_mem c hd)]
    simp [trimStart, h c List.mem_cons_self]

/-- A text whose ends are outside the class is its own trimming. -/
theorem trim_eq_self (hs : ∀ c, t.head? = some c → p c = false)
    (he : ∀ c, t.getLast? = some c → p c = false) : trim p t = t := by
  rw [trim, trimStart_eq_self hs, trimEnd_eq_self he]

theorem trimEnd_sublist (p : Char → Bool) (t : Text) : (trimEnd p t).Sublist t := by
  induction t with
  | nil => exact List.Sublist.refl []
  | cons c t ih =>
    rw [trimEnd]
    split
    next =>
      split
      next => exact List.nil_sublist _
      next => exact List.Sublist.cons_cons c (List.nil_sublist t)
    next => exact List.Sublist.cons_cons c ih

theorem trim_sublist (p : Char → Bool) (t : Text) : (trim p t).Sublist t :=
  (trimEnd_sublist p _).trans (List.dropWhile_suffix p).sublist

theorem mem_of_mem_trim (h : c ∈ trim p t) : c ∈ t := (trim_sublist p t).subset h

/-- The end of a trimmed text is outside the class. -/
theorem getLast?_trimEnd (h : (trimEnd p t).getLast? = some c) : p c = false := by
  induction t with
  | nil => cases h
  | cons d t ih =>
    rw [trimEnd] at h
    split at h
    next =>
      split at h
      next => cases h
      next hd =>
        obtain rfl := Option.some.inj h
        simpa using hd
    next hne =>
      rw [List.getLast?_cons_of_ne_nil hne] at h
      exact ih h

theorem trimEnd_cons_of_false (h : p c = false) (t : Text) :
    trimEnd p (c :: t) = c :: trimEnd p t := by
  rw [trimEnd]
  split
  next hnil => rw [h, if_neg Bool.false_ne_true, hnil]
  next => rfl

theorem head?_trimStart (h : (trimStart p t).head? = some c) : p c = false := by
  have hhead := List.head?_dropWhile_not p t
  rw [trimStart] at h
  rw [h] at hhead
  simpa using hhead

/-- The start of a trimmed text is outside the class. -/
theorem head?_trim (h : (trim p t).head? = some c) : p c = false := by
  rw [trim] at h
  cases hu : trimStart p t with
  | nil =>
    rw [hu] at h
    cases h
  | cons d u =>
    have hd : p d = false := head?_trimStart (by rw [hu]; rfl)
    rw [hu, trimEnd_cons_of_false hd] at h
    exact Option.some.inj h ▸ hd

theorem trim_trim (p : Char → Bool) (t : Text) : trim p (trim p t) = trim p t :=
  trim_eq_self (fun _ hc => head?_trim hc) fun _ hc => getLast?_trimEnd hc

/-- A text is its form without the end, and characters of the class. -/
theorem exists_eq_trimEnd_append (p : Char → Bool) (t : Text) :
    ∃ back, t = trimEnd p t ++ back ∧ ∀ c ∈ back, p c = true := by
  induction t with
  | nil => exact ⟨[], rfl, List.forall_mem_nil _⟩
  | cons c t ih =>
    obtain ⟨back, hback, hall⟩ := ih
    rw [trimEnd]
    split
    next hnil =>
      rw [hnil, List.nil_append] at hback
      split
      next hc => exact ⟨c :: t, rfl, List.forall_mem_cons.2 ⟨hc, hback ▸ hall⟩⟩
      next => exact ⟨t, rfl, hback ▸ hall⟩
    next => exact ⟨back, congrArg (c :: ·) hback, hall⟩

theorem reverse_trimEnd (p : Char → Bool) (t : Text) :
    (trimEnd p t).reverse = trimStart p t.reverse := by
  obtain ⟨back, hback, hall⟩ := exists_eq_trimEnd_append p t
  conv => rhs; rw [hback, List.reverse_append]
  rw [trimStart_append_of_all fun c hc => hall c (List.mem_reverse.1 hc), trimStart_eq_self]
  intro c hc
  rw [List.head?_reverse] at hc
  exact getLast?_trimEnd hc

/-- A text is characters of the class, and its form without the start. -/
theorem exists_eq_append_trimStart (p : Char → Bool) (t : Text) :
    ∃ front, t = front ++ trimStart p t ∧ ∀ c ∈ front, p c = true :=
  ⟨t.takeWhile p, List.takeWhile_append_dropWhile.symm, List.all_eq_true.1 List.all_takeWhile⟩

/-- A text is its trimmed form between characters of the class. -/
theorem exists_eq_append_trim (p : Char → Bool) (t : Text) :
    ∃ front back, t = front ++ (trim p t ++ back) ∧ (∀ c ∈ front, p c = true) ∧
      ∀ c ∈ back, p c = true := by
  obtain ⟨front, hfront, hall⟩ := exists_eq_append_trimStart p t
  obtain ⟨back, hback, hall'⟩ := exists_eq_trimEnd_append p (trimStart p t)
  exact ⟨front, back, hfront.trans (congrArg (front ++ ·) hback), hall, hall'⟩

/-- A piece of a text that is outside the class at its ends is left where it is. -/
theorem trim_append_append {u : Text} (hne : u ≠ []) (hs : ∀ c, u.head? = some c → p c = false)
    (he : ∀ c, u.getLast? = some c → p c = false) (s t : Text) :
    trim p (s ++ (u ++ t)) = trimStart p s ++ (u ++ trimEnd p t) := by
  have hstart : trimStart p (s ++ (u ++ t)) = trimStart p s ++ (u ++ t) := by
    obtain ⟨front, hfront, hall⟩ := exists_eq_append_trimStart p s
    have hsplit : s ++ (u ++ t) = front ++ (trimStart p s ++ (u ++ t)) := by
      rw [← List.append_assoc front, ← hfront]
    rw [hsplit, trimStart_append_of_all hall]
    refine trimStart_eq_self fun c hc => ?_
    cases hrest : trimStart p s with
    | nil =>
      obtain ⟨d, v, rfl⟩ := List.exists_cons_of_ne_nil hne
      rw [hrest] at hc
      exact hs c hc
    | cons d rest =>
      rw [hrest] at hc
      exact head?_trimStart (t := s) (hrest ▸ hc)
  have hend : trimEnd p (u ++ t) = u ++ trimEnd p t := by
    by_cases hnil : trimEnd p t = []
    · rw [trimEnd_append_of_eq_nil hnil, trimEnd_eq_self he, hnil, List.append_nil]
    · exact trimEnd_append_of_ne_nil hnil
  rw [trim, hstart, trimEnd_append_of_ne_nil, hend]
  rw [hend]
  exact List.append_ne_nil_of_left_ne_nil hne _

theorem trim_append_of_all (h : ∀ c ∈ s, p c = true) (t : Text) :
    trim p (s ++ t) = trim p t := by
  rw [trim, trimStart_append_of_all h, trim]

theorem trim_trimEnd (p : Char → Bool) (t : Text) : trim p (trimEnd p t) = trim p t := by
  obtain ⟨front, back, ht, hfront, hback⟩ := exists_eq_append_trim p t
  have hend : trimEnd p t = trimEnd p (front ++ trim p t) := by
    conv => lhs; rw [ht, ← List.append_assoc]
    exact trimEnd_append_of_all hback
  rw [hend]
  by_cases hnil : trim p t = []
  · rw [hnil, List.append_nil, trimEnd_eq_nil hfront, trim_nil]
  · have hlast : trimEnd p (front ++ trim p t) = front ++ trim p t := by
      refine trimEnd_eq_self fun c hc => getLast?_trimEnd (p := p) (t := trimStart p t) ?_
      obtain ⟨c', hc'⟩ := Option.ne_none_iff_exists'.1 (mt List.getLast?_eq_none_iff.1 hnil)
      rw [List.getLast?_append, hc', Option.some_or] at hc
      exact hc'.trans hc
    rw [hlast, trim_append_of_all hfront, trim_trim]

theorem trim_eq_nil_iff : trim p t = [] ↔ ∀ c ∈ t, p c = true := by
  constructor
  · intro h c hc
    have hsplit : t = t.takeWhile p ++ trimStart p t := List.takeWhile_append_dropWhile.symm
    rw [hsplit] at hc
    rcases List.mem_append.1 hc with hc | hc
    · exact List.all_eq_true.1 List.all_takeWhile c hc
    · cases hu : trimStart p t with
      | nil =>
        rw [hu] at hc
        cases hc
      | cons d u =>
        have hd : p d = false := head?_trimStart (by rw [hu]; rfl)
        rw [trim, hu, trimEnd_cons_of_false hd] at h
        cases h
  · intro h
    have hnil := trim_append_of_all h []
    rw [List.append_nil] at hnil
    exact hnil

/-! ## Characters that are not blank -/

def withoutBlanks (t : Text) : Text := t.filter fun c => !isBlank c

@[simp] theorem withoutBlanks_nil : withoutBlanks [] = [] := rfl

@[simp] theorem withoutBlanks_append (s t : Text) :
    withoutBlanks (s ++ t) = withoutBlanks s ++ withoutBlanks t :=
  List.filter_append s t

theorem withoutBlanks_of_all (h : ∀ c ∈ t, isBlank c = true) : withoutBlanks t = [] :=
  List.filter_eq_nil_iff.2 fun c hc => by simp [h c hc]

theorem count_withoutBlanks (hc : isBlank c = false) (t : Text) :
    (withoutBlanks t).count c = t.count c :=
  List.count_filter (by rw [hc, Bool.not_false])

theorem withoutBlanks_trimStart (t : Text) :
    withoutBlanks (trimStart isBlank t) = withoutBlanks t := by
  obtain ⟨front, ht, hfront⟩ := exists_eq_append_trimStart isBlank t
  conv => rhs; rw [ht, withoutBlanks_append, withoutBlanks_of_all hfront, List.nil_append]

theorem withoutBlanks_trimEnd (t : Text) :
    withoutBlanks (trimEnd isBlank t) = withoutBlanks t := by
  obtain ⟨back, ht, hback⟩ := exists_eq_trimEnd_append isBlank t
  conv => rhs; rw [ht, withoutBlanks_append, withoutBlanks_of_all hback, List.append_nil]

/-- Trimming takes nothing off but blanks. -/
theorem withoutBlanks_trim (t : Text) : withoutBlanks (trim isBlank t) = withoutBlanks t := by
  rw [trim, withoutBlanks_trimEnd, withoutBlanks_trimStart]

end Text

end PrettyPayload
