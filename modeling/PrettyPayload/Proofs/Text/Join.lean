import PrettyPayload.Text.Basic

/-!
# Joining

The parts of a text between separators, and a text repeated, taken apart from the front.
-/

namespace PrettyPayload

namespace Text

variable {separator s t : Text} {parts : List Text}

@[simp] theorem joinWith_nil (separator : Text) : joinWith separator [] = [] := rfl

@[simp] theorem joinWith_singleton (separator t : Text) : joinWith separator [t] = t := by
  simp [joinWith]

theorem joinWith_cons_cons (separator s t : Text) (parts : List Text) :
    joinWith separator (s :: t :: parts) = s ++ separator ++ joinWith separator (t :: parts) := by
  simp [joinWith, List.intercalate]

theorem flatMap_append_eq_joinWith (separator : Text) (h : parts ≠ []) :
    parts.flatMap (separator ++ ·) = separator ++ joinWith separator parts := by
  induction parts with
  | nil => exact absurd rfl h
  | cons s parts ih =>
    cases parts with
    | nil => simp
    | cons t parts =>
      rw [List.flatMap_cons, ih (by simp), joinWith_cons_cons]
      simp

theorem joinWith_cons (separator s : Text) (parts : List Text) :
    joinWith separator (s :: parts) = s ++ parts.flatMap (separator ++ ·) := by
  cases parts with
  | nil => simp
  | cons t parts =>
    rw [joinWith_cons_cons, flatMap_append_eq_joinWith separator (by simp), List.append_assoc]

theorem joinWith_concat (separator t : Text) (h : parts ≠ []) :
    joinWith separator (parts ++ [t]) = joinWith separator parts ++ separator ++ t := by
  cases parts with
  | nil => exact absurd rfl h
  | cons s parts =>
    rw [List.cons_append, joinWith_cons, joinWith_cons]
    simp

theorem infix_joinWith (separator : Text) (h : t ∈ parts) : t <:+: joinWith separator parts := by
  cases parts with
  | nil => cases h
  | cons s parts =>
    rw [joinWith_cons]
    rcases List.mem_cons.1 h with rfl | h
    · exact (List.prefix_append _ _).isInfix
    · have hpart : t <:+: parts.flatMap (separator ++ ·) :=
        (List.suffix_append separator t).isInfix.trans
          (List.infix_of_mem_flatten (List.mem_map_of_mem h))
      exact hpart.trans (List.suffix_append _ _).isInfix

theorem joinWith_eq_drop (separator : Text) (parts : List Text) :
    joinWith separator parts = (parts.flatMap (separator ++ ·)).drop separator.length := by
  cases parts with
  | nil => simp
  | cons s parts =>
    rw [joinWith_cons, List.flatMap_cons, List.append_assoc, List.drop_left]

/-- The parts of a text between the occurrences of a character, joined by something else. -/
theorem joinWith_splitOn_eq_replaceChar (d : Char) (separator t : Text) :
    joinWith separator (splitOn d t) = replaceChar d separator t := by
  induction t with
  | nil => rfl
  | cons c t ih =>
    rw [splitOn, replaceChar, List.flatMap_cons, ← replaceChar, ← ih]
    split
    next h =>
      rw [joinWith_cons, List.nil_append,
        flatMap_append_eq_joinWith separator (splitOn_ne_nil d t)]
    next h =>
      cases hs : splitOn d t with
      | nil => exact absurd hs (splitOn_ne_nil d t)
      | cons part parts =>
        rw [joinWith_cons, joinWith_cons, List.cons_append, List.singleton_append]

@[simp] theorem replaceChar_nil (d : Char) (by' : Text) : replaceChar d by' [] = [] := rfl

@[simp] theorem replaceChar_append (d : Char) (by' s t : Text) :
    replaceChar d by' (s ++ t) = replaceChar d by' s ++ replaceChar d by' t :=
  List.flatMap_append

theorem replaceChar_cons_self (d : Char) (by' t : Text) :
    replaceChar d by' (d :: t) = by' ++ replaceChar d by' t := by
  rw [replaceChar, List.flatMap_cons, if_pos rfl, ← replaceChar]

theorem replaceChar_cons_of_ne {d c : Char} (by' : Text) (h : c ≠ d) (t : Text) :
    replaceChar d by' (c :: t) = c :: replaceChar d by' t := by
  rw [replaceChar, List.flatMap_cons, if_neg h, ← replaceChar, List.singleton_append]

theorem replaceChar_eq_self {d : Char} (by' : Text) (h : d ∉ t) : replaceChar d by' t = t := by
  induction t with
  | nil => rfl
  | cons c t ih =>
    rw [List.mem_cons, not_or] at h
    rw [replaceChar_cons_of_ne by' (Ne.symm h.1), ih h.2]

/-- To put a character in its own place changes nothing. -/
theorem replaceChar_self (d : Char) (t : Text) : replaceChar d [d] t = t :=
  (joinWith_splitOn_eq_replaceChar d [d] t).symm.trans (joinWith_splitOn d t)

theorem mem_replaceChar {d : Char} {by' : Text} {c : Char} (h : c ∈ replaceChar d by' t) :
    c ∈ by' ∨ c ∈ t := by
  obtain ⟨b, hb, hc⟩ := List.mem_flatMap.1 h
  split at hc
  · exact Or.inl hc
  · obtain rfl := List.mem_singleton.1 hc
    exact Or.inr hb

@[simp] theorem times_zero (t : Text) : times 0 t = [] := rfl

theorem times_succ (n : Nat) (t : Text) : times (n + 1) t = t ++ times n t := rfl

/-- What holds of the characters of a text holds of those of its repetitions. -/
theorem forall_mem_times {p : Char → Prop} (n : Nat) (h : ∀ c ∈ t, p c) : ∀ c ∈ times n t, p c := by
  induction n with
  | zero => simp
  | succ n ih =>
    rw [times_succ]
    intro c hc
    rcases List.mem_append.1 hc with hc | hc
    · exact h c hc
    · exact ih c hc

end Text

end PrettyPayload
