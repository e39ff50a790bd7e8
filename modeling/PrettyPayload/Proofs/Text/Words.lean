import PrettyPayload.Proofs.Text.Join
import PrettyPayload.Proofs.Text.Trim

/-!
# Words

The words of a text are made of its characters, and a blank between two texts keeps their words
apart, so that the words of joined parts are those of each part in order.
-/

namespace PrettyPayload

namespace Text

variable {p : Char → Bool} {s t word : Text} {c : Char}

theorem mem_of_mem_wordsBy (h : word ∈ wordsBy p t) (hc : c ∈ word) : c ∈ t := by
  fun_induction wordsBy p t generalizing word with
  | case1 => cases h
  | case2 d t _ ih => exact List.mem_cons_of_mem d (ih h hc)
  | case3 d _ => exact List.mem_singleton.1 h ▸ hc
  | case4 d _ b t _ ih =>
    rcases List.mem_cons.1 h with rfl | h
    · exact List.mem_singleton.1 hc ▸ List.mem_cons_self
    · exact List.mem_cons_of_mem d (ih h hc)
  | case5 d _ b t _ hnil ih =>
    rw [hnil] at h
    obtain rfl := List.mem_singleton.1 h
    exact List.mem_singleton.1 hc ▸ List.mem_cons_self
  | case6 d _ b t _ first words hwords ih =>
    rw [hwords] at h
    rcases List.mem_cons.1 h with rfl | h
    · rcases List.mem_cons.1 hc with rfl | hc
      · exact List.mem_cons_self
      · exact List.mem_cons_of_mem d (ih (hwords ▸ List.mem_cons_self) hc)
    · exact List.mem_cons_of_mem d (ih (hwords ▸ List.mem_cons_of_mem first h) hc)

theorem wordsBy_cons_of_blank (h : p c = true) (t : Text) : wordsBy p (c :: t) = wordsBy p t := by
  cases t <;> simp [wordsBy, h]

theorem wordsBy_append_of_all (h : ∀ c ∈ s, p c = true) (t : Text) :
    wordsBy p (s ++ t) = wordsBy p t := by
  induction s with
  | nil => rfl
  | cons c s ih =>
    rw [List.forall_mem_cons] at h
    rw [List.cons_append, wordsBy_cons_of_blank h.1, ih h.2]

theorem wordsBy_cons_ne_nil (h : ¬p c = true) (t : Text) : wordsBy p (c :: t) ≠ [] := by
  cases t with
  | nil => simp [wordsBy, h]
  | cons d t =>
    rw [wordsBy, if_neg h]
    split
    · exact List.cons_ne_nil _ _
    · split <;> exact List.cons_ne_nil _ _

/-- A blank keeps the words in front of it and behind it apart. -/
theorem wordsBy_append_cons (h : p c = true) (s t : Text) :
    wordsBy p (s ++ c :: t) = wordsBy p s ++ wordsBy p t := by
  fun_induction wordsBy p s with
  | case1 => exact wordsBy_cons_of_blank h t
  | case2 d s hd ih => rw [List.cons_append, wordsBy_cons_of_blank hd, ih]
  | case3 d hd => simp [wordsBy, hd, h]
  | case4 d hd b s hb ih => simp_all [wordsBy]
  | case5 d hd b s hb hnil ih => exact absurd hnil (wordsBy_cons_ne_nil hb s)
  | case6 d hd b s hb first words hwords ih => simp_all [wordsBy]

theorem wordsBy_append_of_all_right (s : Text) (h : ∀ c ∈ t, p c = true) :
    wordsBy p (s ++ t) = wordsBy p s := by
  cases t with
  | nil => rw [List.append_nil]
  | cons c t =>
    rw [List.forall_mem_cons] at h
    have hnil := wordsBy_append_of_all h.2 []
    rw [List.append_nil] at hnil
    rw [wordsBy_append_cons h.1, hnil, wordsBy, List.append_nil]

/-- Blanks around a text are in no word, also if there are more blanks than those. -/
theorem wordsBy_trim {q : Char → Bool} (h : ∀ c, q c = true → p c = true) (t : Text) :
    wordsBy p (trim q t) = wordsBy p t := by
  obtain ⟨front, back, ht, hfront, hback⟩ := exists_eq_append_trim q t
  conv => rhs; rw [ht, wordsBy_append_of_all fun c hc => h c (hfront c hc)]
  exact (wordsBy_append_of_all_right _ fun c hc => h c (hback c hc)).symm

theorem wordsBy_joinWith (h : p c = true) (parts : List Text) :
    wordsBy p (joinWith [c] parts) = parts.flatMap (wordsBy p) := by
  induction parts with
  | nil => rfl
  | cons part parts ih =>
    cases parts with
    | nil => rw [joinWith_singleton, List.flatMap_singleton]
    | cons next parts =>
      rw [joinWith_cons_cons, List.append_assoc, List.singleton_append, wordsBy_append_cons h, ih]
      rfl

end Text

end PrettyPayload
