import PrettyPayload.Text.Basic

/-!
# Splitting

The places of a text, and its parts between the occurrences of a character, for texts that are put
together at such an occurrence.
-/

namespace PrettyPayload

namespace Text

variable {d c : Char} {s t part : Text}

/-- Something holds at every place of a text if it does at each index. -/
theorem forall_split_iff {p : Text → Char → Text → Prop} :
    (∀ front c back, t = front ++ c :: back → p front c back) ↔
      ∀ i : Fin t.length, p (t.take i) t[i] (t.drop (i + 1)) := by
  constructor
  · exact fun h i => h (t.take i) t[i] (t.drop (i + 1)) (by simp)
  · rintro h front c back rfl
    simpa using h ⟨front.length, by simp⟩

/-- Whether something holds at every place of a text is found out by going over the places. -/
instance decidableForallSplit {p : Text → Char → Text → Prop}
    [∀ front c back, Decidable (p front c back)] :
    Decidable (∀ front c back, t = front ++ c :: back → p front c back) :=
  decidable_of_iff' _ forall_split_iff

theorem forall_split_cons {p : Text → Char → Text → Prop} :
    (∀ front d back, c :: t = front ++ d :: back → p front d back) ↔
      p [] c t ∧ ∀ front d back, t = front ++ d :: back → p (c :: front) d back := by
  constructor
  · intro h
    refine ⟨h [] c t rfl, ?_⟩
    rintro front d back rfl
    exact h (c :: front) d back rfl
  · rintro ⟨hc, ht⟩ front d back heq
    cases front with
    | nil =>
      obtain ⟨rfl, rfl⟩ := List.cons.inj heq
      exact hc
    | cons e front =>
      obtain ⟨rfl, rfl⟩ := List.cons.inj heq
      exact ht front d back rfl

theorem splitOn_of_not_mem (h : d ∉ t) : splitOn d t = [t] := by
  induction t with
  | nil => rfl
  | cons c t ih =>
    rw [List.mem_cons, not_or] at h
    rw [splitOn, if_neg (Ne.symm h.1), ih h.2]

theorem splitOn_append_cons (d : Char) (s t : Text) :
    splitOn d (s ++ d :: t) = splitOn d s ++ splitOn d t := by
  induction s with
  | nil => simp [splitOn]
  | cons c s ih =>
    rw [List.cons_append, splitOn, ih, splitOn]
    split
    next => rfl
    next =>
      cases hs : splitOn d s with
      | nil => exact absurd hs (splitOn_ne_nil d s)
      | cons part parts => rfl

theorem mem_of_mem_splitOn (hpart : part ∈ splitOn d t) (hc : c ∈ part) : c ∈ t ∧ c ≠ d := by
  induction t generalizing part with
  | nil =>
    obtain rfl := List.mem_singleton.1 hpart
    cases hc
  | cons b t ih =>
    rw [splitOn] at hpart
    split at hpart
    next =>
      rcases List.mem_cons.1 hpart with rfl | hpart
      · cases hc
      · exact ⟨List.mem_cons_of_mem b (ih hpart hc).1, (ih hpart hc).2⟩
    next hb =>
      split at hpart
      next hnil => exact absurd hnil (splitOn_ne_nil d t)
      next first parts hsplit =>
        rcases List.mem_cons.1 hpart with rfl | hpart
        · rcases List.mem_cons.1 hc with rfl | hc
          · exact ⟨List.mem_cons_self, hb⟩
          · obtain ⟨hmem, hne⟩ := ih (hsplit ▸ List.mem_cons_self) hc
            exact ⟨List.mem_cons_of_mem b hmem, hne⟩
        · obtain ⟨hmem, hne⟩ := ih (hsplit ▸ List.mem_cons_of_mem first hpart) hc
          exact ⟨List.mem_cons_of_mem b hmem, hne⟩

theorem exists_mem_splitOn (hc : c ∈ t) (hne : c ≠ d) : ∃ part ∈ splitOn d t, c ∈ part := by
  induction t with
  | nil => cases hc
  | cons b t ih =>
    rw [splitOn]
    split
    next hb =>
      rcases List.mem_cons.1 hc with rfl | hc
      · exact absurd hb hne
      · obtain ⟨part, hpart, hmem⟩ := ih hc
        exact ⟨part, List.mem_cons_of_mem _ hpart, hmem⟩
    next =>
      cases hsplit : splitOn d t with
      | nil => exact absurd hsplit (splitOn_ne_nil d t)
      | cons first parts =>
        rcases List.mem_cons.1 hc with rfl | hc
        · exact ⟨c :: first, List.mem_cons_self, List.mem_cons_self⟩
        · obtain ⟨part, hpart, hmem⟩ := ih hc
          rw [hsplit] at hpart
          rcases List.mem_cons.1 hpart with rfl | hpart
          · exact ⟨b :: part, List.mem_cons_self, List.mem_cons_of_mem b hmem⟩
          · exact ⟨part, List.mem_cons_of_mem _ hpart, hmem⟩

end Text

end PrettyPayload
