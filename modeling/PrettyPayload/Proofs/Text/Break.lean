import PrettyPayload.Text.Basic

/-!
# Breaking at a mark

`breakAt?` finds the first occurrence of a mark. It finds none where the mark is no part of the
text, and it finds one that was put behind such a text, as long as the last character of the mark
occurs only once in it.
-/

namespace PrettyPayload

namespace Text

variable {p t a r : Text} {c last : Char}

theorem startsWith_iff : startsWith p t = true ↔ p <+: t := by
  rw [startsWith, Option.isSome_iff_exists]
  constructor
  · rintro ⟨r, hr⟩
    exact ⟨r, (dropPrefix?_eq_some_iff.1 hr).symm⟩
  · rintro ⟨r, hr⟩
    exact ⟨r, dropPrefix?_eq_some_iff.2 hr.symm⟩

/-- A word without the character that ends a text is found in front of it or not at all. -/
theorem prefix_of_prefix_append_cons {rest : Text} (hc : c ∉ p) (h : p <+: t ++ c :: rest) :
    p <+: t := by
  rcases List.prefix_or_prefix_of_prefix h (List.prefix_append t (c :: rest)) with hp | ⟨v, rfl⟩
  · exact hp
  · rw [List.prefix_append_right_inj] at h
    cases v with
    | nil => exact (List.append_nil t).symm ▸ List.prefix_refl t
    | cons d v =>
      obtain ⟨rfl, -⟩ := List.cons_prefix_cons.1 h
      exact absurd (List.mem_append_right t List.mem_cons_self) hc

theorem dropPrefix?_eq_none_iff : dropPrefix? p t = none ↔ ¬p <+: t := by
  rw [← startsWith_iff, startsWith, Option.not_isSome_iff_eq_none]

/-- What stands before a mark and behind it, with the mark, is the text. -/
theorem eq_append_of_breakAt? (h : breakAt? p t = some (a, r)) : t = a ++ (p ++ r) := by
  induction t generalizing a with
  | nil =>
    rw [breakAt?] at h
    split at h
    next hp =>
      obtain ⟨rfl, rfl⟩ := Prod.mk.inj (Option.some.inj h)
      rw [hp]
      rfl
    next => cases h
  | cons c t ih =>
    rw [breakAt?] at h
    split at h
    next rest hrest =>
      obtain ⟨rfl, rfl⟩ := Prod.mk.inj (Option.some.inj h)
      rw [List.nil_append]
      exact dropPrefix?_eq_some_iff.1 hrest
    next =>
      obtain ⟨⟨b, s⟩, hb, hbs⟩ := Option.map_eq_some_iff.1 h
      obtain ⟨rfl, rfl⟩ := Prod.mk.inj hbs
      rw [ih hb, List.cons_append]

theorem breakAt?_eq_none_iff : breakAt? p t = none ↔ ¬p <:+: t := by
  induction t with
  | nil => simp [breakAt?]
  | cons c t ih =>
    rw [breakAt?, List.infix_cons_iff, not_or, ← ih, ← dropPrefix?_eq_none_iff]
    cases dropPrefix? p (c :: t) with
    | none => simp
    | some rest => simp

/-- Before the first occurrence of a mark there is none, nor one that the mark itself completes. -/
theorem not_infix_of_breakAt? (h : breakAt? p t = some (a, r)) (hp : p ≠ []) :
    ¬p <:+: a ++ p.dropLast := by
  have hlast : p.dropLast.length < p.length := by
    have := List.length_pos_iff.2 hp
    rw [List.length_dropLast]
    omega
  induction t generalizing a with
  | nil =>
    rw [breakAt?, if_neg hp] at h
    cases h
  | cons c t ih =>
    rw [breakAt?] at h
    split at h
    next rest hrest =>
      obtain ⟨rfl, -⟩ := Prod.mk.inj (Option.some.inj h)
      intro hwithin
      exact absurd hwithin.length_le (by rw [List.nil_append]; omega)
    next hnone =>
      obtain ⟨⟨b, s⟩, hb, hbs⟩ := Option.map_eq_some_iff.1 h
      obtain ⟨rfl, rfl⟩ := Prod.mk.inj hbs
      rw [List.cons_append, List.infix_cons_iff]
      rintro (hbegins | hwithin)
      · rw [eq_append_of_breakAt? hb] at hnone
        refine dropPrefix?_eq_none_iff.1 hnone (hbegins.trans ?_)
        rw [← List.cons_append, ← List.cons_append, List.prefix_append_right_inj]
        exact (List.dropLast_prefix p).trans (List.prefix_append p s)
      · exact ih hb hwithin

/-- The first occurrence of a mark is the one that was put there. -/
theorem breakAt?_append (r : Text) (h : ¬p <:+: a ++ p.dropLast) :
    breakAt? p (a ++ (p ++ r)) = some (a, r) := by
  have hp : p ≠ [] := by
    rintro rfl
    exact h List.nil_infix
  induction a with
  | nil =>
    obtain ⟨c, q, rfl⟩ := List.exists_cons_of_ne_nil hp
    have hdrop := dropPrefix?_append (c :: q) r
    rw [List.nil_append, List.cons_append] at *
    rw [breakAt?, hdrop]
  | cons c a ih =>
    rw [List.cons_append, List.infix_cons_iff, not_or] at h
    have hnone : dropPrefix? p (c :: (a ++ (p ++ r))) = none := by
      refine dropPrefix?_eq_none_iff.2 fun hbegins => h.1 ?_
      refine List.prefix_of_prefix_length_le hbegins ?_ ?_
      · rw [← List.cons_append, ← List.cons_append, List.prefix_append_right_inj]
        exact (List.dropLast_prefix p).trans (List.prefix_append p r)
      · have := List.length_pos_iff.2 hp
        rw [List.length_cons, List.length_append, List.length_dropLast]
        omega
    rw [List.cons_append, breakAt?, hnone, ih h.2]
    rfl

/-- A mark whose last character occurs nowhere else in it is found behind a text without it. -/
theorem breakAt?_append_of_not_infix (r : Text) (hp : p ≠ []) (hlast : p.getLast hp ∉ p.dropLast)
    (h : ¬p <:+: a) : breakAt? p (a ++ (p ++ r)) = some (a, r) := by
  refine breakAt?_append r ?_
  rw [List.infix_append_iff_ne_nil]
  rintro (ha | hdrop | ⟨l₁, l₂, -, hne, hl, -, hbegins⟩)
  · exact h ha
  · have hle := hdrop.length_le
    have := List.length_pos_iff.2 hp
    rw [List.length_dropLast] at hle
    omega
  · have hmem : p.getLast hp ∈ p.dropLast := by
      refine hbegins.subset ?_
      have hgetLast : p.getLast hp = l₂.getLast hne := by
        subst hl
        exact List.getLast_append_of_ne_nil _ hne
      rw [hgetLast]
      exact List.getLast_mem hne
    exact hlast hmem

/-- A mark is behind a text without its first character. -/
theorem infix_of_infix_append (hc : c ∉ a) (h : c :: p <:+: a ++ t) : c :: p <:+: t := by
  induction a with
  | nil => exact h
  | cons d a ih =>
    rw [List.mem_cons, not_or] at hc
    rw [List.cons_append, List.infix_cons_iff] at h
    rcases h with hbegins | hwithin
    · exact absurd (List.cons_prefix_cons.1 hbegins).1 hc.1
    · exact ih hc.2 hwithin

/-- A mark does not reach into a text that starts with a character it only starts with. -/
theorem infix_or_infix_of_infix_append (ht : ∀ d, t.head? = some d → d ∉ p.tail)
    (h : p <:+: a ++ t) : p <:+: a ∨ p <:+: t := by
  rw [List.infix_append_iff_ne_nil] at h
  rcases h with ha | ht' | ⟨l₁, l₂, hne₁, hne₂, rfl, -, hbegins⟩
  · exact Or.inl ha
  · exact Or.inr ht'
  · obtain ⟨d, l, rfl⟩ := List.exists_cons_of_ne_nil hne₂
    obtain ⟨b, k, rfl⟩ := List.exists_cons_of_ne_nil hne₁
    obtain ⟨u, rfl⟩ := hbegins
    exact absurd (List.mem_append_right k List.mem_cons_self) (ht d rfl)

/-- A text of characters of a class starts with one of them, whatever stands behind it. -/
theorem append_ne_cons {q : Char → Bool} {u : Text} (hne : t ≠ []) (h : ∀ c ∈ t, q c = true)
    (hc : q c = false) : t ++ r ≠ c :: u := by
  obtain ⟨d, v, rfl⟩ := List.exists_cons_of_ne_nil hne
  exact fun hu => ne_of_class (h d List.mem_cons_self) hc (List.cons.inj hu).1

theorem dropPrefix?_append_eq_none {q : Char → Bool} (hne : t ≠ []) (h : ∀ c ∈ t, q c = true)
    (hc : q c = false) (p : Text) : dropPrefix? (c :: p) (t ++ r) = none := by
  rw [dropPrefix?_eq_none_iff]
  rintro ⟨u, hu⟩
  exact append_ne_cons hne h hc hu.symm

/-- What is no character of a class ends a run of such characters. -/
theorem takeWhile_append_of_head? {q : Char → Bool} (h : ∀ c ∈ t, q c = true)
    (hr : ∀ c, r.head? = some c → q c = false) :
    (t ++ r).takeWhile q = t ∧ (t ++ r).dropWhile q = r := by
  rw [List.takeWhile_append_of_pos h, List.dropWhile_append_of_pos h]
  cases r with
  | nil => simp
  | cons c r => simp [hr c rfl]

end Text

end PrettyPayload
