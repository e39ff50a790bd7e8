import PrettyPayload.Proofs.Css.Quotes

/-!
# Collapsed texts

`collapse` goes through a text once, with the literal it is in and whether a space was written last,
and cuts off the white space at both ends when it is through. A second run is in step with the first
at every character, since behind a copy the scan stands where it stands behind the text
(`Spot.after_collapseFrom`). So nothing is left for it to do, closed literals stay where they are,
and the final cut reaches into a literal only if that literal is open at the end of the text.
-/

namespace PrettyPayload

namespace Css

variable {s t front literal back : Text} {c : Char} {k : Spot}

/-! ## Literals -/

/-- A literal that is closed, from its opening quote on, in a text behind `front`: the collapsing of
white space is inside a literal from that quote up to the last character, and no longer. -/
structure ClosedLiteral (front literal : Text) : Prop where
  outside : ¬CollapseInside front
  opens : literal.head?.any isQuote = true
  inside : ∀ s c u, literal = s ++ c :: u → s ≠ [] → CollapseInside (front ++ s)
  closed : ¬CollapseInside (front ++ literal)

instance (t : Text) : Decidable (CollapseInside t) :=
  match h : (Spot.between false).after t with
  | .inside quote escaped => isTrue ⟨quote, escaped, h⟩
  | .between _ => isFalse (by rintro ⟨quote, escaped, hinside⟩; rw [h] at hinside; cases hinside)

instance (front literal : Text) : Decidable (ClosedLiteral front literal) :=
  decidable_of_iff (¬CollapseInside front ∧ literal.head?.any isQuote = true ∧
      (∀ s c u, literal = s ++ c :: u → s ≠ [] → CollapseInside (front ++ s)) ∧
      ¬CollapseInside (front ++ literal))
    ⟨fun ⟨outside, opens, inside, closed⟩ => ⟨outside, opens, inside, closed⟩,
      fun h => ⟨h.outside, h.opens, h.inside, h.closed⟩⟩

theorem ClosedLiteral.exists_cons (h : ClosedLiteral front literal) :
    ∃ quote body, literal = quote :: body ∧ isQuote quote = true := by
  have hopens := h.opens
  cases literal with
  | nil => cases hopens
  | cons quote body => exact ⟨quote, body, rfl, hopens⟩

theorem not_collapseInside_iff :
    ¬CollapseInside t ↔ ∃ spaced, (Spot.between false).after t = .between spaced := by
  rw [CollapseInside]
  cases (Spot.between false).after t <;> simp

/-- A scan is in a literal behind the quote that opens it, or it was in the literal before. -/
theorem Spot.eq_of_step_eq_inside {quote : Char} {escaped : Bool}
    (h : k.step c = .inside quote escaped) :
    (c = quote ∧ isQuote quote = true) ∨ ∃ escaped', k = .inside quote escaped' := by
  unfold Spot.step at h
  split at h
  · split at h
    next hquote =>
      cases h
      exact Or.inl ⟨rfl, hquote⟩
    next => cases h
  · cases h
    exact Or.inr ⟨true, rfl⟩
  · split at h
    · cases h
      exact Or.inr ⟨false, rfl⟩
    · split at h
      · cases h
      · cases h
        exact Or.inr ⟨false, rfl⟩

theorem Spot.eq_of_step_eq_between {quote : Char} {escaped spaced : Bool}
    (h : (Spot.inside quote escaped).step c = .between spaced) : c = quote ∧ spaced = false := by
  cases escaped with
  | true => cases h
  | false =>
    rw [Spot.step] at h
    split at h
    · cases h
    · split at h
      next hc =>
        cases h
        exact ⟨hc, rfl⟩
      next => cases h

/-- A scan that starts between literals is in none but that a quote has opened. -/
theorem isQuote_of_after_eq_inside {spaced escaped : Bool} {quote : Char}
    (h : (Spot.between spaced).after t = .inside quote escaped) : isQuote quote = true := by
  induction t using List.reverseRecOn generalizing escaped with
  | nil => cases h
  | append_singleton t c ih =>
    rw [Spot.after_concat] at h
    rcases Spot.eq_of_step_eq_inside h with ⟨rfl, hquote⟩ | ⟨escaped', hinside⟩
    · exact hquote
    · exact ih hinside

/-- Whether a space was written last does not matter to the literals that follow. -/
theorem collapseInside_of_between (spaced : Bool) :
    CollapseInside t ↔ ∃ q e, (Spot.between spaced).after t = .inside q e := by
  rw [CollapseInside]
  cases t with
  | nil => simp
  | cons c t => rfl

/-- White space in front of a text does not matter to its literals. -/
theorem collapseInside_append_of_blanks (h : ∀ c ∈ s, Text.isBlank c = true) (t : Text) :
    CollapseInside (s ++ t) ↔ CollapseInside t := by
  obtain ⟨spaced, hafter⟩ := exists_after_of_blank h false
  rw [CollapseInside, Spot.after_append, hafter]
  exact (collapseInside_of_between spaced).symm

/-! ## Copies -/

/-- Behind the copy of a character the scan stands where it stands behind the character. -/
theorem Spot.after_emit (k : Spot) (c : Char) : k.after (k.emit c) = k.step c := by
  cases k with
  | inside q e => rfl
  | between spaced =>
    rw [Spot.emit]
    split
    · rfl
    next hquote =>
      split
      next hblank =>
        have hstep : (Spot.between spaced).step c = .between true := by
          rw [Spot.step, if_neg hquote, hblank]
        rw [hstep]
        cases spaced <;> rfl
      · rfl

theorem Spot.after_collapseFrom (k : Spot) (t : Text) : k.after (collapseFrom k t) = k.after t := by
  induction t generalizing k with
  | nil => rfl
  | cons c t ih => rw [collapseFrom, Spot.after_append, Spot.after_emit, ih, Spot.after_cons]

theorem ClosedLiteral.collapseFrom_eq (h : ClosedLiteral front literal) :
    collapseFrom ((Spot.between false).after front) literal = literal := by
  have hcopy : ∀ u s, literal = s ++ u → s ≠ [] →
      collapseFrom ((Spot.between false).after (front ++ s)) u = u := by
    intro u
    induction u with
    | nil => exact fun _ _ _ => rfl
    | cons c u ih =>
      intro s hs hne
      obtain ⟨q, e, hinside⟩ := h.inside s c u hs hne
      have htail := ih (s ++ [c]) (by simp [hs]) (by simp)
      rw [← List.append_assoc, Spot.after_concat] at htail
      rw [collapseFrom, htail, hinside]
      rfl
  obtain ⟨quote, body, hliteral, hquote⟩ := h.exists_cons
  obtain ⟨spaced, hbetween⟩ := not_collapseInside_iff.1 h.outside
  have hbody := hcopy body [quote] hliteral (List.cons_ne_nil _ _)
  rw [Spot.after_concat] at hbody
  rw [hliteral, collapseFrom, hbody, hbetween, Spot.emit, if_pos hquote, List.singleton_append]

theorem ClosedLiteral.getLast?_isBlank (h : ClosedLiteral front literal)
    (hc : literal.getLast? = some c) : Text.isBlank c = false := by
  obtain ⟨s, hs⟩ := List.getLast?_eq_some_iff.1 hc
  obtain ⟨quote, body, hliteral, hquote⟩ := h.exists_cons
  have hblank := not_isBlank_of_isQuote hquote
  by_cases hnil : s = []
  · rw [hnil, List.nil_append, hliteral] at hs
    obtain ⟨rfl, -⟩ := List.cons.inj hs
    exact hblank
  · obtain ⟨q, e, hinside⟩ := h.inside s c [] hs hnil
    obtain ⟨spaced, hbetween⟩ := not_collapseInside_iff.1 h.closed
    rw [hs, ← List.append_assoc, Spot.after_concat, hinside] at hbetween
    obtain ⟨rfl, -⟩ := Spot.eq_of_step_eq_between hbetween
    exact not_isBlank_of_isQuote (isQuote_of_after_eq_inside hinside)

/-- The white space that is cut off in front of a copy does not matter to its literals. -/
theorem collapseInside_copy_append (front s : Text) :
    CollapseInside (Text.trimStart Text.isBlank (collapseFrom (.between false) front) ++ s) ↔
      CollapseInside (front ++ s) := by
  obtain ⟨blanks, hcopy, hblanks⟩ :=
    Text.exists_eq_append_trimStart Text.isBlank (collapseFrom (.between false) front)
  rw [← collapseInside_append_of_blanks hblanks, ← List.append_assoc, ← hcopy, CollapseInside,
    Spot.after_append, Spot.after_collapseFrom, ← Spot.after_append, CollapseInside]

theorem collapseInside_copy (front : Text) :
    CollapseInside (Text.trimStart Text.isBlank (collapseFrom (.between false) front)) ↔
      CollapseInside front := by
  have hcopy := collapseInside_copy_append front []
  rwa [List.append_nil, List.append_nil] at hcopy

/-- A closed literal is found again in the collapsed text, between what is left of the text in front
of it and of the text behind it. -/
theorem ClosedLiteral.exists_collapse (h : ClosedLiteral front literal) (back : Text) :
    ∃ front' back', collapse (front ++ (literal ++ back)) = front' ++ (literal ++ back') ∧
      ClosedLiteral front' literal ∧ Text.withoutBlanks front' = Text.withoutBlanks front ∧
      Text.withoutBlanks back' = Text.withoutBlanks back := by
  obtain ⟨quote, body, hliteral, hquote⟩ := h.exists_cons
  have hne : literal ≠ [] := hliteral ▸ List.cons_ne_nil _ _
  have hhead : ∀ c, literal.head? = some c → Text.isBlank c = false := by
    intro c hc
    rw [hliteral] at hc
    exact Option.some.inj hc ▸ not_isBlank_of_isQuote hquote
  have hcopy : collapseFrom (.between false) (front ++ (literal ++ back)) =
      collapseFrom (.between false) front ++
        (literal ++ collapseFrom ((Spot.between false).after (front ++ literal)) back) := by
    rw [collapseFrom_append, collapseFrom_append, h.collapseFrom_eq, Spot.after_append]
  refine ⟨_, _, (congrArg (Text.trim Text.isBlank) hcopy).trans
    (Text.trim_append_append hne hhead (fun _ => h.getLast?_isBlank) _ _), ?_, ?_, ?_⟩
  · exact ⟨mt (collapseInside_copy front).1 h.outside, h.opens,
      fun s c u hs hne => (collapseInside_copy_append front s).2 (h.inside s c u hs hne),
      mt (collapseInside_copy_append front literal).1 h.closed⟩
  · rw [Text.withoutBlanks_trimStart, withoutBlanks_collapseFrom]
  · rw [Text.withoutBlanks_trimEnd, withoutBlanks_collapseFrom]

/-! ## White space outside literals -/

/-- Where no space was written last, there is none. -/
theorem isBlank_of_after_concat (h : (Spot.between false).after (s ++ [c]) = .between false) :
    Text.isBlank c = false := by
  rw [Spot.after_concat] at h
  cases hk : (Spot.between false).after s with
  | between spaced =>
    rw [hk, Spot.step] at h
    split at h
    · cases h
    · exact (Spot.between.inj h)
  | inside quote escaped =>
    rw [hk] at h
    obtain ⟨rfl, -⟩ := Spot.eq_of_step_eq_between h
    exact not_isBlank_of_isQuote (isQuote_of_after_eq_inside hk)

/-- A blank outside literals of a collapsed text is a space between characters that are not
blank. -/
theorem eq_space_of_collapse {u : Text} (h : collapse t = front ++ c :: u)
    (hc : Text.isBlank c = true) (hout : ¬CollapseInside front) :
    c = ' ' ∧ (∃ a, front.getLast? = some a ∧ Text.isBlank a = false) ∧
      ∃ b, u.head? = some b ∧ Text.isBlank b = false := by
  have hstable := h ▸ stable_collapse t
  have htrim := h ▸ trim_collapse t
  obtain ⟨spaced, hafter⟩ := not_collapseInside_iff.1 hout
  have hquote := Bool.eq_false_iff.1 (not_isQuote_of_isBlank hc)
  have hstep : (Spot.between spaced).step c = .between true := by
    rw [Spot.step, if_neg hquote, hc]
  have hcopy : collapseFrom (.between spaced) (c :: u) = c :: u := hafter ▸ hstable.parts.2
  have hspaced : spaced = false := by
    cases spaced with
    | false => rfl
    | true => exact absurd hc (Bool.eq_false_iff.1 (head?_of_spaced hcopy rfl))
  rw [hspaced] at hcopy hafter
  rw [collapseFrom, ← hspaced, hstep, hspaced, Spot.emit, if_neg hquote, if_pos hc,
    if_neg Bool.false_ne_true, List.singleton_append] at hcopy
  obtain ⟨rfl, hu⟩ := List.cons.inj hcopy
  refine ⟨rfl, ?_, ?_⟩
  · rcases List.eq_nil_or_concat front with rfl | ⟨front, a, rfl⟩
    · have hhead : Text.isBlank ' ' = false :=
        Text.head?_trim (p := Text.isBlank) (t := [] ++ ' ' :: u) (by rw [htrim]; rfl)
      exact absurd hc (Bool.eq_false_iff.1 hhead)
    · rw [List.concat_eq_append] at hafter ⊢
      exact ⟨a, List.getLast?_concat, isBlank_of_after_concat hafter⟩
  · cases u with
    | nil =>
      have hlast : Text.isBlank ' ' = false :=
        Text.getLast?_trimEnd (p := Text.isBlank)
          (t := Text.trimStart Text.isBlank (front ++ [' ']))
          (by rw [← Text.trim, htrim]; exact List.getLast?_concat)
      exact absurd hc (Bool.eq_false_iff.1 hlast)
    | cons b u => exact ⟨b, rfl, head?_of_spaced hu rfl⟩

/-- Collapsing is done after one run. It changes nothing but white space: every closed literal stays
where it is between the other characters, and outside literals all that is left of white space is
single spaces between characters that are not blank. -/
theorem collapse_whitespace_only (t : Text) :
    collapse (collapse t) = collapse t ∧
      Text.withoutBlanks (collapse t) = Text.withoutBlanks t ∧
      (∀ front literal back, t = front ++ (literal ++ back) → ClosedLiteral front literal →
        ∃ front' back', collapse t = front' ++ (literal ++ back') ∧ ClosedLiteral front' literal ∧
          Text.withoutBlanks front' = Text.withoutBlanks front ∧
          Text.withoutBlanks back' = Text.withoutBlanks back) ∧
      ∀ front c back, collapse t = front ++ c :: back → Text.isBlank c = true →
        ¬CollapseInside front →
        c = ' ' ∧ (∃ a, front.getLast? = some a ∧ Text.isBlank a = false) ∧
          ∃ b, back.head? = some b ∧ Text.isBlank b = false := by
  refine ⟨(stable_collapse t).collapse_eq (trim_collapse t), withoutBlanks_collapse t, ?_, ?_⟩
  · rintro front literal back rfl hliteral
    exact hliteral.exists_collapse back
  · exact fun front c back h hc hout => eq_space_of_collapse h hc hout

/-- A closed literal with white space and an escaped quote in it, and one that is left open. -/
def openEnd : Text := " a\t\n 'b  \\' c' \x0cd \"e  \\ ".toList

/-- In the sample the closed literal is copied, and the final cut reaches into the open one. -/
theorem collapse_whitespace_only_openEnd :
    collapse openEnd = "a 'b  \\' c' d \"e  \\".toList ∧
      collapse "a 'b  \\' c' d \"e  \\".toList = "a 'b  \\' c' d \"e  \\".toList ∧
      ClosedLiteral " a\t\n ".toList "'b  \\' c'".toList ∧
      (∃ front' back', collapse openEnd = front' ++ ("'b  \\' c'".toList ++ back') ∧
        Text.withoutBlanks front' = ['a'] ∧ Text.withoutBlanks back' = "d\"e\\".toList) ∧
      ¬CollapseInside ['a'] ∧
      ∃ b, "'b  \\' c' d \"e  \\".toList.head? = some b ∧ Text.isBlank b = false := by
  obtain ⟨hagain, -, hliterals, hblanks⟩ := collapse_whitespace_only openEnd
  have hcollapse : collapse openEnd = "a 'b  \\' c' d \"e  \\".toList := by decide +kernel
  have hclosed : ClosedLiteral " a\t\n ".toList "'b  \\' c'".toList := by decide +kernel
  obtain ⟨front', back', hplace, -, hfront, hback⟩ :=
    hliterals " a\t\n ".toList "'b  \\' c'".toList " \x0cd \"e  \\ ".toList rfl hclosed
  rw [hcollapse] at hagain
  exact ⟨hcollapse, hagain, hclosed, ⟨front', back', hplace, hfront.trans (by decide +kernel),
    hback.trans (by decide +kernel)⟩, by decide, (hblanks ['a'] ' ' _ hcollapse (by decide)
    (by decide)).2.2⟩

end Css

end PrettyPayload
