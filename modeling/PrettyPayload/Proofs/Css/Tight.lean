import Mathlib.Data.List.Basic
import PrettyPayload.Css.Printer
import PrettyPayload.Proofs.Css.Passage
import PrettyPayload.Proofs.Text.Join

/-!
# Tight texts

A text is `Closed` if each scan of a stylesheet leaves it in the state in which it entered: its
comments are gone and its literals end, what it opens it closes, braces included, and it ends in no
backslash that would hide what follows. Where braces mean nothing it is enough that a text is
`Neutral`. In a `Sealed` text no separator counts either, so that it can stand before one, and a
`Tight` text has its white space collapsed, so that it is read as it stands. Backslashes and nested
braces may occur in it; clean texts are tight.
-/

namespace PrettyPayload

namespace Css

variable {stops : Char → Bool} {c : Char} {s t rest : Text}

/-! ## Definitions -/

/-- A text that every scan of a stylesheet goes over without a trace. -/
structure Closed (t : Text) : Prop where
  copied : stripComments t = .ok t
  nesting : Nesting.start.after t = Nesting.start
  blocks : closeBlock Quoting.start 0 (t ++ ['}']) = some (t, [])

instance (t : Text) : Decidable (Closed t) :=
  decidable_of_iff (stripComments t = .ok t ∧ Nesting.start.after t = Nesting.start ∧
      closeBlock Quoting.start 0 (t ++ ['}']) = some (t, []))
    ⟨fun ⟨copied, nesting, blocks⟩ => ⟨copied, nesting, blocks⟩,
      fun h => ⟨h.copied, h.nesting, h.blocks⟩⟩

/-- A closed text but for its braces, which mean nothing in a list of declarations. -/
structure Contained (t : Text) : Prop where
  copied : stripComments t = .ok t
  nesting : Nesting.start.after t = Nesting.start

instance (t : Text) : Decidable (Contained t) :=
  decidable_of_iff (stripComments t = .ok t ∧ Nesting.start.after t = Nesting.start)
    ⟨fun ⟨copied, nesting⟩ => ⟨copied, nesting⟩, fun h => ⟨h.copied, h.nesting⟩⟩

/-- A text without comments that closes the literals, parentheses and brackets that it opens. -/
structure Neutral (t : Text) : Prop where
  uncommented : Uncommented t
  nesting : Nesting.start.after t = Nesting.start

/-- A neutral text that closes the braces that it opens. -/
structure Inert (t : Text) : Prop extends Neutral t where
  blocks : blockAfter? Quoting.start 0 t = some (Quoting.start, 0)

/-- A neutral text without separators that count. Where braces separate, it closes those that it
opens, too. -/
structure Sealed (stops : Char → Bool) (t : Text) : Prop extends Neutral t where
  uncut : breakAt stops Nesting.start t = none
  blocks : stops '}' = true → blockAfter? Quoting.start 0 t = some (Quoting.start, 0)

/-- A sealed text whose white space is collapsed. -/
structure Tight (stops : Char → Bool) (t : Text) : Prop extends Sealed stops t where
  collapsed : collapse t = t

/-! ## Neutral texts -/

namespace Neutral

theorem nil : Neutral [] := ⟨.nil, rfl⟩

theorem append (hs : Neutral s) (ht : Neutral t)
    (hjoin : s.getLast? = some '/' → t.head? ≠ some '*') : Neutral (s ++ t) where
  uncommented := hs.uncommented.append ht.uncommented hjoin
  nesting := by rw [Nesting.after_append, hs.nesting, ht.nesting]

end Neutral

theorem Contained.neutral (h : Contained t) : Neutral t :=
  ⟨uncommented_of_stripComments h.copied, h.nesting⟩

/-! ## Inert texts -/

theorem Closed.inert (h : Closed t) : Inert t where
  uncommented := uncommented_of_stripComments h.copied
  nesting := h.nesting
  blocks := blockAfter?_of_closeBlock h.blocks

theorem Neutral.isSealed (h : Neutral t) (hblocks : stops '}' = true → Inert t)
    (huncut : breakAt stops Nesting.start t = none) : Sealed stops t :=
  { h with uncut := huncut, blocks := fun hstop => (hblocks hstop).blocks }

namespace Inert

theorem nil : Inert [] := { Neutral.nil with blocks := rfl }

theorem append (hs : Inert s) (ht : Inert t) (hjoin : s.getLast? = some '/' → t.head? ≠ some '*') :
    Inert (s ++ t) where
  toNeutral := hs.toNeutral.append ht.toNeutral hjoin
  blocks := by rw [blockAfter?_append hs.blocks, ht.blocks]

/-- A character that means nothing to a scan. -/
theorem singleton (hc : c ∉ ['\\', '{', '}', '"', '\'', '(', ')', '[', ']']) : Inert [c] := by
  simp only [List.mem_cons, List.not_mem_nil, or_false, not_or] at hc
  obtain ⟨hslash, hopen, hclose, hdouble, hsingle, hp, hp', hb, hb'⟩ := hc
  have hquote : isQuote c = false := by simp [isQuote, hdouble, hsingle]
  have hquoting : Quoting.start.step c = Quoting.start := by
    simp [Quoting.step, Quoting.start, hslash, hquote]
  refine ⟨⟨.cons c [] hquote (fun _ hstar => by cases hstar) .nil, ?_⟩, ?_⟩
  · rw [Nesting.after_cons, Nesting.after_nil]
    unfold Nesting.step
    simp only [Nesting.start, hquoting, show Quoting.start.isPlain = true from rfl, if_true]
  · simp [blockAfter?, depthAfter?, hopen, hclose, hquoting]

theorem block (h : Inert t) : Inert ('{' :: t ++ ['}']) where
  uncommented := by
    have hclose : Uncommented ['}'] :=
      .cons '}' [] (by decide) (fun h => absurd h (by decide)) .nil
    exact .cons '{' _ (by decide) (fun h => absurd h (by decide))
      (h.uncommented.append hclose fun _ => by decide)
  nesting := by
    have hopen : Nesting.start.step '{' = Nesting.start := by decide
    rw [List.cons_append, Nesting.after_cons, hopen, Nesting.after_append, h.nesting]
    decide
  blocks := by
    have hopen : depthAfter? Quoting.start 0 '{' = some 1 ∧
        Quoting.start.step '{' = Quoting.start := by decide
    have hbody := blockAfter?_add h.blocks 1
    rw [Nat.zero_add] at hbody
    rw [List.cons_append, blockAfter?, hopen.1, Option.bind_some, hopen.2,
      blockAfter?_append hbody]
    decide

theorem closeBlock_append (h : Inert t) (depth : Nat) (rest : Text) :
    closeBlock Quoting.start depth (t ++ rest) =
      (closeBlock Quoting.start depth rest).map fun (body, rest) => (t ++ body, rest) := by
  have hblocks := blockAfter?_add h.blocks depth
  rw [Nat.zero_add] at hblocks
  exact Css.closeBlock_append hblocks rest

theorem isSealed (h : Inert t) (huncut : breakAt stops Nesting.start t = none) : Sealed stops t :=
  h.toNeutral.isSealed (fun _ => h) huncut

end Inert

/-! ## Sealed texts -/

namespace Sealed

theorem nil : Sealed stops [] := Inert.nil.isSealed rfl

theorem append (hs : Sealed stops s) (ht : Sealed stops t)
    (hjoin : s.getLast? = some '/' → t.head? ≠ some '*') : Sealed stops (s ++ t) where
  toNeutral := hs.toNeutral.append ht.toNeutral hjoin
  uncut := breakAt_append_eq_none_iff.2 ⟨hs.uncut, by rw [hs.nesting]; exact ht.uncut⟩
  blocks := fun hstop => by rw [blockAfter?_append (hs.blocks hstop), ht.blocks hstop]

theorem singleton (hc : c ∉ ['\\', '{', '}', '"', '\'', '(', ')', '[', ']'])
    (hstop : stops c = false) : Sealed stops [c] :=
  (Inert.singleton hc).isSealed
    (breakAt_cons_eq_none_iff.2 ⟨by rw [hstop, Bool.and_false], rfl⟩)

theorem mono {stops' : Char → Bool} (hs : ∀ c, stops' c = true → stops c = true)
    (h : Sealed stops t) : Sealed stops' t :=
  { h with uncut := breakAt_mono hs h.uncut, blocks := fun hstop => h.blocks (hs _ hstop) }

theorem inert (h : Sealed stops t) (hstop : stops '}' = true) : Inert t :=
  { h with blocks := h.blocks hstop }

theorem breakAt_eq (h : Sealed stops t) (hc : stops c = true) (rest : Text) :
    breakAt stops Nesting.start (t ++ c :: rest) = some (t, c, rest) :=
  breakAt_append_cons h.uncut (by rw [h.nesting]; rfl) hc rest

end Sealed

/-! ## Tight texts -/

namespace Tight

theorem mono {stops' : Char → Bool} (hs : ∀ c, stops' c = true → stops c = true)
    (h : Tight stops t) : Tight stops' t :=
  { h.toSealed.mono hs with collapsed := h.collapsed }

theorem stable (h : Tight stops t) : Stable t := h.collapsed ▸ stable_collapse t

theorem trim_eq (h : Tight stops t) : Text.trim Text.isBlank t = t := by
  have htrim := trim_collapse t
  rwa [h.collapsed] at htrim

theorem head?_isBlank (h : Tight stops t) (hc : t.head? = some c) : Text.isBlank c = false :=
  Text.head?_trim (h.trim_eq ▸ hc)

theorem getLast?_isBlank (h : Tight stops t) (hc : t.getLast? = some c) :
    Text.isBlank c = false :=
  Text.getLast?_trimEnd (h.trim_eq ▸ hc)

theorem of_sealed (h : Sealed stops t) (hstable : Stable t)
    (htrim : Text.trim Text.isBlank t = t) : Tight stops t :=
  { h with collapsed := hstable.collapse_eq htrim }

theorem after_eq (h : Tight stops t) (hne : t ≠ []) (spaced : Bool) :
    (Spot.between spaced).after t = .between false :=
  h.uncommented.after_eq hne (fun _ => h.getLast?_isBlank) spaced

theorem collapseFrom_eq (h : Tight stops t) (spaced : Bool) :
    collapseFrom (.between spaced) t = t :=
  (collapseFrom_between (fun _ => h.head?_isBlank) spaced false).trans h.stable

theorem collapse_cons_space (h : Tight stops t) : collapse (' ' :: t) = t := by
  have hcopy : collapseFrom (.between false) (' ' :: t) = [' '] ++ t :=
    congrArg (' ' :: ·) (h.collapseFrom_eq true)
  have hblank : ∀ c ∈ [' '], Text.isBlank c = true := Text.forall_mem_of_all (by decide)
  rw [collapse, hcopy, Text.trim_append_of_all hblank, h.trim_eq]

theorem collapse_concat_space (h : Tight stops t) : collapse (t ++ [' ']) = t := by
  by_cases hne : t = []
  · rw [hne]
    decide
  · have hcopy : collapseFrom (.between false) (t ++ [' ']) = t ++ [' '] := by
      rw [collapseFrom_append, h.collapseFrom_eq, h.after_eq hne]
      rfl
    have hblank : ∀ c ∈ [' '], Text.isBlank c = true := Text.forall_mem_of_all (by decide)
    have hstart : Text.trimStart Text.isBlank (t ++ [' ']) = t ++ [' '] := by
      refine Text.trimStart_eq_self fun c hc => h.head?_isBlank ?_
      rwa [List.head?_append_of_ne_nil t hne] at hc
    rw [collapse, hcopy, Text.trim, hstart, Text.trimEnd_append_of_all hblank]
    exact Text.trimEnd_eq_self fun _ => h.getLast?_isBlank

/-- What may stand between two tight texts: a space, with a comma before it or not. -/
theorem append {gap : Text} (hgap : gap = [' '] ∨ gap = [',', ' '])
    (hstops : ∀ c ∈ gap, stops c = false) (hs : Tight stops s) (hs' : s ≠ [])
    (ht : Tight stops t) (ht' : t ≠ []) : Tight stops (s ++ (gap ++ t)) := by
  have hsealed : Sealed stops gap := by
    rcases hgap with rfl | rfl
    · exact .singleton (by decide) (hstops _ (by decide))
    · exact Sealed.append (.singleton (by decide) (hstops ',' (by decide)))
        (.singleton (by decide) (hstops ' ' (by decide))) nofun
  have hstable : Stable gap ∧ (Spot.between false).after gap = .between true ∧
      gap.getLast? ≠ some '/' ∧ gap.head? ≠ some '*' ∧ gap ≠ [] := by
    rcases hgap with rfl | rfl <;> exact ⟨rfl, rfl, by decide, by decide, by decide⟩
  obtain ⟨hcopied, hafter, hlast, hhead, hne⟩ := hstable
  refine of_sealed (hs.toSealed.append (hsealed.append ht.toSealed fun h => absurd h hlast) ?_)
    (hs.stable.append (hs.after_eq hs' false) (hcopied.append hafter (ht.collapseFrom_eq true)))
    (Text.trim_eq_self ?_ ?_)
  · intro _
    rwa [List.head?_append_of_ne_nil gap hne]
  · intro c hc
    rw [List.head?_append_of_ne_nil s hs'] at hc
    exact hs.head?_isBlank hc
  · intro c hc
    rw [← List.append_assoc, List.getLast?_append_of_ne_nil (s ++ gap) ht'] at hc
    exact ht.getLast?_isBlank hc

end Tight

/-! ## Neat texts -/

theorem tight_of_isNeat {nested : Char → Bool}
    (hs : ∀ c, stops c = true → nested c = true ∧ c ≠ '{' ∧ c ≠ '}')
    (h : isNeat nested t = true) : Tight stops t where
  uncommented := uncommented_of_neatFrom rfl h
  nesting := after_of_neatFrom h
  uncut := breakAt_eq_none_of_neatFrom hs h
  blocks := fun hstop => absurd rfl (hs '}' hstop).2.2
  collapsed := collapse_of_isNeat h

theorem tight_of_isClean {nested : Char → Bool}
    (hs : ∀ c, stops c = true → nested c = true ∨ c = '{' ∨ c = '}')
    (h : isClean nested t = true) : Tight stops t where
  uncommented := uncommented_of_neatFrom rfl (neatFrom_of_cleanFrom h)
  nesting := after_of_neatFrom (neatFrom_of_cleanFrom h)
  uncut := breakAt_eq_none_of_isClean hs h
  blocks := by
    intro _
    refine blockAfter?_of_closeBlock ?_
    rw [closeBlock_append_of_isClean h]
    exact congrArg (fun u => some (u, [])) (List.append_nil t)
  collapsed := collapse_of_isNeat (neatFrom_of_cleanFrom h)

end Css

end PrettyPayload
