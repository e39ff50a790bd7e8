import PrettyPayload.Proofs.Html.Page.Steady

/-!
# Formatting elements that nest properly

On a steady page the formatting elements of the list are open. A formatting element is entered into
the list when it is opened, and its end tag, which comes while it is the innermost open element,
takes it off again; nothing is adopted.
-/

namespace PrettyPayload

namespace Html

variable {page : Page} {root : Nat} {opened : List Opened} {o : Opened} {tag : Tag}
  {name : String}

namespace Build

def entryTag? : Formatting → Option Tag
  | .marker => none
  | .element _ tag => some tag

theorem mem_of_mem_go {entries : List (Formatting × Nat)} {entry : Nat × Nat × Tag}
    (h : entry ∈ activeEntries.go entries) :
    (Formatting.element entry.2.1 entry.2.2, entry.1) ∈ entries := by
  induction entries with
  | nil => cases h
  | cons e entries ih =>
    obtain ⟨e, i⟩ := e
    cases e with
    | marker => cases h
    | element k tag =>
      rcases List.mem_cons.1 h with rfl | h
      · exact List.mem_cons_self
      · exact List.mem_cons_of_mem _ (ih h)

theorem sublist_go (entries : List (Formatting × Nat)) :
    List.Sublist ((activeEntries.go entries).map fun e => e.2.2)
      ((entries.map Prod.fst).filterMap entryTag?) := by
  induction entries with
  | nil => exact List.Sublist.slnil
  | cons e entries ih =>
    obtain ⟨e, i⟩ := e
    cases e with
    | marker => exact List.nil_sublist _
    | element k tag => exact ih.cons_cons tag

theorem map_fst_reverse_zipIdx (entries : List Formatting) :
    entries.zipIdx.reverse.map Prod.fst = entries.reverse := by
  rw [List.map_reverse, List.zipIdx_map_fst]

end Build

namespace Steady

theorem mem_activeEntries (h : Steady page root opened) {entry : Nat × Nat × Tag}
    (hentry : entry ∈ Build.activeEntries page) :
    ∃ o ∈ opened, entry.2.1 = o.handle ∧ entry.2.2 = o.tag := by
  have hmem := List.mem_map_of_mem (f := Prod.fst) (Build.mem_of_mem_go hentry)
  rw [Build.map_fst_reverse_zipIdx, h.formatting] at hmem
  obtain ⟨o, ho, hmem⟩ := List.mem_flatMap.1 hmem
  refine ⟨o, ho, ?_⟩
  unfold Opened.entries at hmem
  split at hmem
  · obtain ⟨hhandle, htag⟩ := Formatting.element.inj (List.mem_singleton.1 hmem)
    exact ⟨hhandle, htag⟩
  · split at hmem
    · cases List.mem_singleton.1 hmem
    · exact absurd hmem List.not_mem_nil

/-- The tags of the active entries are those of open elements, innermost first. -/
theorem sublist_activeEntries (h : Steady page root opened) :
    List.Sublist ((Build.activeEntries page).map fun e => e.2.2) (opened.map Opened.tag) := by
  have hgo := Build.sublist_go page.formatting.toList.zipIdx.reverse
  rw [Build.map_fst_reverse_zipIdx, h.formatting] at hgo
  refine hgo.trans ?_
  clear h hgo
  induction opened with
  | nil => exact List.Sublist.slnil
  | cons o opened ih =>
    rw [List.flatMap_cons, List.filterMap_append, List.map_cons]
    unfold Opened.entries at ih ⊢
    split
    · exact ih.cons_cons o.tag
    · split <;> exact ih.cons o.tag

theorem length_equal_le (h : Steady page root opened) (tag : Tag) :
    ((Build.activeEntries page).filter fun e => Build.sameTag tag e.2.2).length ≤
      (pathOf opened).count tag.name := by
  have hsame : ∀ old, Build.sameTag tag old = true → old.name = tag.name := by
    intro old hold
    simp only [Build.sameTag, Bool.and_eq_true, decide_eq_true_eq] at hold
    exact hold.1.1.symm
  calc ((Build.activeEntries page).filter fun e => Build.sameTag tag e.2.2).length
      = (((Build.activeEntries page).map fun e => e.2.2).countP (Build.sameTag tag)) := by
        rw [List.countP_map, List.countP_eq_length_filter]
        rfl
    _ ≤ (opened.map Opened.tag).countP (Build.sameTag tag) := h.sublist_activeEntries.countP_le
    _ ≤ (opened.map Opened.tag).countP fun old => old.name == tag.name :=
        List.countP_mono_left fun old _ hold => by simpa using hsame old hold
    _ = (pathOf opened).count tag.name := by
        rw [List.countP_map, pathOf, List.count, List.countP_map]
        rfl

theorem insertFormatting (h : Steady page root opened) (htemplate : tag.name ≠ "template")
    (hcount : (pathOf opened).count tag.name < 3) :
    Build.insertFormatting tag page =
      ((), { entered page root opened tag with
        formatting := page.formatting.push (.element page.forest.cells.size tag) }) := by
  have hequal := Nat.lt_of_le_of_lt (h.length_equal_le tag) hcount
  rw [Build.insertFormatting, Build.run_bind, Build.run_get]
  dsimp only
  rw [if_neg (Nat.not_le_of_gt hequal), Build.run_bind, h.insertFor htemplate]
  rfl

theorem closeOuterLink (h : Steady page root opened) (hname : "a" ∉ pathOf opened) :
    Build.closeOuterLink page = ((), page) := by
  have hnone : (Build.activeEntries page).find?
      (fun entry => page.nameOf entry.2.1 = htmlName "a") = none := by
    rw [List.find?_eq_none]
    intro entry hentry hlink
    obtain ⟨o, ho, hhandle, -⟩ := h.mem_activeEntries hentry
    rw [decide_eq_true_eq, hhandle, (h.names o ho).1] at hlink
    have hlocal : o.tag.name = "a" := congrArg Name.localName hlink
    exact hname (hlocal ▸ List.mem_map_of_mem ho)
  rw [Build.closeOuterLink, Build.run_bind, Build.run_get]
  dsimp only
  rw [hnone]
  rfl

/-! ## End tags -/

theorem entries_of_isFormatting (hformatting : isFormatting o.tag.name = true) :
    o.entries = [.element o.handle o.tag] := by
  rw [Opened.entries, if_pos hformatting]

theorem formatting_eq_of_isFormatting (h : Steady page root (o :: opened))
    (hformatting : isFormatting o.tag.name = true) :
    page.formatting.toList =
      (opened.flatMap Opened.entries).reverse ++ [.element o.handle o.tag] := by
  rw [← List.reverse_reverse page.formatting.toList, h.formatting, List.flatMap_cons,
    entries_of_isFormatting hformatting]
  simp

theorem activeEntries_cons (h : Steady page root (o :: opened))
    (hformatting : isFormatting o.tag.name = true) :
    ∃ entries, Build.activeEntries page =
      (page.formatting.size - 1, o.handle, o.tag) :: entries := by
  have hlist := h.formatting_eq_of_isFormatting hformatting
  have hsize : page.formatting.size = (opened.flatMap Opened.entries).reverse.length + 1 := by
    rw [← Array.length_toList, hlist, List.length_append, List.length_singleton]
  refine ⟨Build.activeEntries.go (opened.flatMap Opened.entries).reverse.zipIdx.reverse, ?_⟩
  rw [Build.activeEntries, hlist, List.zipIdx_append, List.reverse_append, hsize]
  simp [Build.activeEntries.go]

theorem formattingIndex?_innermost (h : Steady page root (o :: opened))
    (hformatting : isFormatting o.tag.name = true) :
    (page.formattingIndex? o.handle).isNone = false := by
  have hmem : Formatting.element o.handle o.tag ∈ page.formatting := by
    rw [← Array.mem_toList_iff, h.formatting_eq_of_isFormatting hformatting]
    exact List.mem_append_right _ List.mem_cons_self
  rw [← Option.not_isSome, Page.formattingIndex?, Array.findIdx?_isSome, Bool.not_eq_false',
    Array.any_eq_true']
  exact ⟨_, hmem, by simp⟩

theorem stack_cons (h : Steady page root (o :: opened)) :
    page.stack.toList = (opened.map Opened.handle ++ [root]).reverse ++ [o.handle] := by
  rw [← List.reverse_reverse page.stack.toList, h.stack]
  simp

/-- The end tag of the innermost open element closes it and takes it off the list. -/
theorem adopt (h : Steady page root (o :: opened)) (hformatting : isFormatting o.tag.name = true)
    (hordinary : isSpecial (htmlName o.tag.name) = false) :
    Build.adopt o.tag.name page =
      ((), { left page with formatting := page.formatting.pop }) := by
  obtain ⟨entries, hentries⟩ := h.activeEntries_cons hformatting
  have hfresh : o.handle ∉ (opened.map Opened.handle ++ [root]).reverse := by
    rw [List.mem_reverse]
    exact (List.nodup_cons.1 h.distinct).1
  have hsize : page.stack.size = (opened.map Opened.handle ++ [root]).reverse.length + 1 := by
    rw [← Array.length_toList, h.stack_cons, List.length_append, List.length_singleton]
  have hindex : page.stack.toList.findIdx? (· = o.handle) = some (page.stack.size - 1) := by
    have hnone : (opened.map Opened.handle ++ [root]).reverse.findIdx?
        (fun k => decide (k = o.handle)) = none :=
      List.findIdx?_eq_none_iff.2 fun k hk =>
        decide_eq_false fun heq => hfresh (heq ▸ hk)
    rw [h.stack_cons, List.findIdx?_append, hnone, hsize]
    simp
  have hscope : page.inScope defaultScope (· = o.handle) = true := by
    rw [Page.inScope, h.stack, List.map_cons, List.cons_append, Page.searchScope]
    simp
  have hinner : (page.stack.toList.zipIdx.drop (page.stack.size - 1)).find?
      (fun p => isSpecial (page.nameOf p.1)) = none := by
    rw [h.stack_cons, List.zipIdx_append, hsize, Nat.add_sub_cancel,
      List.drop_left' (by simp)]
    simp [(h.names o List.mem_cons_self).1, hordinary]
  have hpop : page.formatting.eraseIdxIfInBounds (page.formatting.size - 1) =
      page.formatting.pop := by
    rw [← Array.toList_inj, Array.toList_eraseIdxIfInBounds, Array.toList_pop,
      ← Array.length_toList, List.eraseIdx_length_sub_one]
  have hcurrent : page.current = o.handle := h.current
  have honce : Build.adoptOnce o.tag.name page =
      (false, { left page with formatting := page.formatting.pop }) := by
    rw [Build.adoptOnce, Build.run_bind, Build.run_get]
    dsimp only
    rw [hentries, List.find?_cons_of_pos (by simp)]
    dsimp only
    rw [hindex]
    dsimp only
    rw [hscope, if_neg (by simp), hinner]
    dsimp only
    rw [Build.run_bind, Build.run_modify, Build.run_bind, Build.dropFormatting, Build.run_modify,
      Build.run_pure, Array.extract_eq_pop rfl]
    exact congrArg (fun fs => (false, { left page with formatting := fs })) hpop
  rw [Build.adopt, Build.run_bind, Build.run_get, hcurrent,
    h.formattingIndex?_innermost hformatting,
    Bool.and_false, if_neg Bool.false_ne_true, Build.adoptRounds, Build.run_bind, honce]
  rfl

/-- The entries behind the last marker are dropped where that is the last entry. -/
theorem clearToMarker (hmarker : page.formatting.toList.reverse.head? = some .marker) :
    Build.clearToMarker page = ((), { page with formatting := page.formatting.pop }) := by
  obtain ⟨entries, hentries⟩ := List.head?_eq_some_iff.1 hmarker
  have hdrop : (page.formatting.toList.reverse.dropWhile fun e => !Build.isMarker e).drop 1 =
      page.formatting.pop.toList.reverse := by
    rw [Array.toList_pop, ← List.tail_reverse, hentries]
    rfl
  rw [Build.clearToMarker, Build.run_modify, hdrop, List.reverse_reverse, Array.toArray_toList]

end Steady

end Html

end PrettyPayload
