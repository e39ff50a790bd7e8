import PrettyPayload.Proofs.Html.Page.Role

/-!
# End tags in a body

On a steady page the end tag of the innermost open element closes this element, and nothing else
happens.
-/

namespace PrettyPayload

namespace Html

variable {page : Page} {root : Nat} {opened : List Opened} {o : Opened} {name : String} {r : Role}
  {token : Token}

/-! ## Rules -/

def endRule (name : String) : Role → Build Step
  | .block =>
    if name = "p" then do
      if !(← get).inScopeNamed buttonScope ["p"] then
        let _ ← Build.insertMissing "p"
      Build.closeParagraph
      Build.done
    else do
      let _ ← Build.endInScope name
      Build.done
  | .formatting => do
    Build.adopt name
    Build.done
  | .heading => do
    if (← get).inScopeNamed defaultScope headings then
      Build.closeImplied
      Build.popUntil (NameSet.ofHtml headings)
    Build.done
  | .item => do
    let scope := if name = "li" then listItemScope else defaultScope
    if (← get).inScopeNamed scope [name] then
      Build.closeImpliedExcept name
      Build.popUntilNamed name
    Build.done
  | .preformatted | .button => do
    let _ ← Build.endInScope name
    Build.done
  | .form => Build.endForm
  | .marked => do
    if ← Build.endInScope name then Build.clearToMarker
    Build.done
  | .ruby | .choice | .void | .ordinary => do
    Build.endOther name
    Build.done

/-- The names that end tags with rules of their own have in the body, but for those of blocks,
headings and formatting elements. -/
def endRules : List String :=
  ["template", "body", "html", "form", "p", "li", "dd", "dt", "applet", "marquee", "object", "br"]

theorem endInBody_of_closing (h : closingBlockTags.contains name = true) :
    Build.endInBody token name = (do
      let _ ← Build.endInScope name
      Build.done) := by
  rw [Build.endInBody.eq_def, if_pos h]

theorem endInBody_of_block (h : name ∈ blockTags) :
    Build.endInBody token name = endRule name .block := by
  have hlist : ∀ n ∈ blockTags, n = "p" ∨ closingBlockTags.contains n = true := by decide
  have hp : closingBlockTags.contains "p" = false := by decide
  rw [endRule]
  rcases hlist name h with rfl | hclosing
  · rfl
  · rw [if_neg, endInBody_of_closing hclosing]
    rintro rfl
    rw [hp] at hclosing
    cases hclosing

theorem closingBlockTags_of_roleOf? (h : roleOf? name = some r)
    (hr : r ≠ .block ∧ r ≠ .preformatted ∧ r ≠ .button) :
    closingBlockTags.contains name = false := by
  have hlist : ∀ n ∈ closingBlockTags, n ∈ Role.block.tags ∨ n ∈ Role.preformatted.tags ∨
      n ∈ Role.button.tags := by decide
  rw [Bool.eq_false_iff, Ne, List.contains_iff_mem]
  intro hmem
  have hrole (s : Role) (hs : name ∈ s.tags) : r = s :=
    Option.some.inj (h.symm.trans (roleOf?_of_mem_tags s name hs))
  rcases hlist name hmem with hmem | hmem | hmem
  · exact hr.1 (hrole _ hmem)
  · exact hr.2.1 (hrole _ hmem)
  · exact hr.2.2 (hrole _ hmem)

theorem adopted_iff :
    (formattingTags.contains name = true ∨ name = "a" ∨ name = "nobr") ↔
      isFormatting name = true := by
  simp [isFormatting, or_assoc]

theorem endInBody_of_other (h : roleOf? name = some r)
    (hr : r = .ruby ∨ r = .choice ∨ r = .ordinary) :
    Build.endInBody token name = (do
      Build.endOther name
      Build.done) := by
  have hlist : ∀ n ∈ endRules, n = "template" ∨ n ∈ particularTags ∨
      ∃ s ∈ [Role.form, .block, .item, .marked, .void], n ∈ s.tags := by decide
  have hne : ∀ n ∈ endRules, name ≠ n := by
    rintro n hn rfl
    rcases hlist name hn with hmem | hmem | ⟨s, hs, hmem⟩
    · exact ne_template_of_roleOf? h hmem
    · exact not_mem_of_subset _ h (List.Subset.refl _) hmem
    · obtain rfl := Option.some.inj (h.symm.trans (roleOf?_of_mem_tags s name hmem))
      rcases hr with rfl | rfl | rfl <;> exact absurd hs (by decide)
  have hclosing : closingBlockTags.contains name = false :=
    closingBlockTags_of_roleOf? h (by rcases hr with rfl | rfl | rfl <;> decide)
  have hheading : headings.contains name = false :=
    contains_tags_of_ne (s := .heading) h (by rcases hr with rfl | rfl | rfl <;> decide)
  have hadopted : ¬(formattingTags.contains name = true ∨ name = "a" ∨ name = "nobr") := by
    rw [adopted_iff, isFormatting_of_roleOf? h, decide_eq_true_eq]
    rcases hr with rfl | rfl | rfl <;> decide
  rw [Build.endInBody.eq_def, hclosing, hheading, if_neg Bool.false_ne_true, if_neg hadopted,
    if_neg Bool.false_ne_true]
  split
  all_goals first
    | exact absurd rfl (hne _ (by decide))
    | rfl

theorem endInBody_eq (h : roleOf? name = some r) (hr : r ≠ .void) :
    Build.endInBody token name = endRule name r := by
  have hmem (hordinary : r ≠ .ordinary) : name ∈ r.tags := mem_tags_of_roleOf? h hordinary
  have hclosing := closingBlockTags_of_roleOf? h
  have hadopted : (formattingTags.contains name = true ∨ name = "a" ∨ name = "nobr") ↔
      r = .formatting := by
    rw [adopted_iff, isFormatting_of_roleOf? h, decide_eq_true_eq]
  cases r with
  | void => exact absurd rfl hr
  | block => exact endInBody_of_block (hmem (by decide))
  | formatting =>
    rw [Build.endInBody.eq_def, hclosing (by decide), if_neg Bool.false_ne_true,
      if_pos (hadopted.2 rfl)]
    rfl
  | heading =>
    have hheading : headings.contains name = true := List.contains_iff_mem.2 (hmem (by decide))
    rw [Build.endInBody.eq_def, hclosing (by decide), if_neg Bool.false_ne_true,
      if_neg fun hformatting => by simpa using hadopted.1 hformatting, if_pos hheading]
    rfl
  | ruby | choice | ordinary => exact endInBody_of_other h (by simp)
  | preformatted | item | button | form | marked =>
    have hmem := hmem (by decide)
    simp only [Role.tags, lineFeedTags, itemTags, List.mem_cons, List.not_mem_nil, or_false]
      at hmem
    rcases hmem with rfl | rfl | rfl
    all_goals rfl

namespace Steady

/-- Elements that leave nothing but themselves are closed as such. -/
theorem closedBy_eq (h : Steady page root (o :: opened)) (hrole : roleOf? o.tag.name = some r)
    (hr : r ≠ .formatting ∧ r ≠ .marked ∧ r ≠ .form) : closedBy page opened o = left page := by
  have hmode : page.mode = modeOf (pathOf opened) :=
    h.mode.trans (modeOf_cons_of_roleOf? hrole (pathOf opened))
  have hentries : o.entries = [] := by
    rw [entries_of_roleOf? hrole, if_neg hr.1, if_neg hr.2.1]
  rw [closedBy, if_pos hentries, if_neg (ne_form_of_roleOf? hrole hr.2.2), ← hmode]
  rfl

/-- Elements that leave an entry in the list of formatting elements take it along. -/
theorem closedBy_of_entry (h : Steady page root (o :: opened))
    (hrole : roleOf? o.tag.name = some r) (hr : r = .formatting ∨ r = .marked) :
    closedBy page opened o = { left page with formatting := page.formatting.pop } := by
  have hmode : page.mode = modeOf (pathOf opened) :=
    h.mode.trans (modeOf_cons_of_roleOf? hrole (pathOf opened))
  have hentries : o.entries ≠ [] := by
    rw [entries_of_roleOf? hrole]
    rcases hr with rfl | rfl <;> simp
  rw [closedBy, if_neg hentries, ← hmode,
    if_neg (ne_form_of_roleOf? hrole (by rcases hr with rfl | rfl <;> decide))]
  rfl

theorem inScopeNamed_innermost (h : Steady page root (o :: opened)) (scope : NameSet)
    (hrole : roleOf? o.tag.name = some r) : page.inScopeNamed scope [o.tag.name] = true := by
  have hname : o.tag.name ≠ "html" := fun heq =>
    not_mem_of_subset ["html"] hrole (by decide) (List.mem_singleton.2 heq)
  rw [h.inScopeNamed scope (by simpa using Ne.symm hname)]
  simp [pathOf, reaches]

/-- The innermost element is taken off wherever it is looked for. -/
theorem removeFromStack (h : Steady page root (o :: opened)) :
    Build.removeFromStack o.handle page = ((), left page) := by
  have hindex : page.stack.toList.reverse.findIdx? (· = o.handle) = some 0 := by
    rw [h.stack, List.map_cons, List.cons_append, List.findIdx?_cons]
    simp
  have hpop : page.stack.eraseIdxIfInBounds (page.stack.size - 1 - 0) = page.stack.pop := by
    rw [← Array.toList_inj, Array.toList_eraseIdxIfInBounds, Array.toList_pop, Nat.sub_zero,
      ← Array.length_toList, List.eraseIdx_length_sub_one]
  rw [Build.removeFromStack, Build.run_modify, hindex]
  dsimp only
  rw [hpop, left]

/-- An element whose end tag may not be left out is closed by the rule of most blocks. -/
theorem endInScope_innermost (h : Steady page root (o :: opened))
    (hrole : roleOf? o.tag.name = some r)
    (himplied : impliedEnd (htmlName o.tag.name) = false) :
    Build.endInScope o.tag.name page = (true, left page) := by
  rw [Build.endInScope, Build.run_bind, Build.run_get, h.inScopeNamed_innermost _ hrole,
    if_pos rfl, Build.run_bind, h.closeImplied himplied, Build.run_bind, h.popUntilNamed,
    Build.run_pure]

/-! ### One rule for each role -/

theorem endRule_block (h : Steady page root (o :: opened))
    (hrole : roleOf? o.tag.name = some .block) :
    endRule o.tag.name .block page = (.done, closedBy page opened o) := by
  rw [h.closedBy_eq hrole (by decide), endRule]
  split
  next hname =>
    have hscope := h.inScopeNamed_innermost buttonScope hrole
    have himplied := h.closeImpliedExcept
    have hpop := h.popUntilNamed
    rw [hname] at hscope himplied hpop
    rw [Build.run_bind, Build.run_get]
    dsimp only
    rw [hscope, Bool.not_true, if_neg Bool.false_ne_true, Build.run_bind, Build.closeParagraph,
      Build.run_bind, himplied, hpop]
    rfl
  next hname =>
    have hlist : ∀ n ∈ blockTags, n = "p" ∨ impliedEnd (htmlName n) = false := by decide
    have hmem : o.tag.name ∈ blockTags := mem_tags_of_roleOf? hrole (by decide)
    rw [Build.run_bind, h.endInScope_innermost hrole ((hlist _ hmem).resolve_left hname)]
    rfl

theorem endRule_formatting (h : Steady page root (o :: opened))
    (hrole : roleOf? o.tag.name = some .formatting) :
    endRule o.tag.name .formatting page = (.done, closedBy page opened o) := by
  have hlist : ∀ n ∈ Role.formatting.tags, isSpecial (htmlName n) = false := by decide
  have hspecial := hlist _ (mem_tags_of_roleOf? hrole (by decide))
  rw [h.closedBy_of_entry hrole (Or.inl rfl), endRule, Build.run_bind,
    h.adopt (isFormatting_of_roleOf? hrole) hspecial]
  rfl

theorem endRule_heading (h : Steady page root (o :: opened))
    (hrole : roleOf? o.tag.name = some .heading) :
    endRule o.tag.name .heading page = (.done, closedBy page opened o) := by
  have hlist : ∀ n ∈ headings, impliedEnd (htmlName n) = false := by decide
  have hmem : o.tag.name ∈ headings := mem_tags_of_roleOf? hrole (by decide)
  have hname : headings.contains o.tag.name = true := List.contains_iff_mem.2 hmem
  have hscope : page.inScopeNamed defaultScope headings = true := by
    rw [h.inScopeNamed defaultScope (by decide), pathOf, List.map_cons, reaches, hname,
      Bool.true_or]
  rw [h.closedBy_eq hrole (by decide), endRule, Build.run_bind, Build.run_get]
  dsimp only
  rw [hscope, if_pos rfl, Build.run_bind, h.closeImplied (hlist _ hmem), Build.run_bind,
    h.popUntil ((ofHtml_htmlName headings _).trans hname)]
  rfl

theorem endRule_item (h : Steady page root (o :: opened))
    (hrole : roleOf? o.tag.name = some .item) :
    endRule o.tag.name .item page = (.done, closedBy page opened o) := by
  rw [h.closedBy_eq hrole (by decide), endRule, Build.run_bind, Build.run_get]
  dsimp only
  rw [h.inScopeNamed_innermost _ hrole, if_pos rfl, Build.run_bind, h.closeImpliedExcept,
    Build.run_bind, h.popUntilNamed]
  rfl

theorem endRule_of_closing (h : Steady page root (o :: opened))
    (hrole : roleOf? o.tag.name = some r) (hr : r = .preformatted ∨ r = .button) :
    endRule o.tag.name r page = (.done, closedBy page opened o) := by
  have hlist : ∀ n ∈ lineFeedTags ++ ["button"], impliedEnd (htmlName n) = false := by decide
  have himplied : impliedEnd (htmlName o.tag.name) = false := by
    rcases hr with rfl | rfl
    · exact hlist _ (List.mem_append_left _ (mem_tags_of_roleOf? hrole (by decide)))
    · exact hlist _ (List.mem_append_right _ (mem_tags_of_roleOf? hrole (by decide)))
  have hclosed := h.endInScope_innermost hrole himplied
  rcases hr with rfl | rfl
  all_goals
    rw [h.closedBy_eq hrole (by decide), endRule, Build.run_bind, hclosed]
    rfl

theorem endRule_form (h : Steady page root (o :: opened))
    (hrole : roleOf? o.tag.name = some .form) :
    endRule o.tag.name .form page = (.done, closedBy page opened o) := by
  have hname : o.tag.name = "form" :=
    List.mem_singleton.1 (mem_tags_of_roleOf? hrole (by decide))
  have hform : page.form = some o.handle := by
    rw [h.form, formOf, List.find?_cons_of_pos (by simp [hname])]
    rfl
  have hscope : page.inScope defaultScope (· = o.handle) = true := by
    rw [Page.inScope, h.stack, List.map_cons, List.cons_append, Page.searchScope]
    simp
  have hclosed : Build.closeImplied page = ((), page) := h.closeImplied (by
    rw [innermostName, List.head?_cons, Option.map_some, Option.getD_some, hname]
    decide)
  -- That no form is open any more is said first, and nothing of what follows asks for it.
  have himplied : Build.closeImplied { page with form := none } =
      ((), { page with form := none }) :=
    congrArg (fun r : Unit × Page => (((), { r.2 with form := none }) : Unit × Page)) hclosed
  have hremoved : Build.removeFromStack o.handle { page with form := none } =
      ((), { left page with form := none }) := by
    have hremove : Build.removeFromStack o.handle { page with form := none } =
        ((), { (Build.removeFromStack o.handle page).2 with form := none }) := by
      rw [Build.removeFromStack, Build.run_modify, Build.run_modify]
      dsimp only
      split <;> rfl
    rw [hremove, h.removeFromStack]
  have hmode : page.mode = modeOf (pathOf opened) :=
    h.mode.trans (modeOf_cons_of_roleOf? hrole (pathOf opened))
  have hentries : o.entries = [] := by
    rw [entries_of_roleOf? hrole, if_neg (by decide), if_neg (by decide)]
  rw [closedBy, if_pos hentries, if_pos hname, ← hmode, endRule, Build.endForm, Build.run_bind,
    Build.run_get]
  dsimp only
  rw [h.hasOpen_template, if_neg Bool.false_ne_true, hform, Build.run_bind, Build.run_modify]
  dsimp only
  rw [hscope, if_pos rfl, Build.run_bind, himplied, Build.run_bind, hremoved]
  rfl

theorem endRule_marked (h : Steady page root (o :: opened))
    (hrole : roleOf? o.tag.name = some .marked) :
    endRule o.tag.name .marked page = (.done, closedBy page opened o) := by
  have hlist : ∀ n ∈ Role.marked.tags, impliedEnd (htmlName n) = false := by decide
  have himplied := hlist _ (mem_tags_of_roleOf? hrole (by decide))
  have hmarker : (left page).formatting.toList.reverse.head? = some .marker := by
    have hformatting : (left page).formatting.toList.reverse = _ := h.formatting
    rw [hformatting, List.flatMap_cons, entries_of_roleOf? hrole, if_neg (by decide),
      if_pos rfl]
    rfl
  rw [h.closedBy_of_entry hrole (Or.inr rfl), endRule, Build.run_bind,
    h.endInScope_innermost hrole himplied]
  dsimp only
  rw [if_pos rfl, Build.run_bind, clearToMarker hmarker]
  rfl

theorem endInBody (h : Steady page root (o :: opened)) (hrole : roleOf? o.tag.name = some r)
    (hr : r ≠ .void) :
    Build.endInBody token o.tag.name page = (.done, closedBy page opened o) := by
  rw [endInBody_eq hrole hr]
  cases r with
  | void => exact absurd rfl hr
  | block => exact h.endRule_block hrole
  | formatting => exact h.endRule_formatting hrole
  | heading => exact h.endRule_heading hrole
  | item => exact h.endRule_item hrole
  | preformatted => exact h.endRule_of_closing hrole (Or.inl rfl)
  | button => exact h.endRule_of_closing hrole (Or.inr rfl)
  | form => exact h.endRule_form hrole
  | marked => exact h.endRule_marked hrole
  | ruby | choice | ordinary =>
    rw [h.closedBy_eq hrole (by decide), endRule, Build.run_bind, h.endOther]
    rfl

end Steady

end Html

end PrettyPayload
