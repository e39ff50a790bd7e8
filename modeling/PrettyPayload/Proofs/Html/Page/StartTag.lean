import PrettyPayload.Proofs.Html.Page.Role

/-!
# Start tags in a body

On a steady page the start tag of an element that is admitted opens this element, and nothing else
happens. An element without content is closed at once.
-/

namespace PrettyPayload

namespace Html

variable {page : Page} {root : Nat} {opened : List Opened} {tag : Tag} {name : String}
  {r : Role}

/-! ## Rules -/

def startRule (tag : Tag) : Role → Build Step
  | .block => do
    Build.startBlock tag
    Build.done
  | .formatting =>
    if tag.name = "a" then do
      Build.closeOuterLink
      Build.reconstruct
      Build.insertFormatting tag
      Build.done
    else if tag.name = "nobr" then do
      Build.reconstruct
      if (← get).inScopeNamed defaultScope ["nobr"] then
        Build.adopt "nobr"
        Build.reconstruct
      Build.insertFormatting tag
      Build.done
    else do
      Build.reconstruct
      Build.insertFormatting tag
      Build.done
  | .heading => do
    Build.closeParagraphInScope
    let page ← get
    if NameSet.ofHtml headings (page.nameOf page.current) then Build.pop
    let _ ← Build.insertFor tag
    Build.done
  | .preformatted => do
    Build.startBlock tag
    modify fun page => { page with skipLineFeed := true, framesetOk := false }
    Build.done
  | .item => Build.startItem tag
  | .button => do
    if (← get).inScopeNamed defaultScope ["button"] then
      Build.closeImplied
      Build.popUntilNamed "button"
    Build.reconstruct
    let _ ← Build.insertFor tag
    Build.refuseFrameset
    Build.done
  | .form => Build.startForm tag
  | .ruby =>
    if ["rb", "rtc"].contains tag.name then do
      if (← get).inScopeNamed defaultScope ["ruby"] then Build.closeImplied
      let _ ← Build.insertFor tag
      Build.done
    else do
      if (← get).inScopeNamed defaultScope ["ruby"] then Build.closeImpliedExcept "rtc"
      let _ ← Build.insertFor tag
      Build.done
  | .choice => do
    if (← get).currentIs "option" then Build.pop
    Build.reconstruct
    let _ ← Build.insertFor tag
    Build.done
  | .marked => do
    Build.reconstruct
    let _ ← Build.insertFor tag
    Build.pushMarker
    Build.refuseFrameset
    Build.done
  | .void => Build.startVoid tag
  | .ordinary => do
    Build.reconstruct
    let _ ← Build.insertFor tag
    Build.done

/-- The names that start tags with rules of their own have in the body, but for those of blocks,
headings and most formatting elements. -/
def startRules : List String :=
  ["html", "body", "frameset", "pre", "listing", "form", "li", "dd", "dt", "plaintext", "button",
    "a", "nobr", "applet", "marquee", "object", "table", "area", "br", "embed", "img", "keygen",
    "wbr", "input", "param", "source", "track", "hr", "image", "textarea", "xmp", "iframe",
    "noembed", "noscript", "select", "optgroup", "option", "rb", "rtc", "rp", "rt", "math", "svg",
    "caption", "col", "colgroup", "frame", "head", "tbody", "td", "tfoot", "th", "thead", "tr"]

theorem contains_headTags_of_roleOf? (h : roleOf? name = some r) (hr : r ≠ .void) :
    headTags.contains name = false := by
  have hlist : ∀ n ∈ headTags, n ∈ Role.void.tags ∨ n ∈ particularTags := by decide
  rw [Bool.eq_false_iff, Ne, List.contains_iff_mem]
  intro hmem
  rcases hlist name hmem with hmem | hmem
  · exact hr (Option.some.inj (h.symm.trans (roleOf?_of_mem_tags .void name hmem)))
  · exact not_mem_of_subset _ h (List.Subset.refl _) hmem

theorem contains_formattingTags_of_roleOf? (h : roleOf? name = some r) (hr : r ≠ .formatting) :
    formattingTags.contains name = false := by
  have hmem := contains_tags_of_ne h hr
  rw [Bool.eq_false_iff, Ne, List.contains_iff_mem] at hmem ⊢
  exact fun h => hmem (List.mem_cons_of_mem _ (List.mem_cons_of_mem _ h))

theorem startInBody_of_ordinary (h : roleOf? tag.name = some .ordinary) :
    Build.startInBody tag = startRule tag .ordinary := by
  have hlist : ∀ n ∈ startRules, n ∈ particularTags ∨ ∃ r ∈ Role.particular, n ∈ r.tags := by
    decide
  have hne : ∀ n ∈ startRules, tag.name ≠ n := by
    rintro n hn rfl
    rcases hlist _ hn with hmem | ⟨r, hr, hmem⟩
    · exact not_mem_of_subset _ h (List.Subset.refl _) hmem
    · obtain rfl := Option.some.inj (h.symm.trans (roleOf?_of_mem_tags r _ hmem))
      exact absurd hr (by decide)
  have hblock : blockTags.contains tag.name = false :=
    contains_tags_of_ne (s := .block) h (by decide)
  have hheading : headings.contains tag.name = false :=
    contains_tags_of_ne (s := .heading) h (by decide)
  rw [Build.startInBody]
  dsimp only
  rw [hblock, contains_formattingTags_of_roleOf? h (by decide),
    contains_headTags_of_roleOf? h (by decide), hheading]
  simp only [Bool.false_eq_true, if_false]
  split
  all_goals first
    | exact absurd ‹tag.name = _› (hne _ (by decide))
    | rfl

theorem startInBody_of_formattingTags (h : tag.name ∈ formattingTags) :
    Build.startInBody tag = startRule tag .formatting := by
  have hrole := roleOf?_of_mem_tags .formatting tag.name
    (List.mem_cons_of_mem _ (List.mem_cons_of_mem _ h))
  have hblock : blockTags.contains tag.name = false :=
    contains_tags_of_ne (s := .block) hrole (by decide)
  have hlink : tag.name ≠ "a" := fun heq => absurd (heq ▸ h) (by decide)
  have hbreak : tag.name ≠ "nobr" := fun heq => absurd (heq ▸ h) (by decide)
  rw [Build.startInBody, startRule]
  dsimp only
  rw [hblock, if_neg Bool.false_ne_true, if_pos (List.contains_iff_mem.2 h), if_neg hlink,
    if_neg hbreak]

theorem startInBody_of_heading (h : tag.name ∈ headings) :
    Build.startInBody tag = startRule tag .heading := by
  have hrole := roleOf?_of_mem_tags .heading tag.name h
  have hblock : blockTags.contains tag.name = false :=
    contains_tags_of_ne (s := .block) hrole (by decide)
  rw [Build.startInBody, startRule]
  dsimp only
  rw [hblock, if_neg Bool.false_ne_true, contains_formattingTags_of_roleOf? hrole (by decide),
    if_neg Bool.false_ne_true, contains_headTags_of_roleOf? hrole (by decide),
    if_neg Bool.false_ne_true, if_pos (List.contains_iff_mem.2 h)]

theorem startInBody_eq (h : roleOf? tag.name = some r) (hr : r ≠ .void) :
    Build.startInBody tag = startRule tag r := by
  by_cases hordinary : r = .ordinary
  · subst hordinary
    exact startInBody_of_ordinary h
  have hmem := mem_tags_of_roleOf? h hordinary
  obtain ⟨name, attributes, selfClosing⟩ := tag
  cases r with
  | ordinary => exact absurd rfl hordinary
  | void => exact absurd rfl hr
  | block =>
    rw [Build.startInBody]
    exact if_pos (List.contains_iff_mem.2 hmem)
  | heading => exact startInBody_of_heading hmem
  | formatting =>
    obtain rfl | hmem := List.mem_cons.1 hmem
    · rfl
    obtain rfl | hmem := List.mem_cons.1 hmem
    · rfl
    exact startInBody_of_formattingTags hmem
  | preformatted | item | button | form | ruby | choice | marked =>
    simp only [Role.tags, lineFeedTags, itemTags, List.mem_cons, List.not_mem_nil, or_false]
      at hmem
    rcases hmem with rfl | rfl | rfl | rfl
    all_goals rfl

namespace Steady

theorem paragraph_of_free (h : Steady page root opened)
    (hpath : freeOfParagraph (pathOf opened) = true) :
    Build.closeParagraphInScope page = ((), page) :=
  h.closeParagraphInScope (by simpa [freeOfParagraph] using hpath)

theorem startBlock (h : Steady page root opened)
    (hpath : freeOfParagraph (pathOf opened) = true) (htemplate : tag.name ≠ "template") :
    Build.startBlock tag page = ((), entered page root opened tag) := by
  rw [Build.startBlock, Build.run_bind, h.paragraph_of_free hpath, Build.run_bind,
    h.insertFor htemplate, Build.run_pure]

theorem refused (h : Steady page root opened) :
    Steady (page.regrown page.forest false) root opened :=
  h.regrown ⟨Nat.le_refl _, fun _ _ => rfl⟩ false

/-- Elements that leave nothing but themselves are opened as such. -/
theorem openedBy_eq (h : Steady page root opened) (hrole : roleOf? tag.name = some r)
    (hr : r ≠ .formatting ∧ r ≠ .marked ∧ r ≠ .form ∧ r ≠ .preformatted) (framesetOk : Bool) :
    openedBy page root opened tag framesetOk =
      { entered page root opened tag with framesetOk } := by
  have hfeed : lineFeedTags.contains tag.name = false := contains_tags_of_ne hrole hr.2.2.2
  rw [openedBy, modeOf_cons_of_roleOf? hrole, ← h.mode, entries_of_roleOf? hrole, if_neg hr.1,
    if_neg hr.2.1, if_neg (ne_form_of_roleOf? hrole hr.2.2.1), hfeed, Bool.false_or,
    Array.append_empty]
  rfl

theorem openItem (h : Steady page root opened) {names : List String}
    (hnames : names.contains "html" = false) (hpath : itemIn names (pathOf opened) = false) :
    Build.openItem page names page.stack.toList.reverse = none := by
  have hsearch : ∀ more : List Opened, (∀ o ∈ more, page.nameOf o.handle = htmlName o.tag.name) →
      itemIn names (pathOf more) = false →
        Build.openItem page names (more.map Opened.handle ++ [root]) = none := by
    intro more
    induction more with
    | nil =>
      intro _ _
      have hspecial : (isSpecial (htmlName "html") &&
          !NameSet.ofHtml ["address", "div", "p"] (htmlName "html")) = true := by decide
      rw [List.map_nil, List.nil_append, Build.openItem, h.outermost.1, ofHtml_htmlName, hnames,
        if_neg Bool.false_ne_true, if_pos hspecial]
    | cons o more ih =>
      intro hmore hitem
      rw [List.forall_mem_cons] at hmore
      rw [pathOf, List.map_cons, itemIn, Bool.or_eq_false_iff, Bool.and_eq_false_iff,
        Bool.not_eq_false', ← ofHtml_htmlName ["address", "div", "p"]] at hitem
      rw [List.map_cons, List.cons_append, Build.openItem, hmore.1, ofHtml_htmlName, hitem.1,
        if_neg Bool.false_ne_true]
      split
      next => rfl
      next hspecial => exact ih hmore.2 (hitem.2.resolve_left hspecial)
  rw [h.stack]
  exact hsearch opened (fun o ho => (h.names o ho).1) hpath

theorem startItem (h : Steady page root opened)
    (hpath : freeOfParagraph (pathOf opened) = true)
    (hitem : itemIn (itemsLike tag.name) (pathOf opened) = false)
    (htemplate : tag.name ≠ "template") :
    Build.startItem tag page =
      (.done, { entered page root opened tag with framesetOk := false }) := by
  have hnames : (itemsLike tag.name).contains "html" = false := by
    unfold itemsLike
    split <;> decide
  have hnone := h.refused.openItem hnames hitem
  rw [Build.startItem, Build.run_bind, Build.run_refuseFrameset, Build.run_bind, Build.run_get]
  dsimp only
  rw [show (if tag.name = "li" then ["li"] else ["dd", "dt"]) = itemsLike tag.name from rfl,
    hnone]
  dsimp only
  rw [Build.run_bind, h.refused.paragraph_of_free hpath, Build.run_bind,
    h.refused.insertFor htemplate]
  rfl

theorem free_of_ruby (h : freeOfRuby (pathOf opened) name = true) :
    (impliedEnd (htmlName (innermostName opened)) &&
      (["rb", "rtc"].contains name || innermostName opened ≠ "rtc")) = false := by
  cases opened with
  | nil => rfl
  | cons o opened =>
    rw [freeOfRuby, Bool.not_eq_true'] at h
    exact h

theorem openedBy_of_entry (h : Steady page root opened) (hrole : roleOf? tag.name = some r)
    (hr : r ≠ .form ∧ r ≠ .preformatted) {entry : Formatting}
    (hentry : (if r = .formatting then [.element page.forest.cells.size tag]
      else if r = .marked then [.marker] else []) = [entry]) (framesetOk : Bool) :
    openedBy page root opened tag framesetOk =
      { entered page root opened tag with
        formatting := page.formatting.push entry
        framesetOk } := by
  have hfeed : lineFeedTags.contains tag.name = false := contains_tags_of_ne hrole hr.2
  rw [openedBy, modeOf_cons_of_roleOf? hrole, ← h.mode, entries_of_roleOf? hrole, hentry,
    if_neg (ne_form_of_roleOf? hrole hr.1), hfeed, Bool.false_or, ← Array.push_eq_append]
  rfl

/-! ### One rule for each role -/

theorem startRule_block (h : Steady page root opened) (hrole : roleOf? tag.name = some .block)
    (hpath : freeOfParagraph (pathOf opened) = true) :
    startRule tag .block page = (.done, openedBy page root opened tag page.framesetOk) := by
  rw [h.openedBy_eq hrole (by decide), startRule, Build.run_bind,
    h.startBlock hpath (ne_template_of_roleOf? hrole)]
  rfl

theorem startRule_formatting (h : Steady page root opened)
    (hrole : roleOf? tag.name = some .formatting)
    (hcount : (pathOf opened).count tag.name < (if ["a", "nobr"].contains tag.name then 1 else 3)) :
    startRule tag .formatting page = (.done, openedBy page root opened tag page.framesetOk) := by
  have htemplate := ne_template_of_roleOf? hrole
  have hfew : (pathOf opened).count tag.name < 3 := by
    split at hcount <;> omega
  have hsingle (hname : tag.name = "a" ∨ tag.name = "nobr") : tag.name ∉ pathOf opened := by
    rw [if_pos (by rcases hname with hname | hname <;> rw [hname] <;> decide)] at hcount
    exact List.count_eq_zero.1 (Nat.lt_one_iff.1 hcount)
  rw [h.openedBy_of_entry hrole (by decide) (if_pos rfl), startRule]
  split
  next hname =>
    rw [Build.run_bind, h.closeOuterLink (hname ▸ hsingle (Or.inl hname)), Build.run_bind,
      h.reconstruct, Build.run_bind, h.insertFormatting htemplate hfew]
    rfl
  next =>
    split
    next hname =>
      rw [Build.run_bind, h.reconstruct, Build.run_bind, Build.run_get]
      dsimp only
      rw [h.inScopeNamed defaultScope (by decide),
        reaches_of_not_mem (hname ▸ hsingle (Or.inr hname)), if_neg Bool.false_ne_true,
        Build.run_bind, h.insertFormatting htemplate hfew]
      rfl
    next =>
      rw [Build.run_bind, h.reconstruct, Build.run_bind, h.insertFormatting htemplate hfew]
      rfl

theorem startRule_heading (h : Steady page root opened)
    (hrole : roleOf? tag.name = some .heading) (hpath : freeOfParagraph (pathOf opened) = true)
    (hparent : (pathOf opened).head?.any headings.contains = false) :
    startRule tag .heading page = (.done, openedBy page root opened tag page.framesetOk) := by
  have hcurrent : headings.contains (innermostName opened) = false := by
    cases opened with
    | nil => decide
    | cons o opened => simpa [pathOf, innermostName] using hparent
  rw [h.openedBy_eq hrole (by decide), startRule, Build.run_bind, h.paragraph_of_free hpath,
    Build.run_bind, Build.run_get]
  dsimp only
  rw [h.nameOf_current, ofHtml_htmlName, hcurrent, if_neg Bool.false_ne_true, Build.run_bind,
    h.insertFor (ne_template_of_roleOf? hrole)]
  rfl

theorem startRule_preformatted (h : Steady page root opened)
    (hrole : roleOf? tag.name = some .preformatted)
    (hpath : freeOfParagraph (pathOf opened) = true) :
    startRule tag .preformatted page = (.done, openedBy page root opened tag false) := by
  have hfeed : lineFeedTags.contains tag.name = true :=
    List.contains_iff_mem.2 (mem_tags_of_roleOf? hrole (by decide))
  rw [openedBy, modeOf_cons_of_roleOf? hrole, ← h.mode, entries_of_roleOf? hrole,
    if_neg (by decide), if_neg (by decide), if_neg (ne_form_of_roleOf? hrole (by decide)),
    hfeed, Bool.true_or, Array.append_empty, startRule, Build.run_bind,
    h.startBlock hpath (ne_template_of_roleOf? hrole)]
  rfl

theorem startRule_item (h : Steady page root opened) (hrole : roleOf? tag.name = some .item)
    (hpath : freeOfParagraph (pathOf opened) = true)
    (hitem : itemIn (itemsLike tag.name) (pathOf opened) = false) :
    startRule tag .item page = (.done, openedBy page root opened tag false) := by
  rw [h.openedBy_eq hrole (by decide), startRule,
    h.startItem hpath hitem (ne_template_of_roleOf? hrole)]

theorem startRule_button (h : Steady page root opened) (hrole : roleOf? tag.name = some .button)
    (hpath : Steady.reaches defaultScope ["button"] (pathOf opened) = false) :
    startRule tag .button page = (.done, openedBy page root opened tag false) := by
  have hscope : page.inScopeNamed defaultScope ["button"] = false := by
    rw [h.inScopeNamed defaultScope (by decide), hpath]
  rw [h.openedBy_eq hrole (by decide), startRule, Build.run_bind, Build.run_get]
  dsimp only
  rw [hscope, if_neg Bool.false_ne_true, Build.run_bind, h.reconstruct, Build.run_bind,
    h.insertFor (ne_template_of_roleOf? hrole)]
  rfl

theorem startRule_form (h : Steady page root opened) (hrole : roleOf? tag.name = some .form)
    (hpath : freeOfParagraph (pathOf opened) = true)
    (hfree : (pathOf opened).contains "form" = false) :
    startRule tag .form page = (.done, openedBy page root opened tag page.framesetOk) := by
  have hname : tag.name = "form" := List.mem_singleton.1 (mem_tags_of_roleOf? hrole (by decide))
  have hfeed : lineFeedTags.contains tag.name = false := by
    rw [hname]
    decide
  have hnone : page.form = none := by
    rw [h.form, formOf_eq_none (by simpa using hfree)]
  rw [openedBy, modeOf_cons_of_roleOf? hrole, ← h.mode, entries_of_roleOf? hrole,
    if_neg (by decide), if_neg (by decide), if_pos hname, hfeed, Bool.false_or,
    Array.append_empty, startRule, Build.startForm, Build.run_bind, Build.run_get]
  dsimp only
  rw [h.hasOpen_template, hnone, Option.isNone_none, Bool.true_or, if_pos rfl, Build.run_bind,
    h.paragraph_of_free hpath, Build.run_bind, h.insertFor (ne_template_of_roleOf? hrole)]
  rfl

theorem startRule_ruby (h : Steady page root opened) (hrole : roleOf? tag.name = some .ruby)
    (hfree : freeOfRuby (pathOf opened) tag.name = true) :
    startRule tag .ruby page = (.done, openedBy page root opened tag page.framesetOk) := by
  have hinsert := h.insertFor (ne_template_of_roleOf? hrole)
  have hkept := free_of_ruby hfree
  rw [h.openedBy_eq hrole (by decide), startRule]
  split
  next hname =>
    rw [hname, Bool.true_or, Bool.and_true] at hkept
    rw [Build.run_bind, Build.run_get]
    dsimp only
    split
    · rw [Build.run_bind, h.closeImplied hkept, Build.run_bind, hinsert]
      rfl
    · rw [Build.run_bind, hinsert]
      rfl
  next hname =>
    rw [Bool.eq_false_iff.2 hname, Bool.false_or] at hkept
    have hclosed : Build.closeImpliedExcept "rtc" page = ((), page) :=
      h.popWhile (by simpa [htmlName] using hkept)
    rw [Build.run_bind, Build.run_get]
    dsimp only
    split
    · rw [Build.run_bind, hclosed, Build.run_bind, hinsert]
      rfl
    · rw [Build.run_bind, hinsert]
      rfl

theorem startRule_choice (h : Steady page root opened) (hrole : roleOf? tag.name = some .choice)
    (hparent : (pathOf opened).head? ≠ some "option") :
    startRule tag .choice page = (.done, openedBy page root opened tag page.framesetOk) := by
  have hname : innermostName opened ≠ "option" := by
    cases opened with
    | nil => decide
    | cons o opened => simpa [pathOf, innermostName] using hparent
  rw [h.openedBy_eq hrole (by decide), startRule, Build.run_bind, Build.run_get]
  dsimp only
  rw [h.currentIs, decide_eq_false hname, if_neg Bool.false_ne_true, Build.run_bind,
    h.reconstruct, Build.run_bind, h.insertFor (ne_template_of_roleOf? hrole)]
  rfl

theorem startRule_marked (h : Steady page root opened) (hrole : roleOf? tag.name = some .marked) :
    startRule tag .marked page = (.done, openedBy page root opened tag false) := by
  rw [h.openedBy_of_entry hrole (by decide) ((if_neg (by decide)).trans (if_pos rfl)),
    startRule, Build.run_bind, h.reconstruct, Build.run_bind,
    h.insertFor (ne_template_of_roleOf? hrole)]
  rfl

theorem startRule_ordinary (h : Steady page root opened)
    (hrole : roleOf? tag.name = some .ordinary) :
    startRule tag .ordinary page = (.done, openedBy page root opened tag page.framesetOk) := by
  rw [h.openedBy_eq hrole (by decide), startRule, Build.run_bind, h.reconstruct,
    Build.run_bind, h.insertFor (ne_template_of_roleOf? hrole)]
  rfl

theorem startInBody (h : Steady page root opened)
    (hadmits : admits (pathOf opened) tag.name = true) (hvoid : roleOf? tag.name ≠ some .void) :
    ∃ framesetOk, Build.startInBody tag page =
      (.done, openedBy page root opened tag framesetOk) := by
  obtain ⟨r, hrole⟩ := exists_role_of_admits hadmits
  rw [startInBody_eq hrole fun hr => hvoid (hr ▸ hrole)]
  rw [admits, hrole] at hadmits
  cases r with
  | void => exact absurd hrole hvoid
  | block => exact ⟨_, h.startRule_block hrole hadmits⟩
  | formatting => exact ⟨_, h.startRule_formatting hrole (of_decide_eq_true hadmits)⟩
  | heading =>
    obtain ⟨hpath, hparent⟩ := Bool.and_eq_true_iff.1 hadmits
    exact ⟨_, h.startRule_heading hrole hpath (by simpa using hparent)⟩
  | preformatted => exact ⟨_, h.startRule_preformatted hrole hadmits⟩
  | item =>
    obtain ⟨hpath, hitem⟩ := Bool.and_eq_true_iff.1 hadmits
    exact ⟨_, h.startRule_item hrole hpath (by simpa using hitem)⟩
  | button => exact ⟨_, h.startRule_button hrole (by simpa using hadmits)⟩
  | form =>
    obtain ⟨hpath, hfree⟩ := Bool.and_eq_true_iff.1 hadmits
    exact ⟨_, h.startRule_form hrole hpath (by simpa using hfree)⟩
  | ruby => exact ⟨_, h.startRule_ruby hrole hadmits⟩
  | choice => exact ⟨_, h.startRule_choice hrole (of_decide_eq_true hadmits)⟩
  | marked => exact ⟨_, h.startRule_marked hrole⟩
  | ordinary => exact ⟨_, h.startRule_ordinary hrole⟩

/-! ### Elements without content -/

def dotted (page : Page) (root : Nat) (opened : List Opened) (tag : Tag) (framesetOk : Bool) :
    Page :=
  page.regrown (page.forest.grow (innermost root opened)
    (.element (htmlName tag.name) tag.attributes)) framesetOk

theorem startVoid (h : Steady page root opened) (htemplate : tag.name ≠ "template") :
    ∃ framesetOk, Build.startVoid tag page = (.done, dotted page root opened tag framesetOk) := by
  rw [Build.startVoid, Build.run_bind, h.reconstruct, Build.run_bind, h.insertVoid htemplate]
  split
  · exact ⟨false, rfl⟩
  · exact ⟨page.framesetOk, rfl⟩

theorem startRuler (h : Steady page root opened)
    (hpath : freeOfParagraph (pathOf opened) = true) (hname : tag.name = "hr") :
    Build.startInBody tag page = (.done, dotted page root opened tag false) := by
  obtain ⟨name, attributes, selfClosing⟩ := tag
  subst hname
  have hrule : Build.startInBody ⟨"hr", attributes, selfClosing⟩ = (do
    Build.closeParagraphInScope
    let _ ← Build.insertVoid ⟨"hr", attributes, selfClosing⟩
    Build.refuseFrameset
    Build.done) := rfl
  rw [hrule, Build.run_bind, h.paragraph_of_free hpath, Build.run_bind,
    h.insertVoid (show "hr" ≠ "template" by decide)]
  rfl

/-- An element without content is closed at once. -/
theorem startInBody_of_void (h : Steady page root opened)
    (hadmits : admits (pathOf opened) tag.name = true) (hvoid : roleOf? tag.name = some .void) :
    ∃ framesetOk, Build.startInBody tag page = (.done, dotted page root opened tag framesetOk) := by
  have htemplate := ne_template_of_roleOf? hvoid
  have hclosed : (do
      let _ ← Build.insertVoid tag
      Build.done : Build Step) page = (.done, dotted page root opened tag page.framesetOk) := by
    rw [Build.run_bind, h.insertVoid htemplate]
    rfl
  have hmem := mem_tags_of_roleOf? hvoid (by decide)
  rw [admits, hvoid] at hadmits
  by_cases hname : tag.name = "hr"
  · exact ⟨false, h.startRuler (by simpa [hname] using hadmits) hname⟩
  obtain ⟨name, attributes, selfClosing⟩ := tag
  simp only [Role.tags, voidTags, List.mem_cons, List.not_mem_nil, or_false] at hmem hname
  rcases hmem with rfl | rfl | rfl | rfl | rfl | rfl | rfl | rfl | rfl | rfl | rfl | rfl | rfl |
    rfl | rfl | rfl
  -- Either the rule for pictures and the like, or nothing but the element.
  all_goals first
    | exact absurd rfl hname
    | exact h.startVoid htemplate
    | exact ⟨page.framesetOk, hclosed⟩

end Steady

end Html

end PrettyPayload
