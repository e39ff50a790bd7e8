import PrettyPayload.Proofs.Html.Page.Take

/-!
# Elements without markup

The content of scripts, style sheets, titles and the like is one text. From the start tag of such an
element to its end tag the page is in a mode of its own, `inText`, and knows the mode to return to.
-/

namespace PrettyPayload

namespace Html

variable {page page' : Page} {root : Nat} {opened : List Opened} {o : Opened} {tag : Tag}
  {content : Content} {t : Text} {f : Forest} {mode : Mode}

/-! ## Definitions -/

/-- The elements whose content has references, but no markup. -/
def rcdataTags : List String := ["title", "textarea"]

/-- The elements whose content is text as it stands, but for scripts. -/
def rawtextTags : List String := ["style", "xmp", "iframe", "noembed", "noframes", "noscript"]

def rawContent? (name : String) : Option Content :=
  if name = "script" then some .script
  else if rcdataTags.contains name then some (.rcdata name)
  else if rawtextTags.contains name then some (.rawtext name)
  else none

/-- Whether an element without markup may be opened in some others without closing any. -/
def admitsRaw (path : List String) (name : String) : Bool :=
  name ≠ "xmp" || freeOfParagraph path

def Page.inText (page : Page) (mode : Mode) : Page :=
  { page with mode := .text, returnMode := mode }

theorem mem_of_rawContent? {name : String} (h : rawContent? name = some content) :
    name ∈ "script" :: rcdataTags ++ rawtextTags := by
  unfold rawContent? at h
  split at h
  next hname => exact hname ▸ List.mem_cons_self
  next =>
    split at h
    next hname =>
      exact List.mem_cons_of_mem _ (List.mem_append_left _ (List.contains_iff_mem.1 hname))
    next =>
      split at h
      next hname =>
        exact List.mem_cons_of_mem _ (List.mem_append_right _ (List.contains_iff_mem.1 hname))
      next => cases h

namespace Steady

/-! ## Start tags -/

theorem insertRaw (h : Steady page root opened) (htemplate : tag.name ≠ "template")
    (content : Content) :
    Build.insertRaw tag content page =
      (.content content, (entered page root opened tag).inText page.mode) := by
  rw [Build.insertRaw, Build.run_bind, h.insertFor htemplate]
  rfl

def enteredRaw (page : Page) (root : Nat) (opened : List Opened) (tag : Tag) (framesetOk : Bool) :
    Page :=
  { (entered page root opened tag).inText page.mode with
    framesetOk
    skipLineFeed := tag.name = "textarea" || page.skipLineFeed }

theorem startPlainRaw (h : Steady page root opened) (htemplate : tag.name ≠ "template")
    (hfeed : tag.name ≠ "textarea") (content : Content) :
    Build.insertRaw tag content page =
      (.content content, enteredRaw page root opened tag page.framesetOk) := by
  rw [h.insertRaw htemplate, enteredRaw, decide_eq_false hfeed, Bool.false_or]
  rfl

theorem startTextArea (h : Steady page root opened) (hname : tag.name = "textarea") :
    Build.startInBody tag page =
      (.content (.rcdata "textarea"), enteredRaw page root opened tag false) := by
  obtain ⟨name, attributes, selfClosing⟩ := tag
  subst hname
  have hrule : Build.startInBody ⟨"textarea", attributes, selfClosing⟩ = (do
      modify fun page => { page with skipLineFeed := true, framesetOk := false }
      Build.insertRaw ⟨"textarea", attributes, selfClosing⟩ (.rcdata "textarea")) := rfl
  have hskip : Steady { page with skipLineFeed := true, framesetOk := false } root opened :=
    { h with }
  rw [hrule, Build.run_bind, Build.run_modify,
    hskip.insertRaw (show "textarea" ≠ "template" by decide)]
  rfl

theorem startExample (h : Steady page root opened) (hname : tag.name = "xmp")
    (hpath : freeOfParagraph (pathOf opened) = true) :
    Build.startInBody tag page =
      (.content (.rawtext "xmp"), enteredRaw page root opened tag false) := by
  obtain ⟨name, attributes, selfClosing⟩ := tag
  subst hname
  have hrule : Build.startInBody ⟨"xmp", attributes, selfClosing⟩ = (do
      Build.closeParagraphInScope
      Build.reconstruct
      Build.refuseFrameset
      Build.insertRaw ⟨"xmp", attributes, selfClosing⟩ (.rawtext "xmp")) := rfl
  rw [hrule, Build.run_bind, h.paragraph_of_free hpath, Build.run_bind, h.reconstruct,
    Build.run_bind, Build.run_refuseFrameset,
    h.refused.insertRaw (show "xmp" ≠ "template" by decide)]
  rfl

theorem startFrame (h : Steady page root opened) (hname : tag.name = "iframe") :
    Build.startInBody tag page =
      (.content (.rawtext "iframe"), enteredRaw page root opened tag false) := by
  obtain ⟨name, attributes, selfClosing⟩ := tag
  subst hname
  have hrule : Build.startInBody ⟨"iframe", attributes, selfClosing⟩ = (do
      Build.refuseFrameset
      Build.insertRaw ⟨"iframe", attributes, selfClosing⟩ (.rawtext "iframe")) := rfl
  rw [hrule, Build.run_bind, Build.run_refuseFrameset,
    h.refused.insertRaw (show "iframe" ≠ "template" by decide)]
  rfl

/-- The start tag of an element without markup opens it and says how its content is read. -/
theorem startInBody_of_raw (h : Steady page root opened)
    (hadmits : admitsRaw (pathOf opened) tag.name = true)
    (hraw : rawContent? tag.name = some content) :
    ∃ framesetOk, Build.startInBody tag page =
      (.content content, enteredRaw page root opened tag framesetOk) := by
  have hmem := mem_of_rawContent? hraw
  by_cases hfeed : tag.name = "textarea"
  · rw [hfeed] at hraw
    exact ⟨false, (h.startTextArea hfeed).trans (by rw [← Option.some.inj hraw])⟩
  by_cases hexample : tag.name = "xmp"
  · rw [admitsRaw, hexample] at hadmits
    rw [hexample] at hraw
    exact ⟨false, (h.startExample hexample (by simpa using hadmits)).trans
      (by rw [← Option.some.inj hraw])⟩
  by_cases hframe : tag.name = "iframe"
  · rw [hframe] at hraw
    exact ⟨false, (h.startFrame hframe).trans (by rw [← Option.some.inj hraw])⟩
  have htemplate : tag.name ≠ "template" := fun heq => absurd (heq ▸ hmem) (by decide)
  refine ⟨page.framesetOk, ?_⟩
  rw [← h.startPlainRaw htemplate hfeed content]
  obtain ⟨name, attributes, selfClosing⟩ := tag
  simp only [rcdataTags, rawtextTags, List.cons_append, List.nil_append, List.mem_cons,
    List.not_mem_nil, or_false] at hmem hfeed hexample hframe
  rcases hmem with rfl | rfl | rfl | rfl | rfl | rfl | rfl | rfl | rfl
  all_goals first
    | exact absurd rfl hfeed
    | exact absurd rfl hexample
    | exact absurd rfl hframe
    | rw [← Option.some.inj hraw]; rfl

/-! ## Tokens -/

/-- An element without markup leaves nothing but itself. -/
theorem openedBy_of_raw (hraw : rawContent? tag.name = some content) (framesetOk : Bool) :
    ({ openedBy page root opened tag framesetOk with
        skipLineFeed := tag.name = "textarea" || page.skipLineFeed } : Page).inText page.mode =
      enteredRaw page root opened tag framesetOk := by
  have hlist : ∀ n ∈ "script" :: rcdataTags ++ rawtextTags,
      isFormatting n = false ∧ markedTags.contains n = false ∧ n ≠ "form" := by decide
  obtain ⟨hformatting, hmarked, hform⟩ := hlist _ (mem_of_rawContent? hraw)
  rw [openedBy, Opened.entries, hformatting, hmarked, if_neg Bool.false_ne_true,
    if_neg Bool.false_ne_true, if_neg hform, Array.append_empty]
  rfl

/-- Behind the start tag of an element without markup, its text is read. -/
theorem take_startTag_of_raw (h : Steady page root opened)
    (hmode : (modeOf (pathOf opened)).isOfBody = true)
    (hadmits : admitsRaw (pathOf opened) tag.name = true)
    (hraw : rawContent? tag.name = some content) :
    ∃ page', Build.take (.startTag tag) page =
        (content, page'.inText (modeOf (pathOf opened))) ∧
      Reached page page' root (⟨page.forest.cells.size, tag⟩ :: opened)
        (page.forest.grow (innermost root opened)
          (.element (htmlName tag.name) tag.attributes)) ∧
      page'.skipLineFeed = decide (tag.name = "textarea") := by
  have hskip := h.withoutSkip
  have hlist : ∀ n ∈ "script" :: rcdataTags ++ rawtextTags, n ∉ cellTags ∧ n ≠ "template" := by
    decide
  obtain ⟨hcell, htemplate⟩ := hlist _ (mem_of_rawContent? hraw)
  obtain ⟨framesetOk, hstart⟩ := hskip.startInBody_of_raw hadmits hraw
  have hstep : Build.step page.mode (.startTag tag) page.withoutSkip =
      (.content content, enteredRaw page.withoutSkip root opened tag framesetOk) := by
    rw [Build.step_startTag (h.mode ▸ hmode) hcell, hstart]
  have hopened : Steady ({ openedBy page.withoutSkip root opened tag framesetOk with
      skipLineFeed := decide (tag.name = "textarea") || false } : Page) root
      (⟨page.forest.cells.size, tag⟩ :: opened) :=
    { hskip.opens htemplate framesetOk with }
  refine ⟨_, ?_, ⟨hopened, rfl, rfl⟩, Bool.or_false _⟩
  rw [Build.take_eq (Or.inl ⟨tag, rfl⟩), ← h.mode]
  exact (Build.settle_of_content (hskip.isForeign _) hstep).trans
    (congrArg (Prod.mk content) (openedBy_of_raw hraw framesetOk).symm)

theorem inText_isForeign (h : Steady page root opened) (mode : Mode) (token : Token) :
    Build.isForeign (page.inText mode) token = false := h.isForeign token

theorem appendText_inText (h : Steady page root opened) (t : Text) (mode : Mode) :
    Build.appendText t (page.inText mode) =
      ((), (page.regrown (page.forest.appendText (innermost root opened) t)
        page.framesetOk).inText mode) := by
  have hplace : Build.placeIn (page.inText mode) (page.inText mode).current =
      .lastIn (innermost root opened) := by
    have hsame := h.placeIn
    rw [Build.placeIn, h.fostering, Bool.false_and, if_neg Bool.false_ne_true] at hsame
    rw [Build.placeIn, show (page.inText mode).fostering = false from h.fostering,
      Bool.false_and, if_neg Bool.false_ne_true]
    exact hsame
  rw [Build.appendText, Build.run_bind, Build.run_get, Build.onForest, Build.run_modify, hplace]
  rfl

/-- The text of an element without markup, but for a line feed that is dropped. -/
theorem take_chars_of_raw (h : Steady page root opened) {s : Text} (hne : t ≠ [])
    (hs : (if page.skipLineFeed ∧ s.head? = some '\n' then s.drop 1 else s) = t) (mode : Mode) :
    ∃ page', Build.take (.chars s) (page.inText mode) = (.data, page'.inText mode) ∧
      Reached page page' root opened (page.forest.appendText (innermost root opened) t) ∧
      page'.skipLineFeed = false := by
  have hskip := h.withoutSkip
  have hstep : Build.step .text (.chars t) (page.withoutSkip.inText mode) =
      (.done, (page.withoutSkip.regrown (page.forest.appendText (innermost root opened) t)
        page.framesetOk).inText mode) := by
    rw [Build.step, Build.inText, Build.run_bind, hskip.appendText_inText]
    rfl
  obtain ⟨steps, hsteps⟩ : ∃ steps, Build.stepsFor page (.chars s) = steps + 1 :=
    Nat.exists_eq_add_one.2 (Nat.mul_pos (Nat.succ_pos _) (Nat.add_pos_right _ (by decide)))
  refine ⟨_, ?_, ⟨hskip.regrown (Forest.extends_appendText hskip.innermost_lt t)
    page.framesetOk, rfl, rfl⟩, rfl⟩
  rw [Build.take, Build.run_bind, Build.run_get]
  dsimp only
  rw [show (page.inText mode).skipLineFeed = page.skipLineFeed from rfl, hs, if_neg hne,
    show Build.stepsFor (page.inText mode) (.chars s) = steps + 1 from hsteps]
  exact Build.settle_of_done (hskip.inText_isForeign mode _) hstep

/-- The end tag of an element without markup closes it. -/
theorem take_endTag_of_raw (tag : Tag) (h : Steady page root (o :: opened))
    (hbased : page.isFragment = true ∨ opened ≠ [])
    (hraw : rawContent? o.tag.name = some content) :
    ∃ page', Build.take (.endTag tag) (page.inText (modeOf (pathOf opened))) =
        (if tag.name = "script" then .afterScript else .data, page') ∧
      Reached page page' root opened page.forest ∧ page'.skipLineFeed = false := by
  have hlist : ∀ n ∈ "script" :: rcdataTags ++ rawtextTags,
      isFormatting n = false ∧ markedTags.contains n = false ∧ n ≠ "form" := by decide
  obtain ⟨hformatting, hmarked, hform⟩ := hlist _ (mem_of_rawContent? hraw)
  have hentries : o.entries = [] := by
    rw [Opened.entries, hformatting, hmarked, if_neg Bool.false_ne_true,
      if_neg Bool.false_ne_true]
  -- The mode to return to stays behind, and nothing asks for it.
  have hclosed : closedBy { page.withoutSkip with returnMode := modeOf (pathOf opened) }
      opened o = { left (page.withoutSkip.inText (modeOf (pathOf opened))) with
        mode := modeOf (pathOf opened) } := by
    rw [closedBy, if_pos hentries, if_neg hform]
    rfl
  have hsteady : Steady { page.withoutSkip with returnMode := modeOf (pathOf opened) } root
      (o :: opened) := { h with }
  have hclosedSteady := hsteady.closes hbased fun heq => absurd heq hform
  rw [hclosed] at hclosedSteady
  have hforeign := h.withoutSkip.inText_isForeign (modeOf (pathOf opened)) (.endTag tag)
  refine ⟨_, ?_, ⟨hclosedSteady, rfl, rfl⟩, rfl⟩
  have hstep : Build.step .text (.endTag tag) = (do
      Build.pop
      modify fun page => { page with mode := page.returnMode }
      if tag.name = "script" then return .content .afterScript else Build.done) := rfl
  rw [Build.take_eq (Or.inr (Or.inl ⟨tag, rfl⟩))]
  split
  next hscript =>
    refine Build.settle_of_content hforeign ?_
    refine (congrFun hstep _).trans ?_
    rw [if_pos hscript]
    rfl
  next hscript =>
    refine Build.settle_of_done hforeign ?_
    refine (congrFun hstep _).trans ?_
    rw [if_neg hscript]
    rfl

end Steady

end Html

end PrettyPayload
