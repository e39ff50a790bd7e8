import PrettyPayload.Proofs.Html.Page.EndTag
import PrettyPayload.Proofs.Html.Page.StartTag

/-!
# Tokens in a body

What a token does that is taken up on a steady page in a mode of the body: the page is steady
again, with one element more or less open, and its forest has grown by the node of the token.
-/

namespace PrettyPayload

namespace Html

variable {page page' : Page} {root : Nat} {opened : List Opened} {o : Opened} {tag : Tag}
  {mode : Mode} {token : Token} {t : Text} {f : Forest}

/-! ## Definitions -/

/-- What a steady page has become: certain elements are open, and this is its forest. -/
structure Reached (page page' : Page) (root : Nat) (opened : List Opened) (f : Forest) : Prop where
  steady : Steady page' root opened
  forest : page'.forest = f
  isFragment : page'.isFragment = page.isFragment

/-- The page with every line feed kept that comes next. -/
def Page.withoutSkip (page : Page) : Page := { page with skipLineFeed := false }

/-- The parts of tables whose tags are not read by the rules for the body in a cell. -/
def cellTags : List String :=
  ["caption", "col", "colgroup", "tbody", "td", "tfoot", "th", "thead", "tr"]

/-! ## One step -/

namespace Build

theorem settle_of_done {steps : Nat} (hforeign : isForeign page token = false)
    (hstep : step page.mode token page = (.done, page')) :
    settle (steps + 1) [token] page = (.data, page') := by
  rw [settle, run_bind, run_get]
  dsimp only
  rw [hforeign, if_neg Bool.false_ne_true, run_bind, hstep]
  cases steps <;> rfl

theorem settle_of_content {steps : Nat} {content : Content}
    (hforeign : isForeign page token = false)
    (hstep : step page.mode token page = (.content content, page')) :
    settle (steps + 1) [token] page = (content, page') := by
  rw [settle, run_bind, run_get]
  dsimp only
  rw [hforeign, if_neg Bool.false_ne_true, run_bind, hstep]
  rfl

theorem take_eq (htoken : (∃ tag, token = .startTag tag) ∨ (∃ tag, token = .endTag tag) ∨
    ∃ t, token = .comment t) (page : Page) :
    take token page = settle (page.stack.size + 64) [token] page.withoutSkip := by
  rcases htoken with ⟨tag, rfl⟩ | ⟨tag, rfl⟩ | ⟨t, rfl⟩ <;>
    (rw [take, run_bind, run_get]; rfl)

theorem ne_of_not_mem {names : List String} {name n : String} (h : name ∉ names)
    (hn : n ∈ names) : name ≠ n := fun heq => h (heq ▸ hn)

theorem step_startTag (hmode : mode.isOfBody = true) (hname : tag.name ∉ cellTags) :
    step mode (.startTag tag) = startInBody tag := by
  cases mode with
  | inBody => rfl
  | inCaption =>
    have hparts : (["caption", "col", "colgroup", "tbody", "td", "tfoot", "th", "thead", "tr"] :
        List String).contains tag.name = false :=
      Bool.eq_false_iff.2 fun hmem => hname (List.contains_iff_mem.1 hmem)
    rw [step, inCaption, hparts, if_neg Bool.false_ne_true]
    rfl
  | inCell =>
    rw [step, inCell]
    split
    all_goals first
      | exact absurd ‹tag.name = _› (ne_of_not_mem hname (by decide))
      | rfl
  | _ => cases hmode

theorem step_endTag (hmode : mode.isOfBody = true)
    (hname : tag.name ∉ "body" :: "html" :: "table" :: cellTags) :
    step mode (.endTag tag) = endInBody (.endTag tag) tag.name := by
  cases mode with
  | inBody => rfl
  | inCaption =>
    rw [step, inCaption]
    dsimp only
    split
    all_goals first
      | exact absurd ‹tag.name = _› (ne_of_not_mem hname (by decide))
      | rfl
  | inCell =>
    rw [step, inCell]
    dsimp only
    split
    all_goals first
      | exact absurd ‹tag.name = _› (ne_of_not_mem hname (by decide))
      | rfl
  | _ => cases hmode

theorem step_chars (hmode : mode.isOfBody = true) (t : Text) :
    step mode (.chars t) = inBody (.chars t) := by
  cases mode with
  | inBody | inCaption | inCell => rfl
  | _ => cases hmode

theorem step_comment (hmode : mode.isOfBody = true) (t : Text) :
    step mode (.comment t) = inBody (.comment t) := by
  cases mode with
  | inBody | inCaption | inCell => rfl
  | _ => cases hmode

end Build

namespace Steady

/-! ## Tokens -/

theorem withoutSkip (h : Steady page root opened) : Steady page.withoutSkip root opened where
  mode := h.mode
  based := h.based
  fostering := h.fostering
  templateModes := h.templateModes
  tableText := h.tableText
  stack := h.stack
  formatting := h.formatting
  form := h.form
  outermost := h.outermost
  names := h.names
  distinct := h.distinct

theorem take_of_step (h : Steady page root opened)
    (htoken : (∃ tag, token = .startTag tag) ∨ (∃ tag, token = .endTag tag) ∨
      ∃ t, token = .comment t)
    (hstep : Build.step page.mode token page.withoutSkip = (.done, page')) :
    Build.take token page = (.data, page') := by
  rw [Build.take_eq htoken]
  exact Build.settle_of_done (h.withoutSkip.isForeign token) hstep

theorem take_startTag (h : Steady page root opened)
    (hmode : (modeOf (pathOf opened)).isOfBody = true)
    (hadmits : admits (pathOf opened) tag.name = true) (hvoid : roleOf? tag.name ≠ some .void) :
    ∃ page', Build.take (.startTag tag) page = (.data, page') ∧
      Reached page page' root (⟨page.forest.cells.size, tag⟩ :: opened)
        (page.forest.grow (innermost root opened)
          (.element (htmlName tag.name) tag.attributes)) ∧
      page'.skipLineFeed = lineFeedTags.contains tag.name := by
  have hskip := h.withoutSkip
  obtain ⟨framesetOk, hstart⟩ := hskip.startInBody hadmits hvoid
  obtain ⟨r, hrole⟩ : ∃ r, roleOf? tag.name = some r := by
    cases hrole : roleOf? tag.name with
    | none => simp [admits, hrole] at hadmits
    | some r => exact ⟨r, rfl⟩
  have hname : tag.name ∉ cellTags := not_mem_of_subset _ hrole (by decide)
  refine ⟨_, h.take_of_step (Or.inl ⟨tag, rfl⟩) ?_, ⟨hskip.opens (ne_template_of_roleOf? hrole)
    framesetOk, rfl, rfl⟩, Bool.or_false _⟩
  rw [Build.step_startTag (h.mode ▸ hmode) hname, hstart]

theorem take_void (h : Steady page root opened)
    (hmode : (modeOf (pathOf opened)).isOfBody = true)
    (hadmits : admits (pathOf opened) tag.name = true) (hvoid : roleOf? tag.name = some .void) :
    ∃ page', Build.take (.startTag tag) page = (.data, page') ∧
      Reached page page' root opened (page.forest.grow (innermost root opened)
        (.element (htmlName tag.name) tag.attributes)) ∧ page'.skipLineFeed = false := by
  have hskip := h.withoutSkip
  obtain ⟨framesetOk, hstart⟩ := hskip.startInBody_of_void hadmits hvoid
  have hname : tag.name ∉ cellTags := not_mem_of_subset _ hvoid (by decide)
  refine ⟨_, h.take_of_step (Or.inl ⟨tag, rfl⟩) ?_,
    ⟨hskip.regrown (Forest.extends_grow hskip.innermost_lt _) framesetOk, rfl, rfl⟩, rfl⟩
  rw [Build.step_startTag (h.mode ▸ hmode) hname, hstart]
  rfl

theorem take_endTag (tag : Tag) (h : Steady page root (o :: opened))
    (hmode : (modeOf (pathOf opened)).isOfBody = true) {r : Role}
    (hrole : roleOf? o.tag.name = some r) (hvoid : r ≠ .void)
    (hbased : page.isFragment = true ∨ opened ≠ [])
    (hform : o.tag.name = "form" → formOf opened = none) (hname : tag.name = o.tag.name) :
    ∃ page', Build.take (.endTag tag) page = (.data, page') ∧
      Reached page page' root opened page.forest ∧ page'.skipLineFeed = false := by
  have hskip := h.withoutSkip
  have hother : tag.name ∉ "body" :: "html" :: "table" :: cellTags := by
    rw [hname]
    exact not_mem_of_subset _ hrole (by decide)
  have hmode' : page.mode.isOfBody = true := by
    rw [h.mode, pathOf, List.map_cons, modeOf_cons_of_roleOf? hrole]
    exact hmode
  refine ⟨_, h.take_of_step (Or.inr (Or.inl ⟨tag, rfl⟩)) ?_, ⟨hskip.closes hbased hform, rfl, rfl⟩,
    rfl⟩
  rw [Build.step_endTag hmode' hother, hname, hskip.endInBody hrole hvoid]

theorem take_comment (h : Steady page root opened)
    (hmode : (modeOf (pathOf opened)).isOfBody = true) (t : Text) :
    ∃ page', Build.take (.comment t) page = (.data, page') ∧
      Reached page page' root opened
        (page.forest.grow (innermost root opened) (.comment t)) ∧ page'.skipLineFeed = false := by
  have hskip := h.withoutSkip
  refine ⟨_, h.take_of_step (Or.inr (Or.inr ⟨t, rfl⟩)) ?_,
    ⟨hskip.regrown (Forest.extends_grow hskip.innermost_lt _) page.framesetOk, rfl, rfl⟩, rfl⟩
  rw [Build.step_comment (h.mode ▸ hmode)]
  exact hskip.appendComment t

/-- Characters join the text in front of them, but for a line feed that is dropped. -/
theorem take_chars (h : Steady page root opened)
    (hmode : (modeOf (pathOf opened)).isOfBody = true) {s : Text} (hne : t ≠ [])
    (hs : (if page.skipLineFeed ∧ s.head? = some '\n' then s.drop 1 else s) = t) :
    ∃ page', Build.take (.chars s) page = (.data, page') ∧
      Reached page page' root opened (page.forest.appendText (innermost root opened) t) ∧
      page'.skipLineFeed = false := by
  have hskip := h.withoutSkip
  have hstep : ∃ framesetOk, Build.step page.mode (.chars t) page.withoutSkip =
      (.done, page.withoutSkip.regrown
        (page.forest.appendText (innermost root opened) t) framesetOk) := by
    rw [Build.step_chars (h.mode ▸ hmode), Build.inBody, Build.run_bind, hskip.reconstruct]
    dsimp only
    split
    · have hrefused := hskip.refused
      refine ⟨false, ?_⟩
      rw [Build.run_bind, Build.run_refuseFrameset, Build.run_bind, hrefused.appendText]
      rfl
    · refine ⟨page.framesetOk, ?_⟩
      rw [Build.run_bind, hskip.appendText]
      rfl
  obtain ⟨framesetOk, hstep⟩ := hstep
  obtain ⟨steps, hsteps⟩ : ∃ steps, Build.stepsFor page (.chars s) = steps + 1 :=
    Nat.exists_eq_add_one.2 (Nat.mul_pos (Nat.succ_pos _) (Nat.add_pos_right _ (by decide)))
  refine ⟨_, ?_, ⟨hskip.regrown (Forest.extends_appendText hskip.innermost_lt t) framesetOk, rfl,
    rfl⟩, rfl⟩
  rw [Build.take, Build.run_bind, Build.run_get]
  dsimp only
  rw [hs, if_neg hne, hsteps]
  exact Build.settle_of_done (hskip.isForeign _) hstep

end Steady

end Html

end PrettyPayload
