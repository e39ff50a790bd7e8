import PrettyPayload.Html.Document
import PrettyPayload.Proofs.Html.Forest

/-!
# Pages in the middle of a body

While the content of a fragment is read that closes every element it opens, the page is steady: it
is in the body, nothing is put in front of a table, and the formatting elements that might have to
be opened again are open. This module says what the changes that the rules are made of do to a
steady page.
-/

namespace PrettyPayload

namespace Html

/-! ## Definitions -/

/-- An open element: its handle and the tag that opened it. -/
structure Opened where
  handle : Nat
  tag : Tag
  deriving DecidableEq, Repr

def pathOf (opened : List Opened) : List String := opened.map fun o => o.tag.name

def isFormatting (name : String) : Bool :=
  formattingTags.contains name || name = "a" || name = "nobr"

/-- The elements that close the list of formatting elements off. -/
def markedTags : List String := ["applet", "marquee", "object", "caption", "td", "th"]

/-- The elements of a body whose text takes a line feed at its start along. -/
def lineFeedTags : List String := ["pre", "listing"]

def Opened.entries (o : Opened) : List Formatting :=
  if isFormatting o.tag.name then [.element o.handle o.tag]
  else if markedTags.contains o.tag.name then [.marker]
  else []

def formOf (opened : List Opened) : Option Nat :=
  (opened.find? fun o => o.tag.name = "form").map Opened.handle

def innermost (root : Nat) (opened : List Opened) : Nat :=
  (opened.head?.map Opened.handle).getD root

def innermostName (opened : List Opened) : String :=
  (opened.head?.map fun o => o.tag.name).getD "html"

def ownModes : List (String × Mode) :=
  [("head", .inHead), ("body", .inBody), ("table", .inTable), ("caption", .inCaption),
    ("colgroup", .inColumnGroup), ("tbody", .inTableBody), ("thead", .inTableBody),
    ("tfoot", .inTableBody), ("tr", .inRow), ("td", .inCell), ("th", .inCell)]

def modeOf : List String → Mode
  | [] => .inBody
  | name :: path =>
    if name = "select" then Build.selectMode (modeOf path)
    else (ownModes.lookup name).getD (modeOf path)

/-- A page between two tags, with some elements open in the outermost one, innermost first. -/
structure Steady (page : Page) (root : Nat) (opened : List Opened) : Prop where
  mode : page.mode = modeOf (pathOf opened)
  based : page.isFragment = true ∨ opened ≠ []
  fostering : page.fostering = false
  templateModes : page.templateModes = []
  tableText : page.tableText = []
  stack : page.stack.toList.reverse = opened.map Opened.handle ++ [root]
  formatting : page.formatting.toList.reverse = opened.flatMap Opened.entries
  form : page.form = formOf opened
  outermost : page.nameOf root = htmlName "html" ∧ root < page.forest.cells.size
  names : ∀ o ∈ opened, page.nameOf o.handle = htmlName o.tag.name ∧ o.tag.name ≠ "template" ∧
    o.handle < page.forest.cells.size
  distinct : (opened.map Opened.handle ++ [root]).Nodup

/-- The page with another forest, and with or without leave for a frame set. -/
def Page.regrown (page : Page) (f : Forest) (framesetOk : Bool) : Page :=
  { page with forest := f, framesetOk }

variable {page : Page} {root : Nat} {opened : List Opened} {o : Opened} {tag : Tag}
  {name : String} {names : NameSet} {f : Forest} {token : Token} {t : Text}

theorem formOf_eq_none (h : "form" ∉ pathOf opened) : formOf opened = none := by
  have hnone : opened.find? (fun o => o.tag.name = "form") = none := by
    rw [List.find?_eq_none]
    intro o ho hform
    exact h (of_decide_eq_true hform ▸ List.mem_map_of_mem ho)
  rw [formOf, hnone]
  rfl

/-! ## Running a change -/

namespace Build

variable {α β : Type}

theorem run_bind (m : Build α) (next : α → Build β) (page : Page) :
    (m >>= next) page = next (m page).1 (m page).2 := rfl

theorem run_get (page : Page) : (get : Build Page) page = (page, page) := rfl

theorem run_pure (a : α) (page : Page) : (pure a : Build α) page = (a, page) := rfl

theorem run_modify (change : Page → Page) (page : Page) :
    (modify change : Build Unit) page = ((), change page) := rfl

theorem run_refuseFrameset (page : Page) :
    refuseFrameset page = ((), page.regrown page.forest false) := rfl

end Build

/-! ## Steady pages -/

def Forest.Extends (g f : Forest) : Prop :=
  f.cells.size ≤ g.cells.size ∧ ∀ k, k < f.cells.size → g.name k = f.name k

theorem Forest.extends_of_node {f g : Forest} (hsize : f.cells.size ≤ g.cells.size)
    (hnode : ∀ k, k < f.cells.size → g.node? k = f.node? k) : g.Extends f :=
  ⟨hsize, fun k hk => by rw [Forest.name, hnode k hk, Forest.name]⟩

theorem Forest.extends_create (f : Forest) (v : Node) : (f.create v).2.Extends f := by
  refine extends_of_node (by simp [Forest.create]) ?_
  intro k hk
  have hlast : ¬k = f.cells.size := Nat.ne_of_lt hk
  simp [Forest.create, Forest.node?, Array.getElem?_push, hlast]

theorem Forest.extends_grow {parent : Nat} (hparent : parent < f.cells.size) (v : Node) :
    (f.grow parent v).Extends f := by
  obtain ⟨hsize, -, -, hsame⟩ := Forest.views_grow hparent v
  exact extends_of_node (by omega) fun k hk => (hsame k hk).1

theorem Forest.extends_extendText (f : Forest) (h : Nat) (t : Text) :
    (f.extendText h t).Extends f := by
  refine ⟨by simp [extendText, modify], ?_⟩
  intro k hk
  rw [name, name, node?, node?, extendText, modify, Array.getElem?_modify]
  by_cases hsame : h = k
  · rw [if_pos hsame, Array.getElem?_eq_getElem hk, Option.map_some, Option.map_some,
      Option.map_some]
    cases hnode : f.cells[k].node <;> simp only [hnode]
  · rw [if_neg hsame]

theorem Forest.extends_appendText {parent : Nat} (hparent : parent < f.cells.size) (t : Text) :
    (f.appendText parent t).Extends f := by
  rw [appendText]
  split
  · split
    · exact f.extends_extendText _ t
    · exact Forest.extends_grow hparent (.text t)
  · exact Forest.extends_grow hparent (.text t)

namespace Steady

theorem regrown (h : Steady page root opened) (hf : f.Extends page.forest) (framesetOk : Bool) :
    Steady (page.regrown f framesetOk) root opened where
  mode := h.mode
  based := h.based
  fostering := h.fostering
  templateModes := h.templateModes
  tableText := h.tableText
  stack := h.stack
  formatting := h.formatting
  form := h.form
  outermost :=
    ⟨(hf.2 root h.outermost.2).trans h.outermost.1, Nat.lt_of_lt_of_le h.outermost.2 hf.1⟩
  names o ho :=
    have ⟨hname, htemplate, hlt⟩ := h.names o ho
    ⟨(hf.2 _ hlt).trans hname, htemplate, Nat.lt_of_lt_of_le hlt hf.1⟩
  distinct := h.distinct

theorem current (h : Steady page root opened) : page.current = innermost root opened := by
  have hback : page.stack.back? = (opened.map Opened.handle ++ [root]).head? := by
    rw [← h.stack, List.head?_reverse, Array.getLast?_toList]
  rw [Page.current, hback, innermost]
  cases opened <;> rfl

theorem innermost_lt (h : Steady page root opened) :
    innermost root opened < page.forest.cells.size := by
  cases opened with
  | nil => exact h.outermost.2
  | cons o opened => exact (h.names o List.mem_cons_self).2.2

theorem nameOf_innermost (h : Steady page root opened) :
    page.nameOf (innermost root opened) = htmlName (innermostName opened) := by
  cases opened with
  | nil => exact h.outermost.1
  | cons o opened => exact (h.names o List.mem_cons_self).1

theorem nameOf_current (h : Steady page root opened) :
    page.nameOf page.current = htmlName (innermostName opened) := by
  rw [h.current, h.nameOf_innermost]

theorem innermostName_ne_template (h : Steady page root opened) :
    innermostName opened ≠ "template" := by
  cases opened with
  | nil => decide
  | cons o opened => exact (h.names o List.mem_cons_self).2.1

theorem space_adjustedName (h : Steady page root opened) : page.adjustedName.space = .html := by
  rw [Page.adjustedName]
  split
  · rfl
  · rw [h.nameOf_current]
    rfl

theorem contentRules (h : Steady page root opened) :
    page.contentRules = ⟨false, (modeOf (pathOf opened)).isOfTable⟩ := by
  rw [Page.contentRules, h.space_adjustedName, h.mode]
  simp

theorem isForeign (h : Steady page root opened) (token : Token) :
    Build.isForeign page token = false := by
  have hspace := h.space_adjustedName
  unfold Build.isForeign
  cases token <;> simp [hspace]

/-! ## New nodes -/

theorem placeIn (h : Steady page root opened) :
    Build.placeIn page page.current = .lastIn (innermost root opened) := by
  have hname : ¬htmlName (innermostName opened) = htmlName "template" :=
    fun heq => h.innermostName_ne_template (congrArg Name.localName heq)
  rw [Build.placeIn, h.fostering, Bool.false_and, if_neg Bool.false_ne_true, Build.endOf,
    h.nameOf_current, if_neg hname, h.current]

theorem put_create (h : Steady page root opened) (v : Node) :
    Build.put (Build.placeIn (page.regrown (page.forest.create v).2 page.framesetOk)
        (page.regrown (page.forest.create v).2 page.framesetOk).current) page.forest.cells.size
        (page.regrown (page.forest.create v).2 page.framesetOk) =
      ((), page.regrown (page.forest.grow (innermost root opened) v) page.framesetOk) := by
  rw [(h.regrown (page.forest.extends_create v) page.framesetOk).placeIn]
  rfl

theorem appendComment (h : Steady page root opened) (t : Text) :
    Build.appendComment t page =
      (.done, page.regrown (page.forest.grow (innermost root opened) (.comment t))
        page.framesetOk) := by
  have hput := h.put_create (.comment t)
  exact congrArg (fun r : Unit × Page => (Step.done, r.2)) hput

theorem appendText (h : Steady page root opened) (t : Text) :
    Build.appendText t page =
      ((), page.regrown (page.forest.appendText (innermost root opened) t) page.framesetOk) := by
  rw [Build.appendText, Build.run_bind, Build.run_get, Build.onForest, Build.run_modify, h.placeIn]
  rfl

theorem insertClosed (h : Steady page root opened) (hname : name ≠ "template")
    (attributes : List (String × Text)) :
    Build.insertClosed (htmlName name) attributes page =
      (page.forest.cells.size,
        page.regrown
          (page.forest.grow (innermost root opened) (.element (htmlName name) attributes))
          page.framesetOk) := by
  have hne : ¬htmlName name = htmlName "template" := fun heq => hname (congrArg Name.localName heq)
  have hcreate : Build.createElement (htmlName name) attributes page =
      (page.forest.cells.size,
        page.regrown (page.forest.create (.element (htmlName name) attributes)).2
          page.framesetOk) := by
    rw [Build.createElement, Build.run_bind, if_neg hne]
    rfl
  have hput := h.put_create (.element (htmlName name) attributes)
  rw [Build.insertClosed, Build.run_bind, hcreate, Build.run_bind, Build.run_get,
    Build.run_bind, hput, Build.run_pure]

theorem insertVoid (h : Steady page root opened) (hname : tag.name ≠ "template") :
    Build.insertVoid tag page =
      (page.forest.cells.size,
        page.regrown (page.forest.grow (innermost root opened)
          (.element (htmlName tag.name) tag.attributes)) page.framesetOk) :=
  h.insertClosed hname tag.attributes

def entered (page : Page) (root : Nat) (opened : List Opened) (tag : Tag) : Page :=
  { page with
    forest := page.forest.grow (innermost root opened) (.element (htmlName tag.name) tag.attributes)
    stack := page.stack.push page.forest.cells.size }

theorem insertFor (h : Steady page root opened) (hname : tag.name ≠ "template") :
    Build.insertFor tag page = (page.forest.cells.size, entered page root opened tag) := by
  rw [Build.insertFor, Build.insertOpen, Build.run_bind, h.insertClosed hname]
  rfl

/-! ## The open elements -/

/-- Whether one of some names is found in a path before the end of a scope. -/
def reaches (scope : NameSet) (names : List String) : List String → Bool
  | [] => false
  | n :: path => names.contains n || (!scope (htmlName n) && reaches scope names path)

theorem reaches_of_not_mem {scope : NameSet} {path : List String} (h : name ∉ path) :
    reaches scope [name] path = false := by
  induction path with
  | nil => rfl
  | cons n path ih =>
    rw [List.mem_cons, not_or] at h
    rw [reaches, ih h.2, Bool.and_false, Bool.or_false, List.contains_eq_mem]
    simpa using Ne.symm h.1

theorem currentIs (h : Steady page root opened) (name : String) :
    page.currentIs name = decide (innermostName opened = name) := by
  rw [Page.currentIs, h.nameOf_current]
  simp [htmlName]

theorem ofHtml_htmlName (names : List String) (n : String) :
    NameSet.ofHtml names (htmlName n) = names.contains n := by
  simp [NameSet.ofHtml, htmlName]

theorem inScopeNamed (h : Steady page root opened) (scope : NameSet) {names : List String}
    (hnames : names.contains "html" = false) :
    page.inScopeNamed scope names = reaches scope names (pathOf opened) := by
  have hroot : "html" ∉ names := by simpa using hnames
  have hsearch : ∀ more : List Opened, (∀ o ∈ more, page.nameOf o.handle = htmlName o.tag.name) →
      page.searchScope scope (fun k => NameSet.ofHtml names (page.nameOf k))
        (more.map Opened.handle ++ [root]) = reaches scope names (pathOf more) := by
    intro more
    induction more with
    | nil =>
      intro _
      simp [Page.searchScope, h.outermost.1, ofHtml_htmlName, hroot, pathOf, reaches]
    | cons o more ih =>
      intro hmore
      rw [List.forall_mem_cons] at hmore
      rw [List.map_cons, List.cons_append, Page.searchScope, ih hmore.2, hmore.1,
        ofHtml_htmlName]
      rfl
  rw [Page.inScopeNamed, Page.inScope, h.stack]
  exact hsearch opened fun o ho => (h.names o ho).1

theorem hasOpen_template (h : Steady page root opened) : page.hasOpen "template" = false := by
  have hstack : page.stack.any (fun k => page.nameOf k = htmlName "template") =
      (opened.map Opened.handle ++ [root]).any fun k =>
        page.nameOf k = htmlName "template" := by
    rw [← h.stack, List.any_reverse, Array.any_toList]
  rw [Page.hasOpen, hstack, List.any_eq_false]
  intro k hk
  rw [decide_eq_true_eq]
  rcases List.mem_append.1 hk with hk | hk
  · obtain ⟨o, ho, rfl⟩ := List.mem_map.1 hk
    rw [(h.names o ho).1]
    exact fun heq => (h.names o ho).2.1 (congrArg Name.localName heq)
  · rw [List.mem_singleton.1 hk, h.outermost.1]
    decide

/-- Nothing is closed where the innermost element is to stay. -/
theorem popWhile (h : Steady page root opened)
    (hnames : names (htmlName (innermostName opened)) = false) :
    Build.popWhile names page = ((), page) := by
  have hdrop : page.stack.toList.reverse.dropWhile (fun k => names (page.nameOf k)) =
      page.stack.toList.reverse := by
    have hname := h.nameOf_innermost
    rw [h.stack]
    cases opened with
    | nil =>
      refine List.dropWhile_cons_of_neg ?_
      rw [show page.nameOf root = _ from hname, hnames]
      exact Bool.false_ne_true
    | cons o opened =>
      refine List.dropWhile_cons_of_neg ?_
      rw [show page.nameOf o.handle = _ from hname, hnames]
      exact Bool.false_ne_true
  rw [Build.popWhile, Build.run_modify, hdrop, List.reverse_reverse, Array.toArray_toList]

theorem closeImplied (h : Steady page root opened)
    (hname : impliedEnd (htmlName (innermostName opened)) = false) :
    Build.closeImplied page = ((), page) := h.popWhile hname

theorem closeImpliedExcept (h : Steady page root (o :: opened)) :
    Build.closeImpliedExcept o.tag.name page = ((), page) :=
  h.popWhile (by simp [innermostName])

def left (page : Page) : Page := { page with stack := page.stack.pop }

theorem reverse_pop (stack : Array Nat) : stack.pop.toList.reverse = stack.toList.reverse.tail := by
  rw [Array.toList_pop, List.tail_reverse]

theorem popUntil (h : Steady page root (o :: opened))
    (hnames : names (htmlName o.tag.name) = true) :
    Build.popUntil names page = ((), left page) := by
  have hname := (h.names o List.mem_cons_self).1
  have hstack : Build.withoutUpTo page names page.stack.toList.reverse =
      page.stack.pop.toList.reverse := by
    rw [reverse_pop, h.stack, List.map_cons, List.cons_append, Build.withoutUpTo, hname, hnames]
    rfl
  rw [Build.popUntil, Build.run_modify, hstack, List.reverse_reverse, Array.toArray_toList, left]

theorem popUntilNamed (h : Steady page root (o :: opened)) :
    Build.popUntilNamed o.tag.name page = ((), left page) :=
  h.popUntil (by simp)

theorem closeParagraphInScope (h : Steady page root opened)
    (hpath : reaches buttonScope ["p"] (pathOf opened) = false) :
    Build.closeParagraphInScope page = ((), page) := by
  rw [Build.closeParagraphInScope, Build.run_bind, Build.run_get,
    h.inScopeNamed buttonScope (by decide), hpath, if_neg Bool.false_ne_true, Build.run_pure]

/-- The innermost element is closed by an end tag without a rule of its own. -/
theorem endOther (h : Steady page root (o :: opened)) :
    Build.endOther o.tag.name page = ((), left page) := by
  have hname := (h.names o List.mem_cons_self).1
  have hmatch : Build.matchingOpen? page o.tag.name page.stack.toList.reverse =
      some (page.stack.size - 1) := by
    have hsize : page.stack.toList.reverse.length = page.stack.size := by simp
    rw [h.stack] at hsize ⊢
    rw [List.map_cons, List.cons_append, Build.matchingOpen?, hname, if_pos rfl, ← hsize]
    rfl
  rw [Build.endOther, Build.run_bind, Build.run_get, hmatch]
  dsimp only
  rw [Build.run_bind, h.closeImpliedExcept, Build.run_modify, left, Array.extract_eq_pop]
  simp

/-! ## Formatting elements -/

/-- Every entry of the list of formatting elements is a marker or open. -/
theorem isSettled (h : Steady page root opened) {entry : Formatting}
    (hentry : entry ∈ opened.flatMap Opened.entries) : Build.isSettled page entry = true := by
  obtain ⟨o, ho, hentry⟩ := List.mem_flatMap.1 hentry
  have hopen : page.stack.contains o.handle = true := by
    rw [Array.contains_iff_mem, ← Array.mem_toList_iff, ← List.mem_reverse, h.stack]
    exact List.mem_append_left _ (List.mem_map_of_mem ho)
  unfold Opened.entries at hentry
  split at hentry
  · rw [List.mem_singleton.1 hentry, Build.isSettled, hopen]
  · split at hentry
    · rw [List.mem_singleton.1 hentry, Build.isSettled]
    · exact absurd hentry List.not_mem_nil

theorem reconstruct (h : Steady page root opened) : Build.reconstruct page = ((), page) := by
  have hnone : page.formatting.toList.zipIdx.reverse.takeWhile
      (fun entry => !Build.isSettled page entry.1) = [] := by
    cases hlast : page.formatting.toList.zipIdx.reverse with
    | nil => rfl
    | cons entry entries =>
      refine List.takeWhile_cons_of_neg ?_
      have hmem : entry ∈ page.formatting.toList.zipIdx :=
        List.mem_reverse.1 (hlast ▸ List.mem_cons_self)
      have hentry : entry.1 ∈ opened.flatMap Opened.entries := by
        rw [← h.formatting, List.mem_reverse]
        exact List.fst_mem_of_mem_zipIdx hmem
      rw [h.isSettled hentry]
      exact Bool.false_ne_true
  have hrun : Build.reconstruct page = Build.reopenFrom
      (page.formatting.toList.zipIdx.reverse.takeWhile
        fun entry => !Build.isSettled page entry.1).reverse page := rfl
  rw [hrun, hnone]
  rfl

/-! ## Opening and closing -/

def openedBy (page : Page) (root : Nat) (opened : List Opened) (tag : Tag) (framesetOk : Bool) :
    Page :=
  { entered page root opened tag with
    mode := modeOf (tag.name :: pathOf opened)
    formatting := page.formatting ++ (Opened.entries ⟨page.forest.cells.size, tag⟩).toArray
    form := if tag.name = "form" then some page.forest.cells.size else page.form
    framesetOk
    skipLineFeed := lineFeedTags.contains tag.name || page.skipLineFeed }

/-- The page behind the end tag of the innermost open element, with the others that are open. -/
def closedBy (page : Page) (opened : List Opened) (o : Opened) : Page :=
  { left page with
    mode := modeOf (pathOf opened)
    formatting := if o.entries = [] then page.formatting else page.formatting.pop
    form := if o.tag.name = "form" then none else page.form }

theorem entries_eq (o : Opened) : o.entries = [] ∨ ∃ entry, o.entries = [entry] := by
  unfold Opened.entries
  split
  · exact Or.inr ⟨_, rfl⟩
  · split
    · exact Or.inr ⟨_, rfl⟩
    · exact Or.inl rfl

theorem opens (h : Steady page root opened) (hname : tag.name ≠ "template")
    (framesetOk : Bool) :
    Steady (openedBy page root opened tag framesetOk) root
      (⟨page.forest.cells.size, tag⟩ :: opened) := by
  have hgrown := h.regrown (Forest.extends_grow h.innermost_lt
    (.element (htmlName tag.name) tag.attributes)) framesetOk
  obtain ⟨hsize, hnode, -, -⟩ := Forest.views_grow h.innermost_lt
    (.element (htmlName tag.name) tag.attributes)
  refine ⟨rfl, Or.inr (List.cons_ne_nil _ _), h.fostering, h.templateModes, h.tableText, ?_, ?_,
    ?_, hgrown.outermost, List.forall_mem_cons.2 ⟨⟨?_, hname, ?_⟩, hgrown.names⟩, ?_⟩
  · rw [openedBy, entered, Array.toList_push, List.reverse_concat, h.stack]
    rfl
  · rw [openedBy, Array.toList_append, List.reverse_append, h.formatting, List.flatMap_cons]
    rcases entries_eq ⟨page.forest.cells.size, tag⟩ with hentries | ⟨entry, hentries⟩ <;>
      rw [hentries] <;> rfl
  · rw [openedBy, formOf, List.find?_cons]
    by_cases hform : tag.name = "form"
    · simp [hform]
    · simp [hform, h.form, formOf]
  · change Forest.name (page.forest.grow _ _) page.forest.cells.size = _
    rw [Forest.name, hnode]
  · change page.forest.cells.size < (page.forest.grow _ _).cells.size
    omega
  · refine List.nodup_cons.2 ⟨?_, h.distinct⟩
    intro hmem
    rcases List.mem_append.1 hmem with hmem | hmem
    · obtain ⟨o, ho, heq⟩ := List.mem_map.1 hmem
      exact absurd (h.names o ho).2.2 (Nat.not_lt_of_ge (Nat.le_of_eq heq.symm))
    · exact absurd h.outermost.2 (Nat.not_lt_of_ge (Nat.le_of_eq (List.mem_singleton.1 hmem)))

theorem closes (h : Steady page root (o :: opened))
    (hbased : page.isFragment = true ∨ opened ≠ [])
    (hform : o.tag.name = "form" → formOf opened = none) :
    Steady (closedBy page opened o) root opened := by
  refine ⟨rfl, hbased, h.fostering, h.templateModes, h.tableText, ?_, ?_, ?_, h.outermost,
    fun k hk => h.names k (List.mem_cons_of_mem o hk), (List.nodup_cons.1 h.distinct).2⟩
  · have hstack := reverse_pop page.stack
    rw [h.stack] at hstack
    exact hstack
  · have hformatting := h.formatting
    rw [List.flatMap_cons] at hformatting
    rw [closedBy]
    rcases entries_eq o with hentries | ⟨entry, hentries⟩
    · rw [hentries] at hformatting
      rw [if_pos hentries]
      exact hformatting
    · rw [hentries] at hformatting
      rw [if_neg (hentries ▸ List.cons_ne_nil _ _), Array.toList_pop, ← List.tail_reverse,
        hformatting]
      rfl
  · rw [closedBy]
    have hfound := h.form
    rw [formOf, List.find?_cons] at hfound
    by_cases hname : o.tag.name = "form"
    · rw [if_pos hname, hform hname]
    · rw [if_neg hname, hfound]
      simp [hname, formOf]

end Steady

end Html

end PrettyPayload
