import PrettyPayload.Proofs.Markup.StylePass
import PrettyPayload.Proofs.Markup.Targets

/-!
# Stylesheets at their places

The pass over the style elements of a document replaces the children of one element after the
other. Its targets are looked up once and the rest is read off the document as it goes on, so what
counts is that a step leaves alone what later steps read: the text of every other element, and the
depth of every node that is not below the element (`Restyled`). Where no style element is below
another, each of them is therefore written as if it were the only one, and nothing else changes, to
the end of the pass or to the first stylesheet that is not read (`reindentStyles_frame`).
-/

namespace PrettyPayload

namespace Css

variable {indent : Text}

theorem Item.exists_line_ne_nil (indent : Text) (level : Nat) (item : Item) :
    ∃ line ∈ item.lines indent level, line ≠ [] := by
  cases item with
  | declaration d => exact ⟨_, List.mem_singleton_self _, by simp⟩
  | statement name prelude => exact ⟨_, List.mem_singleton_self _, by simp⟩
  | block head body =>
    cases body with
    | nil => exact ⟨_, List.mem_singleton_self _, by simp⟩
    | cons item items => exact ⟨_, List.mem_cons_self, by simp⟩

theorem Stylesheet.pretty_eq_nil_iff {sheet : Stylesheet} :
    sheet.pretty indent = [] ↔ sheet.rules = [] := by
  rw [Stylesheet.pretty]
  cases sheet.rules with
  | nil => simp [Item.linesOfAll]
  | cons item items =>
    obtain ⟨line, hmem, hne⟩ := item.exists_line_ne_nil indent 0
    have hinfix := Text.infix_joinWith ['\n']
      (List.mem_append_left (Item.linesOfAll indent 0 items) hmem)
    refine iff_of_false (fun hnil => hne ?_) (List.cons_ne_nil item items)
    rw [Item.linesOfAll] at hnil
    rwa [hnil, List.infix_nil] at hinfix

end Css

namespace Markup

namespace Document

variable {d d' : Document} {h k n : Nat} {hs : List Nat} {inner outer : Text} {fault : Css.Error}

/-! ## Definitions -/

def reindentOne (inner outer : Text) (d : Document) (h : Nat) : Except Css.Error Document :=
  (Css.parseStylesheet (d.childText h)).map fun sheet =>
    d.replaceChildren h
      (.css (styleBlock (Text.times (d.depth h + 1) outer) (sheet.pretty inner)))

/-- In the second document a node of the first one has one child, with the stylesheet that was read
from its children: nothing if there are no rules, and else the lines of the stylesheet between two
line feeds, each line that is not empty behind the indent of what is in the node. -/
def Reindented (inner outer : Text) (d : Document) (h : Nat) (d' : Document) : Prop :=
  ∃ sheet c t, Css.parseStylesheet (d.childText h) = .ok sheet ∧
    d'.children h = [c] ∧ d'.parent? c = some h ∧ d'.node? c = some (.css t) ∧
      d'.children c = [] ∧ t = if sheet.rules = [] then [] else
        '\n' :: Text.joinWith ['\n'] ((Text.lines (sheet.pretty inner)).map fun line =>
          if line = [] then [] else Text.times (d.depth h + 1) outer ++ line) ++ ['\n']

/-- In the second document a node has the value, the parent, the siblings and the depth that it has
in the first one. -/
structure Stays (d : Document) (k : Nat) (d' : Document) : Prop where
  node?_eq : d'.node? k = d.node? k
  parent?_eq : d'.parent? k = d.parent? k
  siblings_eq : ∀ p, d.parent? k = some p → d'.children p = d.children p
  depth_eq : d'.depth k = d.depth k

/-- The second document is the first one with the stylesheets of the given nodes written anew. -/
structure Restyled (inner outer : Text) (d : Document) (hs : List Nat) (d' : Document) :
    Prop where
  /-- Each of the nodes has a new node for its only child, with the stylesheet that was read from
  its children. It is indented by the depth that the node has when its turn comes. -/
  rewritten : ∀ h ∈ hs, ∃ sheet c depth, Css.parseStylesheet (d.childText h) = .ok sheet ∧
    d'.children h = [c] ∧
      d'.node? c = some (.css (styleBlock (Text.times (depth + 1) outer) (sheet.pretty inner))) ∧
        d'.children c = [] ∧ ((∀ k ∈ hs, k ∉ d.ancestors h) → depth = d.depth h)
  /-- No value changes. -/
  node?_eq : ∀ k < d.cells.size, d'.node? k = d.node? k
  /-- Every other node has the children that it had. -/
  children_eq : ∀ k < d.cells.size, k ∉ hs → d'.children k = d.children k
  /-- Every node that is not below one of the given ones is where it was. -/
  ancestors_eq : ∀ k < d.cells.size, (∀ h ∈ hs, h ∉ d.ancestors k) →
    d'.ancestors k = d.ancestors k
  flavor_eq : d'.flavor = d.flavor
  linked : d'.Linked

/-! ## Single elements -/

theorem reindentEach_eq (d : Document) (hs : List Nat) :
    d.reindentEach inner outer hs = d.rewriteEach (reindentOne inner outer) hs := by
  induction hs generalizing d with
  | nil => rfl
  | cons h hs ih =>
    rw [reindentEach, rewriteEach, reindentOne]
    cases hsheet : Css.parseStylesheet (d.childText h) with
    | error fault => simp only [Except.map]
    | ok sheet => simp only [Except.map, ih]

theorem reindentOne_eq_ok_iff :
    d.reindentOne inner outer h = .ok d' ↔
      ∃ sheet, Css.parseStylesheet (d.childText h) = .ok sheet ∧
        d.replaceChildren h
          (.css (styleBlock (Text.times (d.depth h + 1) outer) (sheet.pretty inner))) = d' :=
  map_eq_ok_iff

theorem reindentOne_eq_error_iff :
    d.reindentOne inner outer h = .error fault ↔
      Css.parseStylesheet (d.childText h) = .error fault :=
  map_eq_error_iff

theorem Linked.ancestors_replaceChildren (hd : d.Linked) (hk : k < d.cells.size)
    (hnot : h ∉ d.ancestors k) (node : Node) :
    (d.replaceChildren h node).ancestors k = d.ancestors k := by
  by_cases hh : h < d.cells.size
  · refine ancestors_congr fun j hj => ?_
    have hjk := le_of_mem_cons_ancestors hj
    have hchild : j ∉ d.children h := fun hmem =>
      hnot (mem_ancestors_iff.2 ⟨j, hj, (hd.mem_children_iff h j).1 hmem⟩)
    rw [parent?_replaceChildren hh, if_neg (Nat.ne_of_lt (Nat.lt_of_le_of_lt hjk hk)),
      if_neg hchild]
  · rw [replaceChildren_of_le (Nat.le_of_not_lt hh)]

/-! ## Passes -/

theorem reindentStyles_eq_ok_iff :
    d.reindentStyles inner outer = (d', .ok n) ↔
      d.rewriteEach (reindentOne inner outer) d.styleElements = (d', .ok ()) ∧
        n = d.styleElements.length := by
  rw [← reindentEach_eq]
  exact counted_eq_ok_iff

theorem reindentStyles_eq_error_iff :
    d.reindentStyles inner outer = (d', .error fault) ↔
      d.rewriteEach (reindentOne inner outer) d.styleElements = (d', .error fault) := by
  rw [← reindentEach_eq]
  exact counted_eq_error_iff

/-- A pass to the end. The induction is on the nodes that it goes through. None of them comes twice,
so each has the children that it had at first when its turn comes, and of the new nodes none is
touched again. -/
theorem restyled_of_run (hd : d.Linked) (hnodup : hs.Nodup) (hlt : ∀ h ∈ hs, h < d.cells.size)
    (hrun : d.rewriteEach (reindentOne inner outer) hs = (d', .ok ())) :
    d.Restyled inner outer hs d' := by
  induction hs generalizing d with
  | nil =>
    obtain rfl := rewriteEach_nil_eq_ok.1 hrun
    exact ⟨nofun, fun _ _ => rfl, fun _ _ _ => rfl, fun _ _ _ => rfl, rfl, hd⟩
  | cons h hs ih =>
    obtain ⟨hnot, hnodup⟩ := List.nodup_cons.1 hnodup
    obtain ⟨hh, hlt⟩ := List.forall_mem_cons.1 hlt
    obtain ⟨d₁, hstep, hrun⟩ := rewriteEach_cons_eq_ok.1 hrun
    obtain ⟨sheet, hsheet, rfl⟩ := reindentOne_eq_ok_iff.1 hstep
    generalize hcss : styleBlock (Text.times (d.depth h + 1) outer) (sheet.pretty inner) = css
      at hrun
    have hsize := size_replaceChildren hh (.css css)
    have hgrow {k : Nat} (hk : k < d.cells.size) :
        k < (d.replaceChildren h (.css css)).cells.size := hsize ▸ Nat.lt_succ_of_lt hk
    have hne (k : Nat) (hk : k ∈ hs) : k ≠ h := fun heq => hnot (heq ▸ hk)
    have hnew : d.cells.size ∉ hs := fun hmem => Nat.lt_irrefl _ (hlt _ hmem)
    have hrest := ih (hd.replaceChildren h (.css css)) hnodup (fun k hk => hgrow (hlt k hk)) hrun
    have hancestors (k : Nat) (hk : k < d.cells.size) (habove : h ∉ d.ancestors k) :
        (d.replaceChildren h (.css css)).ancestors k = d.ancestors k :=
      hd.ancestors_replaceChildren hk habove _
    constructor
    case rewritten =>
      refine List.forall_mem_cons.2 ⟨⟨sheet, d.cells.size, d.depth h, hsheet, ?_, ?_, ?_,
        fun _ => rfl⟩, fun k hk => ?_⟩
      · rw [hrest.children_eq h (hgrow hh) hnot, children_replaceChildren hh, if_pos rfl]
      · rw [hrest.node?_eq _ (hsize ▸ Nat.lt_succ_self _), node?_replaceChildren hh, if_pos rfl,
          hcss]
      · rw [hrest.children_eq _ (hsize ▸ Nat.lt_succ_self _) hnew, children_replaceChildren hh,
          if_neg (Nat.ne_of_lt hh), children_eq_nil (Nat.le_refl _)]
      · obtain ⟨sheet', c, depth, hsheet', hchildren, hnode, hnil, hdepth⟩ := hrest.rewritten k hk
        rw [childText_replaceChildren_of_ne (hne k hk).symm] at hsheet'
        refine ⟨sheet', c, depth, hsheet', hchildren, hnode, hnil, fun habove => ?_⟩
        obtain ⟨hfirst, habove⟩ := List.forall_mem_cons.1 habove
        have hsame := hancestors k (hlt k hk) hfirst
        rw [hdepth (hsame ▸ habove), Document.depth, hsame, Document.depth]
    case node?_eq =>
      intro k hk
      rw [hrest.node?_eq k (hgrow hk), node?_replaceChildren hh, if_neg (Nat.ne_of_lt hk)]
    case children_eq =>
      intro k hk hmem
      obtain ⟨hkh, hmem⟩ := List.ne_and_not_mem_of_not_mem_cons hmem
      rw [hrest.children_eq k (hgrow hk) hmem, children_replaceChildren hh, if_neg hkh.symm]
    case ancestors_eq =>
      intro k hk habove
      obtain ⟨hfirst, habove⟩ := List.forall_mem_cons.1 habove
      have hsame := hancestors k hk hfirst
      rw [hrest.ancestors_eq k (hgrow hk) (hsame ▸ habove), hsame]
    case flavor_eq => exact hrest.flavor_eq.trans (d.flavor_replaceChildren h _)
    case linked => exact hrest.linked

/-- Where none of the given nodes is below another, each of them is written at its own depth. -/
theorem Restyled.reindented (hr : d.Restyled inner outer hs d')
    (hflat : ∀ k ∈ hs, k ∉ d.ancestors h) (hh : h ∈ hs) : d.Reindented inner outer h d' := by
  obtain ⟨sheet, c, depth, hsheet, hchildren, hnode, hnil, hdepth⟩ := hr.rewritten h hh
  have hparent := (hr.linked.mem_children_iff h c).1 (hchildren ▸ List.mem_cons_self)
  refine ⟨sheet, c, _, hsheet, hchildren, hparent, hnode, hnil, ?_⟩
  rw [hdepth hflat, styleBlock, if_congr Css.Stylesheet.pretty_eq_nil_iff rfl rfl]

/-- A node that is not below the given ones stays. -/
theorem Restyled.stays (hr : d.Restyled inner outer hs d') (hk : k < d.cells.size)
    (habove : ∀ h ∈ hs, h ∉ d.ancestors k) : d.Stays k d' := by
  have hsame := hr.ancestors_eq k hk habove
  constructor
  case node?_eq => exact hr.node?_eq k hk
  case parent?_eq => rw [← head?_ancestors, hsame, head?_ancestors]
  case siblings_eq =>
    intro p hparent
    have hp : p ∈ d.ancestors k := ancestors_of_some hparent ▸ List.mem_cons_self
    exact hr.children_eq p (Nat.lt_trans (lt_of_parent? hparent) hk) fun hmem => habove p hmem hp
  case depth_eq => rw [depth, hsame, depth]

/-- Below and at a node that none of the given ones is below or at the tree is as it was. -/
theorem Restyled.treeAt_eq (hr : d.Restyled inner outer hs d') (hd : d.Linked)
    (hh : h < d.cells.size) (hbelow : ∀ k ∈ hs, h ∉ k :: d.ancestors k) :
    d'.treeAt h = d.treeAt h := by
  refine hd.treeAt_congr_below h fun k hk => ?_
  have hlt := lt_size_of_mem_cons_ancestors hk hh
  exact ⟨hr.node?_eq k hlt, hr.children_eq k hlt fun hmem => hbelow k hmem hk⟩

theorem Restyled.childText_eq (hr : d.Restyled inner outer hs d') (hh : h < d.cells.size)
    (hnot : h ∉ hs) : d'.childText h = d.childText h := by
  rw [childText, childText, hr.children_eq h hh hnot]
  exact List.flatMap_congr fun c hc => by rw [hr.node?_eq c (lt_of_mem_children hc).2]

theorem Linked.restyled_of_reindentStyles (hd : d.Linked)
    (hrun : d.reindentStyles inner outer = (d', .ok n)) :
    d.Restyled inner outer d.styleElements d' :=
  restyled_of_run hd (hd.lists_elementsWhere _).nodup (fun _ => (hd.lists_elementsWhere _).lt)
    (reindentStyles_eq_ok_iff.1 hrun).1

theorem Linked.restyled_of_fault (hd : d.Linked)
    (hrun : d.reindentStyles inner outer = (d', .error fault)) :
    ∃ before h behind, d.styleElements = before ++ h :: behind ∧
      Css.parseStylesheet (d.childText h) = .error fault ∧ d.Restyled inner outer before d' := by
  obtain ⟨before, h, behind, hsplit, hbefore, hstop⟩ :=
    rewriteEach_eq_error (reindentStyles_eq_error_iff.1 hrun)
  have hlists : d.Lists Element.isStyle d.styleElements := hd.lists_elementsWhere _
  obtain ⟨hnodup, hnot⟩ := hlists.split hsplit
  have hlt (k : Nat) (hk : k ∈ before ++ h :: behind) : k < d.cells.size := hlists.lt (hsplit ▸ hk)
  have hrestyled :=
    restyled_of_run hd hnodup (fun k hk => hlt k (List.mem_append_left _ hk)) hbefore
  refine ⟨before, h, behind, hsplit, ?_, hrestyled⟩
  rw [← hrestyled.childText_eq (hlt h (by simp)) fun hh => hnot h hh List.mem_cons_self]
  exact reindentOne_eq_error_iff.1 hstop

/-- The pass over style elements in a document where none of these is below another. It comes to its
end with the number of the style elements, and all of them are written anew. Otherwise it stops at
the first one with a stylesheet that is not read; then those in front of it are written anew, and
with all that is below them the others are as they were. Either way every node that is not below a
style element stays. -/
theorem reindentStyles_frame (hd : d.Linked)
    (hflat : ∀ h ∈ d.styleElements, ∀ k ∈ d.styleElements, h ∉ d.ancestors k)
    (inner outer : Text) :
    d.Lists Element.isStyle d.styleElements ∧
      (∀ d' n, d.reindentStyles inner outer = (d', .ok n) →
        n = d.styleElements.length ∧ ∀ h ∈ d.styleElements, d.Reindented inner outer h d') ∧
      (∀ d' fault, d.reindentStyles inner outer = (d', .error fault) →
        ∃ before h behind, d.styleElements = before ++ h :: behind ∧
          Css.parseStylesheet (d.childText h) = .error fault ∧
            (∀ k ∈ before, d.Reindented inner outer k d') ∧
              ∀ k ∈ h :: behind, d'.treeAt k = d.treeAt k) ∧
      ∀ k < d.size, (∀ h ∈ d.styleElements, h ∉ d.ancestors k) →
        d.Stays k (d.reindentStyles inner outer).1 := by
  refine ⟨hd.lists_elementsWhere _, fun d' n hrun => ?_, fun d' fault hrun => ?_,
    fun k hk habove => ?_⟩
  · have hrestyled := hd.restyled_of_reindentStyles hrun
    exact ⟨(reindentStyles_eq_ok_iff.1 hrun).2, fun h hh =>
      hrestyled.reindented (fun k hk => hflat k hk h hh) hh⟩
  · obtain ⟨before, h, behind, hsplit, hstop, hrestyled⟩ := hd.restyled_of_fault hrun
    have hbefore (k : Nat) (hk : k ∈ before) : k ∈ d.styleElements :=
      hsplit ▸ List.mem_append_left _ hk
    have hbehind (k : Nat) (hk : k ∈ h :: behind) : k ∈ d.styleElements :=
      hsplit ▸ List.mem_append_right _ hk
    have hlists := hd.lists_elementsWhere Element.isStyle
    refine ⟨before, h, behind, hsplit, hstop, fun k hk =>
      hrestyled.reindented (fun j hj => hflat j (hbefore j hj) k (hbefore k hk)) hk,
      fun k hk => ?_⟩
    refine hrestyled.treeAt_eq hd (hlists.lt (hbehind k hk)) fun j hj hmem => ?_
    rcases List.mem_cons.1 hmem with rfl | hmem
    · exact (hlists.split hsplit).2 k hj hk
    · exact hflat k (hbehind k hk) j (hbefore j hj) hmem
  · rcases hrun : d.reindentStyles inner outer with ⟨d', fault | n⟩
    · obtain ⟨before, h, behind, hsplit, -, hrestyled⟩ := hd.restyled_of_fault hrun
      exact hrestyled.stays hk fun j hj => habove j (hsplit ▸ List.mem_append_left _ hj)
    · exact (hd.restyled_of_reindentStyles hrun).stays hk habove

/-- A page with two style elements at different depths, the first of them with one rule. -/
def twoSheets (last : Text) : Document :=
  .ofTrees .html
    [.node (.element ⟨"div".toList, []⟩)
        [.node (.element ⟨"STYLE".toList, []⟩) [.node (.data "a\x7bb:c\x7d".toList) []],
          .node (.text ['t']) []],
      .node (.element ⟨"style".toList, []⟩) [.node (.data last) []]]

/-- With an empty stylesheet at the end the pass goes through both. With a bare word there it stops,
and what is in the second element and beside the first one is as it was. -/
theorem reindentStyles_frame_twoSheets :
    (∃ d, (twoSheets []).reindentStyles ['\t'] ['\t'] = (d, .ok 2) ∧
      ∀ h ∈ [4, 2], (twoSheets []).Reindented ['\t'] ['\t'] h d) ∧
      ∃ d, (twoSheets ['a']).reindentStyles ['\t'] ['\t'] =
          (d, .error (.strayDeclaration ['a'])) ∧
        (twoSheets ['a']).Reindented ['\t'] ['\t'] 4 d ∧
          d.treeAt 2 = (twoSheets ['a']).treeAt 2 ∧ (twoSheets ['a']).Stays 5 d := by
  have hlinked (last : Text) : (twoSheets last).Linked := linked_ofTrees .html _
  constructor
  · have helements : (twoSheets []).styleElements = [4, 2] := by decide +kernel
    have hrun : (twoSheets []).reindentStyles ['\t'] ['\t'] =
        (((twoSheets []).reindentStyles ['\t'] ['\t']).1, .ok 2) :=
      Prod.ext rfl (by decide +kernel)
    obtain ⟨-, hall⟩ :=
      (reindentStyles_frame (hlinked []) (by decide +kernel) ['\t'] ['\t']).2.1 _ _ hrun
    exact ⟨_, hrun, helements ▸ hall⟩
  · have helements : (twoSheets ['a']).styleElements = [4, 2] := by decide +kernel
    have hrun : (twoSheets ['a']).reindentStyles ['\t'] ['\t'] =
        (((twoSheets ['a']).reindentStyles ['\t'] ['\t']).1, .error (.strayDeclaration ['a'])) :=
      Prod.ext rfl (by decide +kernel)
    obtain ⟨-, -, hfault, hstays⟩ :=
      reindentStyles_frame (hlinked ['a']) (by decide +kernel) ['\t'] ['\t']
    obtain ⟨before, h, behind, hsplit, hstop, hbefore, hbehind⟩ := hfault _ _ hrun
    rw [helements] at hsplit
    -- the first stylesheet is read, so the pass does not stop there
    obtain _ | ⟨first, _ | ⟨second, rest⟩⟩ := before
    · obtain ⟨rfl, -⟩ := List.cons.inj hsplit
      exact absurd hstop (by decide +kernel)
    · obtain ⟨rfl, rfl, -⟩ : 4 = first ∧ 2 = h ∧ [] = behind := by simpa using hsplit
      exact ⟨_, hrun, hbefore _ List.mem_cons_self, hbehind _ List.mem_cons_self,
        hstays 5 (by decide +kernel) (by decide +kernel)⟩
    · simp at hsplit

end Document

end Markup

end PrettyPayload
