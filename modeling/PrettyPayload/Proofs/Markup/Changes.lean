import Mathlib.Data.List.Nodup
import Mathlib.Logic.Relation
import PrettyPayload.Proofs.Markup.Lineage

/-!
# Runs of changes

A document that is built and changed by its own operations, in any order and at attached nodes as
well as at nodes that were taken off, stays a tree with parts beside it (`Wellformed`), and to
replace the children of a node touches nothing else (`Replacement`). The invariant that carries
this over a run is that the links are in order (`Linked`).
-/

namespace PrettyPayload

namespace Markup

/-- A change of a document. A change at a handle without a node does nothing. -/
inductive Change where
  | append (parent : Nat) (node : Node)
  | replaceChildren (h : Nat) (node : Node)
  | setAttribute (h : Nat) (name value : Text)

namespace Document

variable {d d' : Document} {c h k p : Nat} {node : Node}

/-! ## Definitions -/

def change (d : Document) : Change → Document
  | .append p node => ((d.append? p node).map Prod.snd).getD d
  | .replaceChildren h node => d.replaceChildren h node
  | .setAttribute h name value => (d.setAttribute h name value).2

def run (flavor : Flavor) (changes : List Change) : Document := changes.foldl change (new flavor)

structure Wellformed (d : Document) : Prop where
  /-- A node is a child of its parent only, at one position. -/
  position : ∀ c p, d.parent? c = some p →
    (d.children p).count c = 1 ∧ ∀ q, c ∈ d.children q → q = p
  /-- A child has a parent. -/
  parent : ∀ c p, c ∈ d.children p → d.parent? c = some p
  /-- No node is above itself. -/
  acyclic : ∀ h, ¬Relation.TransGen (fun c p => d.parent? c = some p) h h
  /-- A node is reached from the root by one way, or it hangs in a part that was taken off. -/
  attached_or_detached : ∀ h,
    ((∃! path, d.IsPath root h path) ∧ ¬d.Detached h) ∨ (¬d.Attached h ∧ d.Detached h)
  /-- Below the root the depth is none. -/
  depth_below_root : ∀ h, d.parent? h = some root → d.depth h = 0
  /-- Below another attached node the depth is one more. -/
  depth_below : ∀ h p, d.Attached h → d.parent? h = some p → p ≠ root → d.depth h = d.depth p + 1
  /-- A search finds every attached element that it looks for. -/
  mem_elementsWhere : ∀ q h, h ∈ d.elementsWhere q ↔
    d.Attached h ∧ ∃ e, d.node? h = some (.element e) ∧ q e = true
  /-- A search finds no element twice. -/
  nodup_elementsWhere : ∀ q, (d.elementsWhere q).Nodup
  /-- A search finds the elements in document order. -/
  ordered_elementsWhere : ∀ q, (d.elementsWhere q).Pairwise d.Precedes

/-- The second document is the first one with a new node, the last one, in the place of all
children of a node. -/
structure Replacement (d : Document) (h : Nat) (node : Node) (d' : Document) : Prop where
  /-- The new node is the only child. -/
  children_self : d'.children h = [d.size]
  /-- The new node has its value and place, and no children. -/
  new_node : d'.node? d.size = some node ∧ d'.parent? d.size = some h ∧ d'.children d.size = []
  /-- A child from before is the top of a part that was taken off. -/
  old_child : ∀ c ∈ d.children h, d'.parent? c = none ∧ d'.Detached c
  /-- What is below a child from before is as it was. -/
  old_below : ∀ c ∈ d.children h, d'.treeAt c = d.treeAt c
  /-- All values are as they were. -/
  node?_eq : ∀ k < d.size, d'.node? k = d.node? k
  /-- The parents of all other nodes are as they were. -/
  parent?_eq : ∀ k < d.size, k ∉ d.children h → d'.parent? k = d.parent? k
  /-- The children of all other nodes are as they were. -/
  children_eq : ∀ k < d.size, k ≠ h → d'.children k = d.children k
  /-- The same comes of taking the first child from the node until none is left, and appending. -/
  by_detaching :
    ((detachFirst h)^[(d.children h).length] d).append? h node = some (d.size, d')

/-! ## Links over a run -/

theorem Linked.change (hd : d.Linked) (ch : Change) : (d.change ch).Linked := by
  cases ch with
  | append p node =>
    rw [Document.change]
    cases happend : d.append? p node with
    | none => exact hd
    | some result => exact hd.append? happend
  | replaceChildren h node => exact hd.replaceChildren h node
  | setAttribute h name value => exact hd.setAttribute h name value

theorem Linked.foldl_change (hd : d.Linked) (changes : List Change) :
    (changes.foldl Document.change d).Linked := by
  induction changes generalizing d with
  | nil => exact hd
  | cons ch changes ih => exact ih (hd.change ch)

theorem linked_run (flavor : Flavor) (changes : List Change) : (run flavor changes).Linked :=
  (linked_new flavor).foldl_change changes

/-! ## Well-formed documents -/

/-- A way up leads to smaller handles. -/
theorem lt_of_transGen (hup : Relation.TransGen (fun c p => d.parent? c = some p) h p) : p < h := by
  induction hup with
  | single hparent => exact lt_of_parent? hparent
  | tail _ hparent ih => exact Nat.lt_trans (lt_of_parent? hparent) ih

theorem Linked.attached_parent (hd : d.Linked) (hattached : d.Attached h)
    (hparent : d.parent? h = some p) : d.Attached p := by
  have hne : root ≠ h := fun heq => by
    rw [← heq, d.parent?_root] at hparent
    cases hparent
  have hroot := hd.attached_iff.1 hattached
  rw [ancestors_of_some hparent] at hroot
  exact hd.attached_iff.2 ((List.mem_cons.1 hroot).resolve_left hne)

theorem Linked.wellformed (hd : d.Linked) : d.Wellformed where
  position c p hparent := by
    have hc := (hd.mem_children_iff p c).2 hparent
    refine ⟨List.count_eq_one_of_mem (hd.nodup_children p) hc, fun q hq => ?_⟩
    exact Option.some.inj (((hd.mem_children_iff q c).1 hq).symm.trans hparent)
  parent c p hc := (hd.mem_children_iff p c).1 hc
  acyclic h hup := Nat.lt_irrefl h (lt_of_transGen hup)
  attached_or_detached := hd.attached_or_detached
  depth_below_root h hparent := depth_of_parent?_root hparent
  depth_below h p hattached hparent hp :=
    hd.depth_of_parent? hparent (hd.attached_parent hattached hparent) hp
  mem_elementsWhere q := (hd.lists_elementsWhere q).mem_iff
  nodup_elementsWhere q := (hd.lists_elementsWhere q).nodup
  ordered_elementsWhere q := (hd.lists_elementsWhere q).ordered

/-! ## Replacing children -/

theorem Linked.replacement (hd : d.Linked) (hh : h < d.size) (node : Node) :
    d.Replacement h node (d.replaceChildren h node) := by
  have hne {k : Nat} (hk : k < d.size) : k ≠ d.cells.size := Nat.ne_of_lt hk
  have hnode (k : Nat) (hk : k < d.size) : (d.replaceChildren h node).node? k = d.node? k := by
    rw [node?_replaceChildren hh, if_neg (hne hk)]
  have hchildren (k : Nat) (hk : k ≠ h) :
      (d.replaceChildren h node).children k = d.children k := by
    rw [children_replaceChildren hh, if_neg (Ne.symm hk)]
  have hparent (k : Nat) (hk : k < d.size) : (d.replaceChildren h node).parent? k =
      if k ∈ d.children h then none else d.parent? k := by
    rw [parent?_replaceChildren hh, if_neg (hne hk)]
  have hold (c : Nat) (hc : c ∈ d.children h) :
      (d.replaceChildren h node).parent? c = none := by
    rw [hparent c (lt_of_mem_children hc).2, if_pos hc]
  constructor
  case children_self => exact (children_replaceChildren hh node h).trans (if_pos rfl)
  case new_node =>
    refine ⟨(node?_replaceChildren hh node _).trans (if_pos rfl),
      (parent?_replaceChildren hh node _).trans (if_pos rfl), ?_⟩
    rw [hchildren _ (Nat.ne_of_gt hh)]
    exact children_eq_nil (Nat.le_refl _)
  case old_child =>
    intro c hc
    have hroot : c ≠ root := Nat.ne_of_gt (Nat.zero_lt_of_lt (lt_of_mem_children hc).1)
    exact ⟨hold c hc, c, [c], hroot, hold c hc, .here⟩
  case old_below =>
    intro c hc
    obtain ⟨hlt, hc⟩ := lt_of_mem_children hc
    refine hd.treeAt_congr_below c fun k hk => ⟨hnode k (lt_size_of_mem_cons_ancestors hk hc), ?_⟩
    exact hchildren k (Nat.ne_of_gt (Nat.lt_of_lt_of_le hlt (le_of_mem_cons_ancestors hk)))
  case node?_eq => exact hnode
  case parent?_eq =>
    intro k hk hmem
    rw [hparent k hk, if_neg hmem]
  case children_eq => exact fun k _ hk => hchildren k hk
  case by_detaching =>
    rw [hd.iterate_detachFirst]
    exact append?_replaceChildren hh node

/-! ## Runs -/

/-- Whatever changes an empty document goes through, it stays a tree with parts beside it, and
replacing the children of any of its nodes touches nothing else. -/
theorem wellformed_run (flavor : Flavor) (changes : List Change) :
    (run flavor changes).Wellformed ∧
      ∀ h node, h < (run flavor changes).size →
        (run flavor changes).Replacement h node ((run flavor changes).replaceChildren h node) :=
  ⟨(linked_run flavor changes).wellformed,
    fun _ node hh => (linked_run flavor changes).replacement hh node⟩

/-- A paragraph is replaced by text, and changed after it was taken off. -/
def sampleChanges : List Change :=
  [.append root (.element ⟨"body".toList, []⟩), .append 1 (.element ⟨"p".toList, []⟩),
    .replaceChildren 1 (.text "hi".toList), .setAttribute 2 "id".toList "x".toList,
    .append 2 (.text "ho".toList)]

theorem wellformed_run_sampleChanges :
    (run .html sampleChanges).children 1 = [3] ∧ (run .html sampleChanges).parent? 2 = none ∧
      (run .html sampleChanges).Wellformed ∧
      (run .html sampleChanges).Replacement 1 .document
        ((run .html sampleChanges).replaceChildren 1 .document) :=
  ⟨by decide +kernel, by decide +kernel, (wellformed_run .html sampleChanges).1,
    (wellformed_run .html sampleChanges).2 1 .document (by decide +kernel)⟩

end Document

end Markup

end PrettyPayload
