import Mathlib.Logic.Function.Iterate
import PrettyPayload.Proofs.Markup.Copy

/-!
# Parents and children

A document keeps the links between its nodes twice: every node has its parent, and every node has
the list of its children. `Linked` says that the two agree and that no child is listed twice. The
changes of a document keep this, since each of them touches both ends of a link: this module says
what each change does to every node, and then that the links stay in order.

The children of a node are dropped all at once. This is the same as taking the first child from
the node until none is left (`iterate_detachFirst`).
-/

namespace PrettyPayload

namespace Markup

namespace Document

variable {d d' : Document} {h k c p n : Nat} {node : Node}

/-! ## Definitions -/

/-- The two ends of every link agree, and no child is listed twice. -/
structure Linked (d : Document) : Prop where
  mem_children_iff : ∀ p c, c ∈ d.children p ↔ d.parent? c = some p
  nodup_children : ∀ p, (d.children p).Nodup

theorem ordered_clear (d : Document) (h : Nat) (cell : Cell)
    (ho : cell.Ordered d.cells.size h) :
    { cell with children := [] : Cell }.Ordered d.cells.size h :=
  ⟨ho.1, nofun⟩

/-- The document with an empty list of children at a node. The children are not told. -/
def clear (d : Document) (h : Nat) : Document :=
  d.mapCell h (fun cell => { cell with children := [] }) (d.ordered_clear h)

/-- The document with a child struck from the list of a node. The child is not told. -/
def strike (d : Document) (p c : Nat) : Document :=
  d.mapCell p (fun cell => { cell with children := cell.children.erase c }) fun _ ho =>
    ⟨ho.1, fun k hk => ho.2 k (List.mem_of_mem_erase hk)⟩

def detach (d : Document) (c : Nat) : Document :=
  match d.parent? c with
  | none => d
  | some p => (d.strike p c).orphan c

def detachFirst (h : Nat) (d : Document) : Document :=
  match (d.children h).head? with
  | some c => d.detach c
  | none => d

/-! ## Single cells -/

theorem parent?_eq_none (hk : d.cells.size ≤ k) : d.parent? k = none := by
  rw [parent?, Array.getElem?_eq_none hk, Option.bind_none]

theorem children_eq_nil (hk : d.cells.size ≤ k) : d.children k = [] := by
  rw [children, Array.getElem?_eq_none hk]
  rfl

theorem lt_of_node? (hnode : d.node? h = some node) : h < d.cells.size := by
  by_contra hle
  rw [node?, Array.getElem?_eq_none (Nat.le_of_not_lt hle)] at hnode
  cases hnode

section Modify

variable {change : Cell → Cell}

theorem node?_of_modify (hcells : d'.cells = d.cells.modify h change)
    (hchange : ∀ cell, (change cell).node = cell.node) (k : Nat) : d'.node? k = d.node? k := by
  rw [node?, hcells, Array.getElem?_modify, node?]
  cases d.cells[k]? with
  | none => rw [Option.map_none, ite_self]
  | some cell => split <;> simp [hchange]

theorem parent?_of_modify (hcells : d'.cells = d.cells.modify h change)
    (hchange : ∀ cell, (change cell).parent = cell.parent) (k : Nat) :
    d'.parent? k = d.parent? k := by
  rw [parent?, hcells, Array.getElem?_modify, parent?]
  cases d.cells[k]? with
  | none => rw [Option.map_none, ite_self]
  | some cell => split <;> simp [hchange]

theorem children_of_modify (hcells : d'.cells = d.cells.modify h change) {f : List Nat → List Nat}
    (hnil : f [] = []) (hchange : ∀ cell, (change cell).children = f cell.children) (k : Nat) :
    d'.children k = if h = k then f (d.children k) else d.children k := by
  rw [children, hcells, Array.getElem?_modify, children]
  cases d.cells[k]? with
  | none => split <;> simp [hnil]
  | some cell => split <;> simp [hchange]

end Modify

/-! ## Another value -/

theorem cells_setNode (d : Document) (h : Nat) (node : Node) :
    (d.setNode h node).cells = d.cells.modify h fun cell => { cell with node := node } := rfl

theorem size_setNode (d : Document) (h : Nat) (node : Node) :
    (d.setNode h node).cells.size = d.cells.size :=
  Array.size_modify

theorem node?_setNode (d : Document) (h : Nat) (node : Node) (k : Nat) :
    (d.setNode h node).node? k = if k = h then (d.node? k).map fun _ => node else d.node? k := by
  rw [node?, cells_setNode, Array.getElem?_modify, node?]
  by_cases hk : h = k
  · rw [if_pos hk, if_pos hk.symm]
    cases d.cells[k]? <;> rfl
  · rw [if_neg hk, if_neg (Ne.symm hk)]

theorem parent?_setNode (d : Document) (h : Nat) (node : Node) (k : Nat) :
    (d.setNode h node).parent? k = d.parent? k :=
  parent?_of_modify (d.cells_setNode h node) (fun _ => rfl) k

theorem children_setNode (d : Document) (h : Nat) (node : Node) (k : Nat) :
    (d.setNode h node).children k = d.children k :=
  (children_of_modify (f := id) (d.cells_setNode h node) rfl (fun _ => rfl) k).trans (ite_self _)

/-! ## Taking children away -/

theorem cells_orphan (d : Document) (h : Nat) :
    (d.orphan h).cells = d.cells.modify h fun cell => { cell with parent := none } := rfl

theorem cells_clear (d : Document) (h : Nat) :
    (d.clear h).cells = d.cells.modify h fun cell => { cell with children := [] } := rfl

theorem cells_strike (d : Document) (p c : Nat) :
    (d.strike p c).cells =
      d.cells.modify p fun cell => { cell with children := cell.children.erase c } := rfl

theorem dropChildren_eq (d : Document) (h : Nat) :
    d.dropChildren h = (d.children h).foldl orphan (d.clear h) := rfl

theorem size_orphan (d : Document) (h : Nat) : (d.orphan h).cells.size = d.cells.size :=
  Array.size_modify

theorem node?_orphan (d : Document) (h k : Nat) : (d.orphan h).node? k = d.node? k :=
  node?_of_modify (d.cells_orphan h) (fun _ => rfl) k

theorem children_orphan (d : Document) (h k : Nat) : (d.orphan h).children k = d.children k :=
  (children_of_modify (f := id) (d.cells_orphan h) rfl (fun _ => rfl) k).trans (ite_self _)

theorem parent?_orphan (d : Document) (h k : Nat) :
    (d.orphan h).parent? k = if k = h then none else d.parent? k := by
  rw [parent?, cells_orphan, Array.getElem?_modify, parent?]
  by_cases hk : h = k
  · rw [if_pos hk, if_pos hk.symm]
    cases d.cells[k]? <;> rfl
  · rw [if_neg hk, if_neg (Ne.symm hk)]

section FoldlOrphan

variable (cs : List Nat)

theorem view_foldl_orphan {β : Type} (view : Document → β)
    (hview : ∀ d h, view (orphan d h) = view d) : view (cs.foldl orphan d) = view d := by
  induction cs generalizing d with
  | nil => rfl
  | cons c cs ih => rw [List.foldl_cons, ih, hview]

theorem size_foldl_orphan : (cs.foldl orphan d).cells.size = d.cells.size :=
  view_foldl_orphan cs (fun d => d.cells.size) size_orphan

theorem node?_foldl_orphan (k : Nat) : (cs.foldl orphan d).node? k = d.node? k :=
  view_foldl_orphan cs (fun d => d.node? k) fun d h => d.node?_orphan h k

theorem children_foldl_orphan (k : Nat) : (cs.foldl orphan d).children k = d.children k :=
  view_foldl_orphan cs (fun d => d.children k) fun d h => d.children_orphan h k

theorem parent?_foldl_orphan (k : Nat) :
    (cs.foldl orphan d).parent? k = if k ∈ cs then none else d.parent? k := by
  induction cs generalizing d with
  | nil => rfl
  | cons c cs ih =>
    rw [List.foldl_cons, ih, parent?_orphan]
    by_cases hk : k ∈ cs
    · rw [if_pos hk, if_pos (List.mem_cons_of_mem c hk)]
    · by_cases hc : k = c
      · rw [if_neg hk, if_pos hc, if_pos (hc ▸ List.mem_cons_self)]
      · rw [if_neg hk, if_neg hc, if_neg (by simp [hk, hc])]

end FoldlOrphan

theorem size_dropChildren : (d.dropChildren h).cells.size = d.cells.size := by
  rw [dropChildren_eq, size_foldl_orphan, cells_clear, Array.size_modify]

theorem node?_dropChildren (k : Nat) : (d.dropChildren h).node? k = d.node? k := by
  rw [dropChildren_eq, node?_foldl_orphan, node?_of_modify (d.cells_clear h) fun _ => rfl]

theorem children_dropChildren (k : Nat) :
    (d.dropChildren h).children k = if h = k then [] else d.children k := by
  rw [dropChildren_eq, children_foldl_orphan,
    children_of_modify (f := fun _ => []) (d.cells_clear h) rfl fun _ => rfl]

theorem parent?_dropChildren (k : Nat) :
    (d.dropChildren h).parent? k = if k ∈ d.children h then none else d.parent? k := by
  rw [dropChildren_eq, parent?_foldl_orphan, parent?_of_modify (d.cells_clear h) fun _ => rfl]

/-! ## A new node -/

theorem getElem?_append? (happend : d.append? p node = some (n, d')) (k : Nat) :
    d'.cells[k]? = if k = n then some ⟨node, some p, []⟩
      else if p = k then d.cells[k]?.map fun cell => { cell with children := cell.children ++ [n] }
      else d.cells[k]? := by
  obtain ⟨-, rfl, hcells⟩ := append?_eq_some happend
  rw [hcells, Array.getElem?_push, Array.size_modify, Array.getElem?_modify]

theorem node?_append? (happend : d.append? p node = some (n, d')) (k : Nat) :
    d'.node? k = if k = n then some node else d.node? k := by
  rw [node?, getElem?_append? happend, node?]
  by_cases hk : k = n
  · rw [if_pos hk, if_pos hk]
    rfl
  · rw [if_neg hk, if_neg hk]
    cases d.cells[k]? with
    | none => rw [Option.map_none, ite_self]
    | some cell => split <;> rfl

theorem parent?_append? (happend : d.append? p node = some (n, d')) (k : Nat) :
    d'.parent? k = if k = n then some p else d.parent? k := by
  rw [parent?, getElem?_append? happend, parent?]
  by_cases hk : k = n
  · rw [if_pos hk, if_pos hk]
    rfl
  · rw [if_neg hk, if_neg hk]
    cases d.cells[k]? with
    | none => rw [Option.map_none, ite_self]
    | some cell => split <;> rfl

theorem children_append? (happend : d.append? p node = some (n, d')) (k : Nat) :
    d'.children k = if p = k then d.children k ++ [n] else d.children k := by
  obtain ⟨hp, rfl, -⟩ := append?_eq_some happend
  rw [children, getElem?_append? happend, children]
  by_cases hk : k = d.cells.size
  · have hpk : p ≠ k := fun heq => Nat.ne_of_lt hp (heq.trans hk)
    rw [if_pos hk, if_neg hpk, Array.getElem?_eq_none (Nat.le_of_eq hk.symm)]
    rfl
  · rw [if_neg hk]
    by_cases hpk : p = k
    · rw [if_pos hpk, if_pos hpk, ← hpk, Array.getElem?_eq_getElem hp]
      rfl
    · rw [if_neg hpk, if_neg hpk]

theorem append?_of_lt (hp : p < d.cells.size) (node : Node) :
    ∃ d', d.append? p node = some (d.cells.size, d') := by
  rw [append?, dif_pos hp]
  exact ⟨_, rfl⟩

theorem append?_replaceChildren (hh : h < d.cells.size) (node : Node) :
    (d.dropChildren h).append? h node = some (d.cells.size, d.replaceChildren h node) := by
  obtain ⟨d', happend⟩ := append?_of_lt (d := d.dropChildren h) (by rwa [size_dropChildren]) node
  rw [size_dropChildren] at happend
  rw [replaceChildren, happend]

theorem replaceChildren_of_le (hh : d.cells.size ≤ h) (node : Node) :
    d.replaceChildren h node = d := by
  have hnone : (d.dropChildren h).append? h node = none := by
    rw [append?, dif_neg (by rw [size_dropChildren]; exact Nat.not_lt.2 hh)]
  rw [replaceChildren, hnone]

theorem flavor_replaceChildren (d : Document) (h : Nat) (node : Node) :
    (d.replaceChildren h node).flavor = d.flavor := by
  by_cases hh : h < d.cells.size
  · rw [flavor_append? (append?_replaceChildren hh node), dropChildren_eq]
    exact view_foldl_orphan _ flavor fun _ _ => rfl
  · rw [replaceChildren_of_le (Nat.le_of_not_lt hh)]

section Replace

variable (hh : h < d.cells.size) (node : Node)

include hh

theorem size_replaceChildren : (d.replaceChildren h node).cells.size = d.cells.size + 1 :=
  (views_of_append? (append?_replaceChildren hh node)).1

theorem node?_replaceChildren (k : Nat) :
    (d.replaceChildren h node).node? k = if k = d.cells.size then some node else d.node? k := by
  rw [node?_append? (append?_replaceChildren hh node), node?_dropChildren]

theorem parent?_replaceChildren (k : Nat) :
    (d.replaceChildren h node).parent? k =
      if k = d.cells.size then some h else if k ∈ d.children h then none else d.parent? k := by
  rw [parent?_append? (append?_replaceChildren hh node), parent?_dropChildren]

theorem children_replaceChildren (k : Nat) :
    (d.replaceChildren h node).children k = if h = k then [d.cells.size] else d.children k := by
  rw [children_append? (append?_replaceChildren hh node), children_dropChildren]
  split
  · rw [List.nil_append]
  · rfl

end Replace

/-! ## Links stay in order -/

theorem linked_new (flavor : Flavor) : (new flavor).Linked := by
  have hchildren (p : Nat) : (new flavor).children p = [] := by
    cases p with
    | zero => rfl
    | succ p => exact children_eq_nil (Nat.succ_le_succ (Nat.zero_le p))
  have hparent (c : Nat) : (new flavor).parent? c = none := by
    cases c with
    | zero => rfl
    | succ c => exact parent?_eq_none (Nat.succ_le_succ (Nat.zero_le c))
  refine ⟨fun p c => ?_, fun p => ?_⟩
  · rw [hchildren, hparent]
    simp
  · rw [hchildren]
    exact List.nodup_nil

theorem Linked.congr (hd : d.Linked) (hchildren : ∀ k, d'.children k = d.children k)
    (hparent : ∀ k, d'.parent? k = d.parent? k) : d'.Linked := by
  refine ⟨fun p c => ?_, fun p => ?_⟩
  · rw [hchildren, hparent]
    exact hd.mem_children_iff p c
  · rw [hchildren]
    exact hd.nodup_children p

theorem Linked.dropChildren (hd : d.Linked) (h : Nat) : (d.dropChildren h).Linked := by
  refine ⟨fun p c => ?_, fun p => ?_⟩
  · rw [children_dropChildren, parent?_dropChildren]
    by_cases hp : h = p
    · subst hp
      rw [if_pos rfl]
      by_cases hc : c ∈ d.children h
      · rw [if_pos hc]
        simp
      · rw [if_neg hc, ← hd.mem_children_iff]
        simp [hc]
    · rw [if_neg hp]
      by_cases hc : c ∈ d.children h
      · have hparent := (hd.mem_children_iff h c).1 hc
        have hne : c ∉ d.children p := fun hmem =>
          hp (Option.some.inj (hparent.symm.trans ((hd.mem_children_iff p c).1 hmem)))
        rw [if_pos hc]
        simp [hne]
      · rw [if_neg hc]
        exact hd.mem_children_iff p c
  · rw [children_dropChildren]
    split
    · exact List.nodup_nil
    · exact hd.nodup_children p

theorem Linked.append? (hd : d.Linked) (happend : d.append? p node = some (n, d')) :
    d'.Linked := by
  obtain ⟨-, rfl, -⟩ := append?_eq_some happend
  have hnew (k : Nat) : d.cells.size ∉ d.children k := fun hmem =>
    Nat.lt_irrefl _ (lt_of_mem_children hmem).2
  refine ⟨fun k c => ?_, fun k => ?_⟩
  · rw [children_append? happend, parent?_append? happend]
    by_cases hc : c = d.cells.size
    · subst hc
      rw [if_pos rfl, Option.some.injEq]
      by_cases hk : p = k
      · rw [if_pos hk]
        simp [hk]
      · rw [if_neg hk]
        simp [hk, hnew]
    · rw [if_neg hc, ← hd.mem_children_iff]
      split
      · simp [hc]
      · rfl
  · rw [children_append? happend]
    split
    · exact List.nodup_append.2 ⟨hd.nodup_children k, List.pairwise_singleton _ _,
        fun a ha b hb => (List.mem_singleton.1 hb) ▸ fun heq => hnew k (heq ▸ ha)⟩
    · exact hd.nodup_children k

section Copy

variable {α : Type} {convert : (parent child : α) → Option Node}

theorem Linked.copy (hd : d.Linked) (pending : List (Tree α × Nat)) :
    (d.copy convert pending).Linked :=
  copy_induction (fun _ _ _ _ _ => Linked.append?) hd pending

theorem linked_ofTrees (flavor : Flavor) (ts : List (Tree Node)) : (ofTrees flavor ts).Linked :=
  (linked_new flavor).copy _

end Copy

theorem Linked.replaceChildren (hd : d.Linked) (h : Nat) (node : Node) :
    (d.replaceChildren h node).Linked := by
  by_cases hh : h < d.cells.size
  · exact (hd.dropChildren h).append? (append?_replaceChildren hh node)
  · rwa [replaceChildren_of_le (Nat.le_of_not_lt hh)]

theorem Linked.setAttribute (hd : d.Linked) (h : Nat) (name value : Text) :
    (d.setAttribute h name value).2.Linked := by
  rw [Document.setAttribute]
  split
  next => exact hd.congr (d.children_setNode h _) (d.parent?_setNode h _)
  next => exact hd

/-! ## Equality -/

theorem eq_of_cells {e : Document} (hflavor : d.flavor = e.flavor) (hcells : d.cells = e.cells) :
    d = e := by
  cases d
  cases e
  congr

theorem eq_of_views {e : Document} (hflavor : d.flavor = e.flavor)
    (hsize : d.cells.size = e.cells.size) (hnode : ∀ k, d.node? k = e.node? k)
    (hparent : ∀ k, d.parent? k = e.parent? k) (hchildren : ∀ k, d.children k = e.children k) :
    d = e := by
  refine eq_of_cells hflavor (Array.ext hsize fun k hk hk' => ?_)
  have hnode := hnode k
  have hparent := hparent k
  have hchildren := hchildren k
  simp only [node?, parent?, children, Array.getElem?_eq_getElem hk, Array.getElem?_eq_getElem hk',
    Option.map_some, Option.some.injEq, Option.bind_some, Option.getD_some]
    at hnode hparent hchildren
  generalize d.cells[k] = cell, e.cells[k] = cell' at *
  obtain ⟨node, parent, children⟩ := cell
  obtain ⟨rfl, rfl, rfl⟩ := And.intro hnode (And.intro hparent hchildren)
  rfl

/-- To give a node the value that it has changes nothing. -/
theorem setNode_eq_self (hnode : d.node? h = some node) : d.setNode h node = d := by
  refine eq_of_views rfl (d.size_setNode h node) (fun k => ?_) (d.parent?_setNode h node)
    (d.children_setNode h node)
  rw [node?_setNode]
  split
  next hk => rw [hk, hnode, Option.map_some]
  next => rfl

/-! ## Dropping children one by one -/

theorem clear_of_children_eq_nil (hchildren : d.children h = []) : d.clear h = d := by
  refine eq_of_cells rfl ?_
  rw [cells_clear]
  refine Array.ext_getElem? fun k => ?_
  rw [Array.getElem?_modify]
  split
  next hk =>
    subst hk
    rw [children] at hchildren
    cases hcell : d.cells[h]? with
    | none => rfl
    | some cell =>
      rw [hcell] at hchildren
      obtain ⟨node, parent, children⟩ := cell
      obtain rfl : children = [] := hchildren
      rfl
  next => rfl

theorem clear_orphan_strike (hc : h ≠ c) :
    ((d.strike h c).orphan c).clear h = (d.clear h).orphan c := by
  refine eq_of_cells rfl ?_
  rw [cells_clear, cells_orphan, cells_strike, cells_orphan, cells_clear]
  refine Array.ext_getElem? fun k => ?_
  simp only [Array.getElem?_modify]
  by_cases hk : h = k
  · subst hk
    rw [if_pos rfl, if_neg (Ne.symm hc), if_pos rfl, if_neg (Ne.symm hc), if_pos rfl,
      Option.map_map]
    rfl
  · rw [if_neg hk, if_neg hk, if_neg hk]

theorem detachFirst_of_cons {cs : List Nat} (hchildren : d.children h = c :: cs)
    (hparent : d.parent? c = some h) : detachFirst h d = (d.strike h c).orphan c := by
  rw [detachFirst, hchildren, List.head?_cons]
  dsimp only
  rw [detach, hparent]

/-- Each turn of the loop takes one child from the list and from its parent, so in the end the list
is empty and the children have no parent. -/
theorem iterate_detachFirst_of_children {cs : List Nat} (hchildren : d.children h = cs)
    (hnodup : cs.Nodup) (hparents : ∀ c ∈ cs, d.parent? c = some h) :
    (detachFirst h)^[cs.length] d = cs.foldl orphan (d.clear h) := by
  induction cs generalizing d with
  | nil => exact (clear_of_children_eq_nil hchildren).symm
  | cons c cs ih =>
    rw [List.forall_mem_cons] at hparents
    obtain ⟨hnot, hnodup⟩ := List.nodup_cons.1 hnodup
    have hlt := lt_of_parent? hparents.1
    rw [List.length_cons, Function.iterate_succ_apply, detachFirst_of_cons hchildren hparents.1,
      ih _ hnodup, List.foldl_cons, clear_orphan_strike (Nat.ne_of_lt hlt)]
    · intro k hk
      have hne : k ≠ c := fun heq => hnot (heq ▸ hk)
      rw [parent?_orphan, if_neg hne, parent?_of_modify (d.cells_strike h c) fun _ => rfl]
      exact hparents.2 k hk
    · rw [children_orphan, children_of_modify (f := fun cs => cs.erase c) (d.cells_strike h c)
        rfl fun _ => rfl, if_pos rfl, hchildren, List.erase_cons_head]

/-- To take the first child from a node until none is left is to drop the children at once. -/
theorem Linked.iterate_detachFirst (hd : d.Linked) (h : Nat) :
    (detachFirst h)^[(d.children h).length] d = d.dropChildren h := by
  rw [dropChildren_eq]
  exact iterate_detachFirst_of_children rfl (hd.nodup_children h) fun c hc =>
    (hd.mem_children_iff h c).1 hc

end Document

end Markup

end PrettyPayload
