import PrettyPayload.Markup.Basic
import PrettyPayload.Tree

/-!
# Documents

A document is a set of nodes with handles. A node's place is its parent and its position among the
parent's children; a node that has been replaced keeps its handle and what is below it, but has no
parent any more. Nodes are only ever added below nodes that are there already, so a child's handle
is greater than its parent's. The type keeps this order, and with it every walk down or up comes to
an end.
-/

namespace PrettyPayload

namespace Markup

structure Cell where
  node : Node
  parent : Option Nat
  children : List Nat
  deriving DecidableEq, Repr

/-- Parents come before their children. -/
def Cell.Ordered (size h : Nat) (cell : Cell) : Prop :=
  (∀ p, cell.parent = some p → p < h) ∧ ∀ c ∈ cell.children, h < c ∧ c < size

/-- A document: its flavor and its nodes by handle. The root has the first handle. -/
structure Document where
  flavor : Flavor
  cells : Array Cell
  ordered : ∀ (h : Nat) (cell : Cell), cells[h]? = some cell → cell.Ordered cells.size h

namespace Document

def root : Nat := 0

def new (flavor : Flavor) : Document where
  flavor := flavor
  cells := #[⟨.document, none, []⟩]
  ordered := by
    intro h cell hc
    obtain ⟨hlt, rfl⟩ := Array.getElem?_eq_some_iff.1 hc
    have : h = 0 := by simp at hlt; omega
    subst this
    simp [Cell.Ordered]

/-- The number of nodes, those without a parent included. -/
def size (d : Document) : Nat := d.cells.size

def node? (d : Document) (h : Nat) : Option Node := d.cells[h]?.map Cell.node

def parent? (d : Document) (h : Nat) : Option Nat := d.cells[h]?.bind Cell.parent

def children (d : Document) (h : Nat) : List Nat := (d.cells[h]?.map Cell.children).getD []

theorem lt_of_mem_children {d : Document} {h c : Nat} (hc : c ∈ d.children h) :
    h < c ∧ c < d.cells.size := by
  unfold children at hc
  cases hcell : d.cells[h]? with
  | none => simp [hcell] at hc
  | some cell =>
    simp only [hcell, Option.map_some, Option.getD_some] at hc
    exact (d.ordered h cell hcell).2 c hc

theorem lt_of_parent? {d : Document} {h p : Nat} (hp : d.parent? h = some p) : p < h := by
  unfold parent? at hp
  cases hcell : d.cells[h]? with
  | none => simp [hcell] at hp
  | some cell =>
    simp only [hcell, Option.bind_some] at hp
    exact (d.ordered h cell hcell).1 p hp

/-! ## Changes -/

/-- A document whose cells have been changed one by one, none of them out of order. -/
def mapCell (d : Document) (h : Nat) (change : Cell → Cell)
    (keeps : ∀ cell, cell.Ordered d.cells.size h → (change cell).Ordered d.cells.size h) :
    Document where
  flavor := d.flavor
  cells := d.cells.modify h change
  ordered := by
    intro k cell hk
    rw [Array.size_modify]
    rw [Array.getElem?_modify] at hk
    split at hk
    next he =>
      subst he
      obtain ⟨old, ho, rfl⟩ := Option.map_eq_some_iff.1 hk
      exact keeps old (d.ordered _ old ho)
    next => exact d.ordered k cell hk

/-- Adds a node below another, behind its other children, and gives its handle; nothing if there
is no node of that handle. -/
def append? (d : Document) (parent : Nat) (node : Node) : Option (Nat × Document) :=
  if hp : parent < d.cells.size then
    some (d.cells.size,
      { flavor := d.flavor
        cells := (d.cells.modify parent fun cell =>
          { cell with children := cell.children ++ [d.cells.size] }).push ⟨node, some parent, []⟩
        ordered := by
          intro h cell hc
          rw [Array.size_push, Array.size_modify]
          rw [Array.getElem?_push, Array.size_modify] at hc
          split at hc
          next he =>
            simp only [Option.some.injEq] at hc
            subst hc he
            simp [Cell.Ordered, hp]
          next =>
            rw [Array.getElem?_modify] at hc
            split at hc
            next he =>
              subst he
              obtain ⟨old, ho, rfl⟩ := Option.map_eq_some_iff.1 hc
              obtain ⟨h1, h2⟩ := d.ordered _ old ho
              refine ⟨h1, fun c hm => ?_⟩
              simp only [List.mem_append, List.mem_singleton] at hm
              rcases hm with hm | rfl
              · have := h2 c hm; omega
              · omega
            next =>
              obtain ⟨h1, h2⟩ := d.ordered h cell hc
              exact ⟨h1, fun c hm => by have := h2 c hm; omega⟩ })
  else none

/-- Takes a node from its parent, without telling the parent. -/
def orphan (d : Document) (h : Nat) : Document :=
  d.mapCell h (fun cell => { cell with parent := none }) fun _ ho => ⟨by simp, ho.2⟩

/-- Takes every child from a node. The children stay, without a parent. -/
def dropChildren (d : Document) (h : Nat) : Document :=
  (d.children h).foldl orphan
    (d.mapCell h (fun cell => { cell with children := [] }) fun _ ho => ⟨ho.1, by simp⟩)

def replaceChildren (d : Document) (h : Nat) (node : Node) : Document :=
  match (d.dropChildren h).append? h node with
  | some (_, d) => d
  | none => d

def setNode (d : Document) (h : Nat) (node : Node) : Document :=
  d.mapCell h (fun cell => { cell with node }) fun _ ho => ho

def setAttribute (d : Document) (h : Nat) (name value : Text) : Bool × Document :=
  match d.node? h with
  | some (.element e) => (true, d.setNode h (.element (e.setAttribute name value)))
  | _ => (false, d)

/-! ## Views -/

def treeAt (d : Document) (h : Nat) : Tree (Nat × Node) :=
  .node (h, (d.node? h).getD .document)
    ((d.children h).attach.map fun ⟨c, _⟩ => d.treeAt c)
termination_by d.cells.size - h
decreasing_by
  have := lt_of_mem_children (by assumption : c ∈ d.children h)
  omega

def tree (d : Document) : Tree (Nat × Node) := d.treeAt root

def ancestors (d : Document) (h : Nat) : List Nat :=
  match _up : d.parent? h with
  | none => []
  | some p => p :: d.ancestors p
termination_by h
decreasing_by exact lt_of_parent? _up

/-- The number of ancestors of a node, the root not counted. -/
def depth (d : Document) (h : Nat) : Nat := (d.ancestors h).length - 1

def elementsWhere (d : Document) (p : Element → Bool) : List Nat :=
  d.tree.preorder.filterMap fun (_, h, node) =>
    if (node.element?).any p then some h else none

/-- The character data of the children of a node, run together. -/
def childText (d : Document) (h : Nat) : Text :=
  (d.children h).flatMap fun c => ((d.node? c).bind Node.text?).getD []

/-! ## Copies -/

/-- Adds the children of a source node below a document node, each where `convert` has a node for
it, and puts those on the list of what is still to be copied. -/
def copyChildren {α : Type} (convert : (parent child : α) → Option Node) (a : α) (target : Nat) :
    List (Tree α) → Document → List (Tree α × Nat) → Document × List (Tree α × Nat)
  | [], d, pending => (d, pending)
  | t :: ts, d, pending =>
    match (convert a t.value).bind (d.append? target) with
    | some (h, d) => copyChildren convert a target ts d ((t, h) :: pending)
    | none => copyChildren convert a target ts d pending

/-- The number of source nodes that are still to be copied or looked at. -/
def pendingSize {α : Type} : List (Tree α × Nat) → Nat
  | [] => 0
  | (t, _) :: pending => t.size + pendingSize pending

theorem pendingSize_copyChildren_le {α : Type} (convert : (parent child : α) → Option Node)
    (a : α) (target : Nat) (ts : List (Tree α)) (d : Document) (pending : List (Tree α × Nat)) :
    pendingSize (copyChildren convert a target ts d pending).2 ≤
      Tree.sizeOfAll ts + pendingSize pending := by
  induction ts generalizing d pending with
  | nil => simp [copyChildren, Tree.sizeOfAll]
  | cons t ts ih =>
    rw [copyChildren]
    split
    next h d' _ =>
      have := ih d' ((t, h) :: pending)
      simp only [pendingSize, Tree.sizeOfAll] at this ⊢
      omega
    next =>
      have := ih d pending
      simp only [Tree.sizeOfAll]
      omega

/-- Copies the children of some source nodes below document nodes, and theirs in turn. What is
still to be copied is kept in a list, last in, first out. -/
def copy {α : Type} (convert : (parent child : α) → Option Node) (d : Document)
    (pending : List (Tree α × Nat)) : Document :=
  match pending with
  | [] => d
  | (.node a ts, target) :: pending =>
    let next := copyChildren convert a target ts d pending
    copy convert next.1 next.2
termination_by pendingSize pending
decreasing_by
  have := pendingSize_copyChildren_le convert a target ts d pending
  simp only [pendingSize, Tree.size] at this ⊢
  omega

end Document

end Markup

end PrettyPayload
