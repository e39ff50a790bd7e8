/-!
# Trees

Finite ordered trees with a value at each node. A tree is read in document order: a node stands
before its children, and these stand in their order. `edges` is the walk around a tree, which
enters and leaves every node once.
-/

namespace PrettyPayload

inductive Tree (α : Type) where
  | node (value : α) (children : List (Tree α))
  deriving Repr

namespace Tree

variable {α β : Type}

def value : Tree α → α
  | node a _ => a

def children : Tree α → List (Tree α)
  | node _ ts => ts

@[simp] theorem value_node (a : α) (ts : List (Tree α)) : (node a ts).value = a := rfl

@[simp] theorem children_node (a : α) (ts : List (Tree α)) : (node a ts).children = ts := rfl

mutual

def size : Tree α → Nat
  | node _ ts => sizeOfAll ts + 1

def sizeOfAll : List (Tree α) → Nat
  | [] => 0
  | t :: ts => size t + sizeOfAll ts

end

mutual

/-- The values in document order, each with the number of its ancestors, in front of a list; the
root has `depth` of them. -/
def preorderOnto (depth : Nat) : Tree α → List (Nat × α) → List (Nat × α)
  | node a ts, rest => (depth, a) :: preorderOntoAll (depth + 1) ts rest

def preorderOntoAll (depth : Nat) : List (Tree α) → List (Nat × α) → List (Nat × α)
  | [], rest => rest
  | t :: ts, rest => preorderOnto depth t (preorderOntoAll depth ts rest)

end

/-- The values in document order, each with the number of its ancestors. -/
def preorder (t : Tree α) : List (Nat × α) := preorderOnto 0 t []

/-- A step of the walk around a tree, with the number of ancestors of the node. -/
inductive Edge (α : Type) where
  | enter (depth : Nat) (t : Tree α)
  | leave (depth : Nat) (t : Tree α)
  deriving Repr

mutual

def edgesOnto (depth : Nat) : Tree α → List (Edge α) → List (Edge α)
  | node a ts, rest =>
    .enter depth (node a ts) ::
      edgesOntoAll (depth + 1) ts (.leave depth (node a ts) :: rest)

/-- The walks around several trees, one after the other. -/
def edgesOntoAll (depth : Nat) : List (Tree α) → List (Edge α) → List (Edge α)
  | [], rest => rest
  | t :: ts, rest => edgesOnto depth t (edgesOntoAll depth ts rest)

end

/-- The walk around a tree: each node is entered, then its subtrees are walked around, then it is
left. -/
def edges (t : Tree α) : List (Edge α) := edgesOnto 0 t []

end Tree

end PrettyPayload
