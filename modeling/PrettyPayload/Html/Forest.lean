import PrettyPayload.Html.Vocabulary
import PrettyPayload.Tree

/-!
# The growing tree of a page

While a page is read its nodes are made, moved and taken out again, so they live in a forest: each
node has a handle, a parent or none, and its children in order. Handles count up and are never
given away twice. `Forest.tree` reads the tree below a node off at the end.

Adjacent texts are one node: a text put behind or before a text joins it.
-/

namespace PrettyPayload

namespace Html

inductive Node where
  | document
  /-- What holds the content of a template. -/
  | fragment
  | doctype (name publicId systemId : Text)
  | element (name : Name) (attributes : List (String × Text))
  | text (t : Text)
  | comment (t : Text)
  deriving DecidableEq, Repr

structure Cell where
  node : Node
  parent : Option Nat
  children : List Nat
  deriving Repr

/-- Nodes with their parents and children, by handle. -/
structure Forest where
  cells : Array Cell
  deriving Repr

namespace Forest

def root : Nat := 0

def start : Forest := ⟨#[⟨.document, none, []⟩]⟩

def node? (f : Forest) (h : Nat) : Option Node := f.cells[h]?.map Cell.node

def parent? (f : Forest) (h : Nat) : Option Nat := f.cells[h]?.bind Cell.parent

def children (f : Forest) (h : Nat) : List Nat := (f.cells[h]?.map Cell.children).getD []

/-- The full name of an element; other nodes have the name of no element. -/
def name (f : Forest) (h : Nat) : Name :=
  match f.node? h with
  | some (.element name _) => name
  | _ => htmlName ""

def create (f : Forest) (node : Node) : Nat × Forest :=
  (f.cells.size, ⟨f.cells.push ⟨node, none, []⟩⟩)

def modify (f : Forest) (h : Nat) (change : Cell → Cell) : Forest := ⟨f.cells.modify h change⟩

def detach (f : Forest) (h : Nat) : Forest :=
  match f.parent? h with
  | none => f
  | some p =>
    (f.modify p fun cell => { cell with children := cell.children.filter (· ≠ h) }).modify h
      fun cell => { cell with parent := none }

def append (f : Forest) (parent h : Nat) : Forest :=
  ((f.detach h).modify parent fun cell => { cell with children := cell.children ++ [h] }).modify h
    fun cell => { cell with parent := some parent }

def putBefore (sibling h : Nat) (hs : List Nat) : List Nat :=
  hs.flatMap fun c => if c = sibling then [h, c] else [c]

/-- Puts a node right before a sibling; without a parent of the sibling it is only taken from its
place. -/
def insertBefore (f : Forest) (sibling h : Nat) : Forest :=
  let f := f.detach h
  match f.parent? sibling with
  | none => f
  | some p =>
    (f.modify p fun cell => { cell with children := putBefore sibling h cell.children }).modify h
      fun cell => { cell with parent := some p }

def moveChildren (f : Forest) (source target : Nat) : Forest :=
  (f.children source).foldl (fun f h => f.append target h) f

def extendText (f : Forest) (h : Nat) (t : Text) : Forest :=
  f.modify h fun cell =>
    match cell.node with
    | .text s => { cell with node := .text (s ++ t) }
    | _ => cell

def isText (f : Forest) (h : Nat) : Bool :=
  match f.node? h with
  | some (.text _) => true
  | _ => false

def appendText (f : Forest) (parent : Nat) (t : Text) : Forest :=
  match (f.children parent).getLast? with
  | some last =>
    if f.isText last then f.extendText last t
    else
      let (h, f) := f.create (.text t)
      f.append parent h
  | none =>
    let (h, f) := f.create (.text t)
    f.append parent h

def previous? (f : Forest) (h : Nat) : Option Nat :=
  (f.parent? h).bind fun p => ((f.children p).takeWhile (· ≠ h)).getLast?

def insertTextBefore (f : Forest) (sibling : Nat) (t : Text) : Forest :=
  if (f.parent? sibling).isNone then f
  else
    match (f.previous? sibling).filter f.isText with
    | some last => f.extendText last t
    | none =>
      let (h, f) := f.create (.text t)
      f.insertBefore sibling h

def addAttributes (f : Forest) (h : Nat) (new : List (String × Text)) : Forest :=
  f.modify h fun cell =>
    match cell.node with
    | .element name attributes =>
      { cell with
        node := .element name (new.foldl (fun found (name, value) =>
          if found.any fun (taken, _) => taken = name then found else found ++ [(name, value)])
          attributes) }
    | _ => cell

def treeWithin (f : Forest) : (depth : Nat) → (h : Nat) → Tree Node
  | 0, h => .node ((f.node? h).getD .fragment) []
  | depth + 1, h => .node ((f.node? h).getD .fragment) ((f.children h).map (f.treeWithin depth))

/-- The tree below a node. No branch is longer than there are nodes. -/
def tree (f : Forest) (h : Nat) : Tree Node := f.treeWithin f.cells.size h

end Forest

end Html

end PrettyPayload
