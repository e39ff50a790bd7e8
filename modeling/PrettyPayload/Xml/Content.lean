import PrettyPayload.Tree
import PrettyPayload.Xml.Lexer

/-!
# Content of XML documents

The nodes of a document are built from the tokens of its content. `Builder` is the state between
two tokens: the elements that are open, innermost first, with the children found so far, and the
nodes outside all of them.

An entity is replaced by its own text, which is read as content on the spot. It may leave elements
open that are closed behind the reference, and it may close the element around the reference, but
not with its first tag. Entities nest at most ten deep, and below one reference at most 255 more
are followed, so that an entity that contains itself is an error.
-/

namespace PrettyPayload

namespace Xml

inductive Node where
  | document
  | element (name : ExpandedName) (attributes : List (ExpandedName × Text)) (scope : Scope)
  | text (t : Text)
  | comment (t : Text)
  | instruction (target data : Text)
  deriving DecidableEq, Repr

/-- The texts of the entities of a document by name; the first of a name counts. -/
abbrev Entities := List (Text × Text)

/-- The number of entities that may be nested. -/
def nestingLimit : Nat := 10

/-- The number of references that are followed below one that stands outside all entities. -/
def referenceLimit : Nat := 255

/-- The number of references followed below the outermost one, after one more, from a place where
`levels` entities may still be nested. -/
def follow? (levels followed : Nat) : Option Nat :=
  if levels = nestingLimit then some 0
  else if followed = referenceLimit then none
  else some (followed + 1)

/-- The number that counts behind a reference, where inside it `followed` came to count. -/
def resume (levels followed : Nat) : Nat := if levels = nestingLimit then 0 else followed

/-! ## Attribute values -/

/-- White space of an attribute value becomes a space. -/
def blankToSpace (c : Char) : Char := if c = '\n' ∨ c = '\r' ∨ c = '\t' then ' ' else c

/-- An attribute value with its references replaced and its white space made spaces, and the number
of references followed. A line end counts as one space. Inside an entity, a bracket must not be
written by reference. -/
def expandValue (entities : Entities) (levels followed : Nat) (pieces : List Piece) :
    Option (Text × Nat) :=
  match pieces with
  | [] => some ([], followed)
  | .plain '\r' :: .plain '\n' :: rest =>
    expandValue entities levels followed (.plain '\n' :: rest)
  | .plain c :: rest =>
    (expandValue entities levels followed rest).map fun (t, n) => (blankToSpace c :: t, n)
  | .escaped c :: rest =>
    if levels = nestingLimit then
      (expandValue entities levels followed rest).map fun (t, n) => (c :: t, n)
    else if c = '<' then none
    else (expandValue entities levels followed rest).map fun (t, n) => (blankToSpace c :: t, n)
  | .entity name :: rest =>
    match levels with
    | 0 => none
    | deeper + 1 => do
      let t ← entities.lookup name
      let inside ← pieces? t
      let followed ← follow? (deeper + 1) followed
      let (t, followed) ← expandValue entities deeper followed inside
      let (u, followed) ← expandValue entities (deeper + 1) (resume (deeper + 1) followed) rest
      return (t ++ u, followed)
termination_by (levels, pieces.length)

def expandAttributes (entities : Entities) (levels followed : Nat) :
    List (Name × Text) → Option (List (Name × Text) × Nat)
  | [] => some ([], followed)
  | (name, written) :: rest => do
    let pieces ← pieces? written
    let (value, followed) ← expandValue entities levels followed pieces
    let (more, followed) ← expandAttributes entities levels followed rest
    return ((name, value) :: more, followed)

/-! ## Building nodes -/

/-- An element that is open: its name as it is written, its node, and the children found so far,
latest first. -/
structure OpenElement where
  written : Name
  name : ExpandedName
  attributes : List (ExpandedName × Text)
  scope : Scope
  children : List (Tree Node)

structure Builder where
  /-- The open elements, innermost first. -/
  opened : List OpenElement
  /-- The nodes outside all elements, latest first. -/
  outside : List (Tree Node)
  /-- Attributes of a tag that an entity left unfinished; they belong to the next tag. -/
  pending : List (Name × Text)
  /-- Whether an unfinished tag has ended the text before the current place. -/
  textEnded : Bool
  /-- The number of references followed below the outermost one. -/
  followed : Nat

namespace Builder

def start : Builder := ⟨[], [], [], false, 0⟩

def scope (b : Builder) : Scope :=
  match b.opened with
  | [] => []
  | e :: _ => e.scope

/-- Changes the children found so far at the current place. -/
def mapChildren (f : List (Tree Node) → List (Tree Node)) (b : Builder) : Builder :=
  match b.opened with
  | [] => { b with outside := f b.outside }
  | e :: opened => { b with opened := { e with children := f e.children } :: opened }

def add (node : Tree Node) (b : Builder) : Builder := b.mapChildren (node :: ·)

def addText (t : Text) (b : Builder) : Builder :=
  { b with textEnded := false }.mapChildren fun children =>
    match b.textEnded, children with
    | false, .node (.text s) [] :: rest => .node (.text (s ++ t)) [] :: rest
    | _, _ => .node (.text t) [] :: children

def resolve? (attributes : List (Name × Text)) (b : Builder) :
    Option (Scope × List (ExpandedName × Text)) := do
  let own ← declared? [] attributes
  let scope := own.extend b.scope
  let resolved ← resolved? scope attributes
  return (scope, resolved)

def startTag? (name : Name) (attributes : List (Name × Text)) (tagEnd : TagEnd) (b : Builder) :
    Option Builder :=
  match tagEnd with
  | .missing =>
    if (declared? [] (b.pending ++ attributes)).isSome then
      some { b with pending := b.pending ++ attributes, textEnded := true }
    else none
  | _ => do
    let (scope, resolved) ← b.resolve? (b.pending ++ attributes)
    let space ← scope.lookup? name.qualifier
    let b := { b with pending := [] }
    let expanded : ExpandedName := ⟨space, name.localName⟩
    if tagEnd = .empty then return b.add (.node (.element expanded resolved scope) [])
    else return { b with opened := ⟨name, expanded, resolved, scope, []⟩ :: b.opened }

def endTag? (name : Name) (b : Builder) : Option Builder := do
  let _ ← b.resolve? b.pending
  match b.opened with
  | [] => none
  | e :: opened =>
    if e.written = name then
      return { b with opened, pending := [] }.add
        (.node (.element e.name e.attributes e.scope) e.children.reverse)
    else none

def finish? (b : Builder) : Option (List (Tree Node)) :=
  if b.opened.isEmpty then some b.outside.reverse else none

end Builder

/-- Builds the nodes of tokens. `levels` more entities may be nested, and an end tag is allowed if
`tagSeen`. -/
def build (entities : Entities) (levels : Nat) (tagSeen : Bool) (tokens : List Token)
    (b : Builder) : Option Builder :=
  match tokens with
  | [] => some b
  | .startTag name attributes tagEnd :: rest => do
    let (attributes, followed) ← expandAttributes entities levels b.followed attributes
    let b ← { b with followed }.startTag? name attributes tagEnd
    build entities levels true rest b
  | .endTag name :: rest =>
    if tagSeen then do
      let b ← b.endTag? name
      build entities levels tagSeen rest b
    else none
  | .characters t :: rest => build entities levels tagSeen rest (b.addText t)
  | .comment t :: rest => build entities levels tagSeen rest (b.add (.node (.comment t) []))
  | .instruction target data :: rest =>
    build entities levels tagSeen rest (b.add (.node (.instruction target data) []))
  | .entity name :: rest =>
    match levels with
    | 0 => none
    | deeper + 1 => do
      let t ← entities.lookup name
      let (inside, _) ← content? true 0 t
      let followed ← follow? (deeper + 1) b.followed
      let b ← build entities deeper false inside { b with followed }
      build entities (deeper + 1) tagSeen rest
        { b with followed := resume (deeper + 1) b.followed }
termination_by (levels, tokens.length)

end Xml

end PrettyPayload
