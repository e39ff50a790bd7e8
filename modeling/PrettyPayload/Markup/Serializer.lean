import PrettyPayload.Markup.Document
import PrettyPayload.Markup.Layout

/-!
# Writing a document

Every node of a document stands on a line of its own, indented by its depth. `lines` goes around
the document's tree once: it writes what an element starts with when it enters the element, and the
end tag when it leaves it. An element whose content is already written when it is entered is
skipped up to the point where it is left.

The lines do not depend on the line ending, which `serialize` only puts between them. A line of
preformatted content may hold line feeds of its own, and these stay as they are.
-/

namespace PrettyPayload

namespace Markup

/-- What the layout of a document depends on, besides the line ending. -/
structure Style where
  indent : Text
  inlineSingleText : Bool
  deriving DecidableEq, Repr

def Style.ofOptions (options : Options) : Style := ⟨options.indent, options.inlineSingleText⟩

def Style.line (style : Style) (depth : Nat) (t : Text) : Text :=
  Text.times depth style.indent ++ t

def textOf (nodes : List Node) : Text := nodes.flatMap fun node => (node.text?).getD []

/-- What the content of a preformatted element is written behind: a line feed where reading would
otherwise take one from the text. -/
def leadingLineFeed (flavor : Flavor) (e : Element) (children : List Node) : Text :=
  if flavor = .html ∧ lineFeedElements.contains e.name ∧
      ((children.head?).bind Node.text?).bind List.head? = some '\n' then ['\n']
  else []

/-- The lines of a style element. The lines of the stylesheet come as they are, and the end tag
stands on a line of its own unless there is no stylesheet. -/
def styleLines (style : Style) (depth : Nat) (tag : Text) (e : Element) (children : List Node) :
    List Text :=
  let literal := Text.trimEnd Text.isBlank (Text.withoutReturns (textOf children))
  if literal = [] then [style.line depth (tag ++ endTag e)]
  else
    match Text.splitOn '\n' literal with
    | [] => [style.line depth (tag ++ endTag e)]
    | first :: rest => style.line depth (tag ++ first) :: rest ++ [style.line depth (endTag e)]

def elementLines (flavor : Flavor) (style : Style) (depth : Nat) (e : Element)
    (ts : List (Tree (Nat × Node))) : List Text × Bool :=
  let children := ts.map fun t => t.value.2
  let tag := startTag flavor e false
  match layoutOf flavor style.inlineSingleText e children with
  | .void => ([style.line depth tag], true)
  | .selfClosing => ([style.line depth (startTag flavor e true)], true)
  | .verbatim =>
    ([style.line depth
      (tag ++ leadingLineFeed flavor e children ++ inlineAll flavor ts ++ endTag e)], true)
  | .stylesheet => (styleLines style depth tag e children, true)
  | .empty => ([style.line depth (tag ++ endTag e)], true)
  | .singleLine t => ([style.line depth (tag ++ escapeText flavor t ++ endTag e)], true)
  | .block => ([style.line depth tag], false)

def entryLines (flavor : Flavor) (style : Style) (depth : Nat) (t : Tree (Nat × Node)) :
    List Text × Bool :=
  match t.value.2 with
  | .document => ([], false)
  | .element e => elementLines flavor style depth e t.children
  | .doctype text => ([style.line depth (doctypeText text)], true)
  | .comment text => ([style.line depth (commentText text)], true)
  | .instruction target data => ([style.line depth (instructionText flavor target data)], true)
  | .text text => ((segments text).map fun s => style.line depth (escapeText flavor s), true)
  | .data text => ((segments text).map (style.line depth), true)
  | .css text => ((segments text).map (style.line depth), true)

def exitLines (style : Style) (depth : Nat) (t : Tree (Nat × Node)) : List Text :=
  match t.value.2 with
  | .element e => [style.line depth (endTag e)]
  | _ => []

/-- The lines of a walk around a tree. `skip` is the node whose subtree is already written. The
depth of a node is the number of its ancestors without the root. -/
def walk (flavor : Flavor) (style : Style) :
    (skip : Option Nat) → List (Tree.Edge (Nat × Node)) → List Text
  | _, [] => []
  | some h, .enter _ _ :: edges => walk flavor style (some h) edges
  | some h, .leave _ t :: edges =>
    walk flavor style (if t.value.1 = h then none else some h) edges
  | none, .enter ancestors t :: edges =>
    let (lines, whole) := entryLines flavor style (ancestors - 1) t
    lines ++ walk flavor style (if whole then some t.value.1 else none) edges
  | none, .leave ancestors t :: edges =>
    exitLines style (ancestors - 1) t ++ walk flavor style none edges

def Document.lines (style : Style) (d : Document) : List Text :=
  walk d.flavor style none d.tree.edges

def Document.serialize (options : Options) (d : Document) : Text :=
  Text.joinWith options.newline (d.lines (Style.ofOptions options))

end Markup

end PrettyPayload
