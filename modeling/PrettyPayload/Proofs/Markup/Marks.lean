import PrettyPayload.Markup.StylePass
import PrettyPayload.Proofs.Tree

/-!
# What counts of a page

The marks of a tree are what formatting has to keep of it, in document order: the elements with
their attributes, the stylesheet of every style element, and the words of every other text that is
not blank. Styles count as they are written by the style passes, so that the layout of a stylesheet
or of a list of declarations does not matter.
-/

namespace PrettyPayload

namespace Markup

open PrettyPayload.Tree

/-- Something that counts of a page. -/
inductive Mark where
  | element (name : Text) (attributes : List (Text × Text))
  | sheet (t : Text)
  | words (ts : List Text)
  deriving DecidableEq, Repr

/-- What counts of an attribute: of a style attribute, its declarations. -/
def compactValue (name value : Text) : Text :=
  if name = Document.styleName then
    match Css.parseDeclarations value with
    | .ok ds => Css.compact ds
    | .error _ => value
  else value

/-- What counts of the text of a style element: its stylesheet. -/
def sheetMark (t : Text) : Mark :=
  match Css.parseStylesheet t with
  | .ok sheet => .sheet (sheet.pretty [' ', ' '])
  | .error _ => .sheet t

def wordsMark (t : Text) : List Mark :=
  if Text.words t = [] then [] else [.words (Text.words t)]

def Element.mark (e : Element) : Mark :=
  .element e.name (e.attributes.map fun (name, value) => (name, compactValue name value))

mutual

def marks (inStyle : Bool) : Tree Node → List Mark
  | .node v ts =>
    match v with
    | .element e => e.mark :: marksOfAll (e.name = Document.styleName) ts
    | .text t => wordsMark t
    | .data t => if inStyle then [sheetMark t] else wordsMark t
    | .css t => if inStyle then [sheetMark t] else wordsMark t
    | _ => marksOfAll false ts

def marksOfAll (inStyle : Bool) : List (Tree Node) → List Mark
  | [] => []
  | t :: ts => marks inStyle t ++ marksOfAll inStyle ts

end

def Document.marks (d : Document) : List Mark := Markup.marks false (d.tree.map Prod.snd)

end Markup

end PrettyPayload
