import PrettyPayload.Css.Printer
import PrettyPayload.Css.Reader
import PrettyPayload.Markup.Document

/-!
# Styles in a document

Two passes lay out the styles of an HTML document before it is written. The first rewrites the
stylesheet of every style element, indented to the place where it stands; the second rewrites every
style attribute on one line. Both go through the elements in document order and stop at the first
fault, with the elements before it rewritten.
-/

namespace PrettyPayload

namespace Markup

/-- The stylesheet as the text of a style element: its lines, each behind the padding unless it is
empty, between two line feeds; nothing at all where there is no rule. -/
def styleBlock (padding pretty : Text) : Text :=
  if pretty = [] then []
  else
    '\n' :: Text.joinWith ['\n'] ((Text.lines pretty).map fun line =>
      if line = [] then [] else padding ++ line) ++ ['\n']

namespace Document

def styleElements (d : Document) : List Nat := d.elementsWhere Element.isStyle

/-- Rewrites the stylesheets of some elements in order, up to the first fault. -/
def reindentEach (inner outer : Text) (d : Document) :
    List Nat → Document × Except Css.Error Unit
  | [] => (d, .ok ())
  | h :: hs =>
    match Css.parseStylesheet (d.childText h) with
    | .error e => (d, .error e)
    | .ok sheet =>
      let block := styleBlock (Text.times (d.depth h + 1) outer) (sheet.pretty inner)
      reindentEach inner outer (d.replaceChildren h (.css block)) hs

/-- Rewrites the stylesheet of every style element. Inside the stylesheet a level of nesting is
indented by `inner`, and in the document by `outer`. The result counts the style elements. -/
def reindentStyles (inner outer : Text) (d : Document) : Document × Except Css.Error Nat :=
  let targets := d.styleElements
  let (rewritten, outcome) := d.reindentEach inner outer targets
  (rewritten, outcome.map fun _ => targets.length)

def styleName : Text := "style".toList

def styledElements (d : Document) : List Nat :=
  d.elementsWhere fun e => (e.attribute? styleName).isSome

def style? (d : Document) (h : Nat) : Option Text :=
  ((d.node? h).bind Node.element?).bind fun e => e.attribute? styleName

/-- Rewrites the style attributes of some elements in order, up to the first fault. -/
def compactEach (d : Document) : List Nat → Document × Except Css.Error Unit
  | [] => (d, .ok ())
  | h :: hs =>
    match d.style? h with
    | none => compactEach d hs
    | some value =>
      match Css.parseDeclarations value with
      | .error e => (d, .error e)
      | .ok ds => compactEach (d.setAttribute h styleName (Css.compact ds)).2 hs

/-- Rewrites every style attribute on one line. The result counts the elements that have one. -/
def compactStyles (d : Document) : Document × Except Css.Error Nat :=
  let targets := d.styledElements
  let (rewritten, outcome) := d.compactEach targets
  (rewritten, outcome.map fun _ => targets.length)

end Document

end Markup

end PrettyPayload
