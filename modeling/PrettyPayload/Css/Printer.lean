import PrettyPayload.Css.Basic

/-!
# Writing a stylesheet

A stylesheet is written over several lines, one declaration to a line, the body of each block one
indent deeper than its head. A list of declarations is written on one line, for use in an
attribute. The order never changes.
-/

namespace PrettyPayload

namespace Css

/-- `property: value !important`; a missing value leaves no space behind. -/
def Declaration.text (d : Declaration) : Text :=
  d.property ++ ':' :: (if d.value = [] then [] else ' ' :: d.value) ++
    (if d.important then " !important".toList else [])

/-- `property: value; property: value`, without a semicolon at the end. -/
def compact (ds : List Declaration) : Text := Text.joinWith [';', ' '] (ds.map Declaration.text)

def atText (name prelude : Text) : Text :=
  '@' :: name ++ (if prelude = [] then [] else ' ' :: prelude)

def Head.text : Head → Text
  | .style selectors => Text.joinWith [',', ' '] selectors
  | .atRule name prelude => atText name prelude

mutual

/-- The lines of an item whose first line stands at a level of nesting. -/
def Item.lines (indent : Text) (level : Nat) : Item → List Text
  | .declaration d => [Text.times level indent ++ d.text ++ [';']]
  | .statement name prelude => [Text.times level indent ++ atText name prelude ++ [';']]
  | .block head [] => [Text.times level indent ++ head.text ++ [' ', '{', '}']]
  | .block head (item :: items) =>
    (Text.times level indent ++ head.text ++ [' ', '{']) ::
      (Item.lines indent (level + 1) item ++ Item.linesOfAll indent (level + 1) items ++
        [Text.times level indent ++ ['}']])

def Item.linesOfAll (indent : Text) (level : Nat) : List Item → List Text
  | [] => []
  | item :: items => Item.lines indent level item ++ Item.linesOfAll indent level items

end

/-- The stylesheet over several lines, without a line feed at the end. -/
def Stylesheet.pretty (indent : Text) (sheet : Stylesheet) : Text :=
  Text.joinWith ['\n'] (Item.linesOfAll indent 0 sheet.rules)

end Css

end PrettyPayload
