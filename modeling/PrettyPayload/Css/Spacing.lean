import PrettyPayload.Css.Scan

/-!
# White space in a stylesheet

Outside string literals a run of white space means as much as one space, and at the ends of a
selector, prelude, property or value it means nothing. `collapse` writes a text that way and
copies its literals. Here a backslash hides a character only inside a literal.
-/

namespace PrettyPayload

namespace Css

/-- Where a text is being copied: between literals, right behind a space or not, or in a literal,
right behind a backslash or not. -/
inductive Spot where
  | between (spaced : Bool)
  | inside (quote : Char) (escaped : Bool)
  deriving DecidableEq, Repr

namespace Spot

def step : Spot → Char → Spot
  | between _, c => if isQuote c then inside c false else between (Text.isBlank c)
  | inside q true, _ => inside q false
  | inside q false, c =>
    if c = '\\' then inside q true else if c = q then between false else inside q false

/-- What one more character leaves in the copy. -/
def emit : Spot → Char → Text
  | inside _ _, c => [c]
  | between spaced, c =>
    if isQuote c then [c]
    else if Text.isBlank c then if spaced then [] else [' ']
    else [c]

end Spot

/-- The copy of a text from a spot on, each run of white space between literals made one space. -/
def collapseFrom : Spot → Text → Text
  | _, [] => []
  | k, c :: t => k.emit c ++ collapseFrom (k.step c) t

/-- The text with each run of white space outside literals made one space, and none at the ends. -/
def collapse (t : Text) : Text := Text.trim Text.isBlank (collapseFrom (.between false) t)

end Css

end PrettyPayload
