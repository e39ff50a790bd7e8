import PrettyPayload.Css.Basic
import PrettyPayload.Css.Comment
import PrettyPayload.Css.Spacing

/-!
# Reading a stylesheet

After comment removal a stylesheet is a sequence of blocks and statements. `readItems` cuts it at
the first brace or semicolon that counts: an opening brace starts a block, whose end is found by
counting braces, and a semicolon or the end of the text ends a statement. A block body is read
the same way, and there a statement may be a declaration.

`parseStylesheet` reads the content of a stylesheet, `parseDeclarations` a list of declarations
as it stands in an attribute.
-/

namespace PrettyPayload

namespace Css

/-! ## Declarations -/

/-- A value without `!important` at its end, and whether it was there. White space may stand
before the mark, behind it and after the word, whose case is free. -/
def splitImportant (value : Text) : Text × Bool :=
  let trimmed := Text.trimEnd Text.isBlank value
  match Text.dropPrefixIgnoringCase? "tnatropmi".toList trimmed.reverse with
  | none => (trimmed, false)
  | some back =>
    match back.dropWhile Text.isBlank with
    | '!' :: rest => ((rest.dropWhile Text.isBlank).reverse, true)
    | _ => (trimmed, false)

/-- The declaration that a text spells: property and value are parted by its first colon that
counts. -/
def readDeclaration (t : Text) : Except Error Declaration :=
  let trimmed := Text.trim Text.isBlank t
  match breakAt (· = ':') Nesting.start trimmed with
  | none => .error (.missingColon (excerpt trimmed))
  | some (before, _, after) =>
    let property := collapse before
    if property = [] then .error (.emptyProperty (excerpt trimmed))
    else
      let (value, important) := splitImportant (collapse after)
      .ok ⟨property, value, important⟩

/-! ## Heads and statements -/

def splitAtName (t : Text) : Text × Text :=
  (t.takeWhile isNameChar, Text.trim Text.isBlank (t.dropWhile isNameChar))

def readSelectors (prelude : Text) : Except Error (List Text) :=
  (splitAtTop ',' prelude).mapM fun part =>
    let selector := Text.trim Text.isBlank part
    if selector = [] then .error (.missingSelector (excerpt prelude)) else .ok selector

/-- The head of a block, from the text before its opening brace; `body` is quoted where there is
no such text. -/
def readHead (before body : Text) : Except Error Head :=
  match collapse before with
  | [] => .error (.missingSelector (excerpt body))
  | '@' :: rest =>
    let (name, prelude) := splitAtName rest
    if name = [] then .error (.missingSelector (excerpt ('@' :: rest)))
    else .ok (.atRule name prelude)
  | prelude => Head.style <$> readSelectors prelude

/-- A statement: an at-rule without a block or, below the top, a declaration. -/
def readStatement (top : Bool) (t : Text) : Except Error Item :=
  let trimmed := Text.trim Text.isBlank t
  let asDeclaration : Except Error Item :=
    if top then .error (.strayDeclaration (excerpt trimmed))
    else Item.declaration <$> readDeclaration trimmed
  match trimmed with
  | '@' :: rest =>
    let (name, prelude) := splitAtName (collapse rest)
    if name = [] then asDeclaration else .ok (.statement name prelude)
  | _ => asDeclaration

/-! ## Items -/

/-- The text from its first item on. At the top, the marks that hide a stylesheet inside an HTML
comment are skipped too. -/
def skipSeparators (top : Bool) : Text → Text
  | '<' :: '!' :: '-' :: '-' :: t =>
    if top then skipSeparators top t else '<' :: '!' :: '-' :: '-' :: t
  | '-' :: '-' :: '>' :: t => if top then skipSeparators top t else '-' :: '-' :: '>' :: t
  | c :: t => if Text.isAsciiBlank c || c = ';' then skipSeparators top t else c :: t
  | [] => []

theorem length_skipSeparators_le (top : Bool) (t : Text) :
    (skipSeparators top t).length ≤ t.length := by
  fun_induction skipSeparators top t <;> (first | rfl | (simp_all; try omega))

/-- The three characters that end the head of a block or a statement. -/
def endsItem (c : Char) : Bool := c = '{' || c = ';' || c = '}'

/-- The items of a text without comments; at the top, declarations are refused. -/
def readItems (top : Bool) (t : Text) : Except Error (List Item) :=
  match _skipped : skipSeparators top t with
  | [] => .ok []
  | c :: u =>
    match _cut : breakAt endsItem Nesting.start (c :: u) with
    | none => do
      let item ← readStatement top (c :: u)
      return [item]
    | some (before, stop, after) =>
      if stop = '}' then .error (.unexpectedCloseBrace (excerpt (before ++ ['}'])))
      else if stop = '{' then
        match _closed : closeBlock Quoting.start 0 after with
        | none => .error (.unclosedBlock (excerpt before))
        | some (body, rest) => do
          let head ← readHead before body
          let items ← readItems false body
          let more ← readItems top rest
          return .block head items :: more
      else do
        let item ← readStatement top before
        let more ← readItems top after
        return item :: more
termination_by t.length
decreasing_by
  all_goals
    have hs := length_skipSeparators_le top t
    have hc := length_of_breakAt _cut
    rw [_skipped] at hs
    simp only [List.length_cons] at hs hc
  · have := length_of_closeBlock _closed; omega
  · have := length_of_closeBlock _closed; omega
  · omega

def parseStylesheet (source : Text) : Except Error Stylesheet := do
  let text ← stripComments source
  let items ← readItems true text
  return Stylesheet.ofItems items

def parseDeclarations (source : Text) : Except Error (List Declaration) := do
  let text ← stripComments source
  let parts := (splitAtTop ';' text).filter fun part => Text.trim Text.isBlank part ≠ []
  parts.mapM readDeclaration

end Css

end PrettyPayload
