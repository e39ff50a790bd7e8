import PrettyPayload.Html.Forest
import PrettyPayload.Html.Lexer

/-!
# The state of a page under construction

A page is built token by token. What a token does depends on the insertion mode and on two lists:
the elements that are open, outermost first, and the formatting elements that may have to be opened
again. `Build` is a change of that state with a result; this module has the changes that the rules
of all modes share.
-/

namespace PrettyPayload

namespace Html

/-- The insertion modes, in the order in which a page passes through them. -/
inductive Mode where
  | initial
  | beforeHtml
  | beforeHead
  | inHead
  | afterHead
  | inBody
  | text
  | inTable
  | inTableText
  | inCaption
  | inColumnGroup
  | inTableBody
  | inRow
  | inCell
  | inSelect
  | inSelectInTable
  | inTemplate
  | afterBody
  | inFrameset
  | afterFrameset
  | afterAfterBody
  | afterAfterFrameset
  deriving DecidableEq, Repr

/-- Whether character data in a mode may stand between the parts of a table. -/
def Mode.isOfTable : Mode → Bool
  | inTable | inTableText | inColumnGroup | inTableBody | inRow => true
  | _ => false

/-- An entry in the list of formatting elements. A marker closes the list off for what is inside a
table cell, a caption and the like. -/
inductive Formatting where
  | marker
  | element (h : Nat) (tag : Tag)
  deriving Repr

structure Page where
  forest : Forest
  mode : Mode
  /-- The mode to return to from `text` and `inTableText`. -/
  returnMode : Mode
  templateModes : List Mode
  /-- Character data met between the parts of a table, in order. -/
  tableText : List Text
  /-- Whether the page counts as an old one. -/
  oldPage : Bool
  /-- The open elements, outermost first. -/
  stack : Array Nat
  formatting : Array Formatting
  head : Option Nat
  form : Option Nat
  /-- Whether a frame set may still take the place of the body. -/
  framesetOk : Bool
  /-- Whether a line feed is dropped if it comes next. -/
  skipLineFeed : Bool
  /-- Whether what does not belong into a table is put in front of it. -/
  fostering : Bool
  /-- The number of tokens so far that did not belong into a table. -/
  misplaced : Nat
  /-- Whether the page is a fragment that belongs into a body. -/
  isFragment : Bool
  deriving Repr

abbrev Build (α : Type) := StateM Page α

/-- What remains to be done after a rule was applied to a token. -/
inductive Step where
  | done
  /-- The token is taken up again in another mode. -/
  | reprocess (mode : Mode) (token : Token)
  /-- The token is taken up again in the same mode. -/
  | again (token : Token)
  /-- The characters are taken up again, blanks and others apart. -/
  | split (t : Text)
  /-- The text ahead is read in another way. -/
  | content (c : Content)
  deriving Repr

namespace Page

/-- A page before its first token; in a fragment the outermost element is already there. -/
def start (isFragment : Bool) : Page :=
  let page : Page :=
    { forest := .start, mode := .initial, returnMode := .initial, templateModes := [],
      tableText := [], oldPage := false, stack := #[], formatting := #[], head := none,
      form := none, framesetOk := true, skipLineFeed := false, fostering := false, misplaced := 0,
      isFragment }
  if isFragment then
    let (h, forest) := page.forest.create (.element (htmlName "html") [])
    { page with forest := forest.append Forest.root h, mode := .inBody, stack := #[h] }
  else page

def current (page : Page) : Nat := page.stack.back?.getD Forest.root

def outermost (page : Page) : Nat := page.stack[0]?.getD Forest.root

def nameOf (page : Page) (h : Nat) : Name := page.forest.name h

/-- The name of the innermost open element, or of the body if that is the fragment's root. -/
def adjustedName (page : Page) : Name :=
  if page.isFragment ∧ page.stack.size = 1 then htmlName "body" else page.nameOf page.current

def hasOpen (page : Page) (name : String) : Bool :=
  page.stack.any fun h => page.nameOf h = htmlName name

def currentIs (page : Page) (name : String) : Bool := page.nameOf page.current = htmlName name

/-- Looks through elements, innermost first, for one with a property, up to the end of a scope. -/
def searchScope (page : Page) (scope : NameSet) (p : Nat → Bool) : List Nat → Bool
  | [] => false
  | h :: hs => p h || (!scope (page.nameOf h) && page.searchScope scope p hs)

def inScope (page : Page) (scope : NameSet) (p : Nat → Bool) : Bool :=
  page.searchScope scope p page.stack.toList.reverse

def inScopeNamed (page : Page) (scope : NameSet) (names : List String) : Bool :=
  page.inScope scope fun h => NameSet.ofHtml names (page.nameOf h)

def body? (page : Page) : Option Nat :=
  (page.stack[1]?).filter fun h => page.nameOf h = htmlName "body"

def formattingIndex? (page : Page) (h : Nat) : Option Nat :=
  page.formatting.findIdx? fun entry =>
    match entry with
    | .element k _ => k = h
    | .marker => false

def modeFor (page : Page) : List Nat → Mode
  | [] => .inBody
  | h :: outer =>
    let last := outer.isEmpty
    let name := if last ∧ page.isFragment then htmlName "body" else page.nameOf h
    if name.space ≠ .html then page.modeFor outer
    else
      match name.localName with
      | "select" =>
        let inner := outer.find? fun a =>
          NameSet.ofHtml ["template", "table"] (page.nameOf a)
        match inner with
        | some a => if page.nameOf a = htmlName "table" then .inSelectInTable else .inSelect
        | none => .inSelect
      | "td" | "th" => if last then page.modeFor outer else .inCell
      | "tr" => .inRow
      | "tbody" | "thead" | "tfoot" => .inTableBody
      | "caption" => .inCaption
      | "colgroup" => .inColumnGroup
      | "table" => .inTable
      | "template" => page.templateModes.head?.getD .inTemplate
      | "head" => if last then page.modeFor outer else .inHead
      | "body" => .inBody
      | "frameset" => .inFrameset
      | "html" => if page.head.isSome then .afterHead else .beforeHead
      | _ => page.modeFor outer

def fittingMode (page : Page) : Mode := page.modeFor page.stack.toList.reverse

end Page

namespace Build

def done : Build Step := pure .done

def setMode (mode : Mode) : Build Unit := modify fun page => { page with mode }

/-- No frame set may take the place of the body any more. -/
def refuseFrameset : Build Unit := modify fun page => { page with framesetOk := false }

def create (node : Node) : Build Nat := modifyGet fun page =>
  let (h, forest) := page.forest.create node
  (h, { page with forest })

def onForest (change : Forest → Forest) : Build Unit :=
  modify fun page => { page with forest := change page.forest }

/-- Makes an element without a parent. A template gets the node that holds its content. -/
def createElement (name : Name) (attributes : List (String × Text)) : Build Nat := do
  let h ← create (.element name attributes)
  if name = htmlName "template" then
    let content ← create .fragment
    onForest fun f => f.append h content
  return h

/-! ## Places -/

inductive Place where
  | lastIn (parent : Nat)
  /-- In front of a table, or at the end of another element if the table has no parent. -/
  | aroundTable (table outer : Nat)
  deriving Repr

def endOf (page : Page) (h : Nat) : Place :=
  if page.nameOf h = htmlName "template" then
    .lastIn ((page.forest.children h).head?.getD h)
  else .lastIn h

/-- The place for what does not belong into a table, by the open elements, innermost first. -/
def fosterPlace (page : Page) : List Nat → Place
  | [] => .lastIn page.outermost
  | h :: outer =>
    if page.nameOf h = htmlName "template" then endOf page h
    else if page.nameOf h = htmlName "table" then .aroundTable h (outer.head?.getD h)
    else fosterPlace page outer

def placeIn (page : Page) (target : Nat) : Place :=
  if page.fostering &&
      NameSet.ofHtml ["table", "tbody", "tfoot", "thead", "tr"] (page.nameOf target) then
    fosterPlace page page.stack.toList.reverse
  else endOf page target

def put (place : Place) (h : Nat) : Build Unit := onForest fun f =>
  match place with
  | .lastIn parent => f.append parent h
  | .aroundTable table outer =>
    if (f.parent? table).isSome then f.insertBefore table h else f.append outer h

def appendText (t : Text) : Build Unit := do
  let page ← get
  onForest fun f =>
    match placeIn page page.current with
    | .lastIn parent => f.appendText parent t
    | .aroundTable table outer =>
      if (f.parent? table).isSome then f.insertTextBefore table t else f.appendText outer t

def appendComment (t : Text) : Build Step := do
  let h ← create (.comment t)
  let page ← get
  put (placeIn page page.current) h
  done

def appendCommentTo (parent : Nat) (t : Text) : Build Step := do
  let h ← create (.comment t)
  onForest fun f => f.append parent h
  done

/-! ## The open elements -/

def push (h : Nat) : Build Unit := modify fun page => { page with stack := page.stack.push h }

def pop : Build Unit := modify fun page => { page with stack := page.stack.pop }

def removeFromStack (h : Nat) : Build Unit := modify fun page =>
  match page.stack.toList.reverse.findIdx? (· = h) with
  | some i => { page with stack := page.stack.eraseIdxIfInBounds (page.stack.size - 1 - i) }
  | none => page

/-- The open elements, outermost first, without the innermost ones up to and including the first
one of a set. -/
def withoutUpTo (page : Page) (names : NameSet) : List Nat → List Nat
  | [] => []
  | h :: outer => if names (page.nameOf h) then outer else withoutUpTo page names outer

def popUntil (names : NameSet) : Build Unit := modify fun page =>
  { page with stack := (withoutUpTo page names page.stack.toList.reverse).reverse.toArray }

def popUntilNamed (name : String) : Build Unit := popUntil fun n => n = htmlName name

def popWhile (names : NameSet) : Build Unit := modify fun page =>
  { page with stack := (page.stack.toList.reverse.dropWhile fun h =>
    names (page.nameOf h)).reverse.toArray }

def popUntilCurrent (names : List String) : Build Unit :=
  popWhile fun n => !NameSet.ofHtml names n

/-- Closes the elements whose end tags may be left out, but none of a certain name. -/
def closeImpliedExcept (name : String) : Build Unit :=
  popWhile fun n => impliedEnd n && n ≠ htmlName name

def closeImplied : Build Unit := popWhile impliedEnd

def closeParagraph : Build Unit := do
  closeImpliedExcept "p"
  popUntilNamed "p"

def closeParagraphInScope : Build Unit := do
  if (← get).inScopeNamed buttonScope ["p"] then closeParagraph

/-! ## New elements -/

def insertClosed (name : Name) (attributes : List (String × Text)) : Build Nat := do
  let h ← createElement name attributes
  let page ← get
  put (placeIn page page.current) h
  return h

def insertOpen (name : Name) (attributes : List (String × Text)) : Build Nat := do
  let h ← insertClosed name attributes
  push h
  return h

def insertFor (tag : Tag) : Build Nat := insertOpen (htmlName tag.name) tag.attributes

def insertVoid (tag : Tag) : Build Nat := insertClosed (htmlName tag.name) tag.attributes

def insertMissing (name : String) : Build Nat := insertOpen (htmlName name) []

def createRoot (attributes : List (String × Text)) : Build Unit := do
  let h ← createElement (htmlName "html") attributes
  push h
  onForest fun f => f.append Forest.root h

/-- An element whose content is read in another way up to its end tag. -/
def insertRaw (tag : Tag) (content : Content) : Build Step := do
  let _ ← insertFor tag
  modify fun page => { page with returnMode := page.mode, mode := .text }
  return .content content

/-- Another start tag of the outermost element adds its attributes. -/
def mergeRoot (tag : Tag) : Build Step := do
  let page ← get
  if !page.hasOpen "template" then
    onForest fun f => f.addAttributes page.outermost tag.attributes
  done

end Build

end Html

end PrettyPayload
