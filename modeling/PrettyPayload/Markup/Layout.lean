import PrettyPayload.Markup.Escape
import PrettyPayload.Options
import PrettyPayload.Tree

/-!
# The layout of elements

How an element is written depends on what it is and on what is in it. `layoutOf` decides that, and
the rest of this module writes the parts: tags, the non-empty trimmed lines of character data
(`segments`), and whole subtrees without any layout (`inline`).
-/

namespace PrettyPayload

namespace Markup

/-- The elements of HTML that have no end tag. -/
def voidElements : List Text :=
  ["area", "base", "br", "col", "embed", "hr", "img", "input", "link", "meta", "source", "track",
    "wbr", "param", "keygen", "basefont", "bgsound", "frame"].map String.toList

/-- The elements of HTML whose content is written as it was read. -/
def preformattedElements : List Text :=
  ["pre", "textarea", "listing", "script", "xmp", "plaintext", "iframe", "noembed", "noframes",
    "noscript"].map String.toList

/-- The elements of HTML whose start tag takes one line feed behind it along when it is read. -/
def lineFeedElements : List Text := ["pre", "textarea", "listing"].map String.toList

def isVoid (flavor : Flavor) (e : Element) : Bool :=
  flavor = .html && voidElements.contains e.name

/-- Whether the content of an element is written as it was read. In XML the element itself says
so. -/
def isPreformatted (flavor : Flavor) (e : Element) : Bool :=
  match flavor with
  | .html => preformattedElements.contains e.name
  | .xml => e.attribute? "xml:space".toList = some "preserve".toList

/-! ## Character data -/

/-- The lines of a text, each trimmed, without the empty ones. -/
def segments (t : Text) : List Text :=
  ((Text.splitOn '\n' t).map (Text.trim Text.isAsciiBlank)).filter (· ≠ [])

/-- Whether a node is character data without anything but blanks. In indented places such nodes
are not written; the layout takes their place. -/
def isBlankNode : Node → Bool
  | .text t => t.all Text.isAsciiBlank
  | .data t => t.all Text.isAsciiBlank
  | _ => false

/-! ## Tags -/

/-- An attribute behind the name of its element. HTML leaves an empty value out. -/
def attributeText (flavor : Flavor) (name value : Text) : Text :=
  if flavor = .html ∧ value = [] then ' ' :: name
  else ' ' :: name ++ ['=', '"'] ++ escapeAttribute flavor value ++ ['"']

def startTag (flavor : Flavor) (e : Element) (closed : Bool) : Text :=
  '<' :: e.name ++ (e.attributes.flatMap fun (name, value) => attributeText flavor name value) ++
    (if closed then ['/', '>'] else ['>'])

def endTag (e : Element) : Text := '<' :: '/' :: e.name ++ ['>']

def commentText (t : Text) : Text := "<!--".toList ++ t ++ "-->".toList

def doctypeText (t : Text) : Text := "<!DOCTYPE ".toList ++ t ++ ['>']

def instructionText (flavor : Flavor) (target data : Text) : Text :=
  '<' :: '?' :: target ++ (if data = [] then [] else ' ' :: data) ++
    (match flavor with
      | .html => ['>']
      | .xml => ['?', '>'])

/-! ## Subtrees without layout -/

mutual

def inline (flavor : Flavor) : Tree (Nat × Node) → Text
  | .node (_, node) ts =>
    match node with
    | .element e =>
      match flavor with
      | .html =>
        startTag flavor e false ++ inlineAll flavor ts ++
          (if isVoid flavor e then [] else endTag e)
      | .xml =>
        if ts.isEmpty then startTag flavor e true
        else startTag flavor e false ++ inlineAll flavor ts ++ endTag e
    | .text t => escapeText flavor t ++ inlineAll flavor ts
    | .data t => t ++ inlineAll flavor ts
    | .css t => t ++ inlineAll flavor ts
    | .comment t => commentText t ++ inlineAll flavor ts
    | .instruction target data => instructionText flavor target data ++ inlineAll flavor ts
    | .doctype t => doctypeText t ++ inlineAll flavor ts
    | .document => inlineAll flavor ts

def inlineAll (flavor : Flavor) : List (Tree (Nat × Node)) → Text
  | [] => []
  | t :: ts => inline flavor t ++ inlineAll flavor ts

end

/-! ## Layouts -/

inductive Layout where
  /-- A start tag alone. -/
  | void
  /-- One tag that closes itself. -/
  | selfClosing
  /-- Start tag, content as it was read, end tag. -/
  | verbatim
  /-- A stylesheet that brings its own lines. -/
  | stylesheet
  /-- Start tag and end tag. -/
  | empty
  /-- One line of text between the tags. -/
  | singleLine (t : Text)
  /-- The tags on lines of their own, the content indented between them. -/
  | block
  deriving DecidableEq, Repr

def singleSegment? : List Node → Option Text
  | [.text t] =>
    match segments t with
    | [segment] => some segment
    | _ => none
  | _ => none

def layoutOf (flavor : Flavor) (inlineSingleText : Bool) (e : Element) (children : List Node) :
    Layout :=
  if isVoid flavor e then .void
  else if isPreformatted flavor e then .verbatim
  else if flavor = .html ∧ e.isStyle then .stylesheet
  else
    match children.filter fun node => !isBlankNode node with
    | [] =>
      match flavor with
      | .html => .empty
      | .xml => .selfClosing
    | counting =>
      match if inlineSingleText then singleSegment? counting else none with
      | some segment => .singleLine segment
      | none => .block

end Markup

end PrettyPayload
