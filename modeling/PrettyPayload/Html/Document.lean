import PrettyPayload.Html.Page.Step

/-!
# Reading HTML

`pageOf` reads a whole page or what could stand in the body of one, and refuses no text.
`looksLikeDocument` tells the two apart by how a text starts, and `read` goes by that.
-/

namespace PrettyPayload

namespace Html

/-- Takes tokens up in order; the result says how the text ahead is read. -/
def takeAll : List Token → Build Content
  | [] => pure .data
  | [token] => Build.take token
  | token :: tokens => do
    let _ ← Build.take token
    takeAll tokens

def Page.contentRules (page : Page) : ContentRules :=
  ⟨!page.stack.isEmpty && page.adjustedName.space ≠ .html, page.mode.isOfTable⟩

/-- Reads a text to its end. Every round takes at least one character off the text. -/
def readAll (content : Content) (t : Text) (page : Page) : Page :=
  if t = [] then (Build.take .eof page).2
  else
    let (tokens, rest) := lex content page.contentRules t
    let (content, page) := takeAll tokens page
    if _h : rest.length < t.length then readAll content rest page else page
termination_by t.length

def pageOf (isFragment : Bool) (t : Text) : Page :=
  readAll .data (withoutMark t) (.start isFragment)

/-- The tree of a page under its document node, or of a fragment under the element that stands for
the body. -/
def Page.tree (page : Page) : Tree Node :=
  page.forest.tree (if page.isFragment then page.outermost else Forest.root)

/-! ## Pages and fragments -/

def documentTags : List Text := ["<html".toList, "<head".toList, "<body".toList]

/-- The text behind blanks and comments at its start; nothing if a comment is never closed. -/
def skipProlog? (t : Text) : Option Text :=
  let u := t.dropWhile Text.isAsciiBlank
  match Text.dropPrefix? "<!--".toList u with
  | none => some u
  | some comment =>
    match Text.breakAt? "-->".toList comment with
    | none => none
    | some (_, rest) => if _h : rest.length < t.length then skipProlog? rest else none
termination_by t.length

/-- Whether a text starts a page: with a document type or an `html`, `head` or `body` tag behind
blanks and comments. -/
def looksLikeDocument (t : Text) : Bool :=
  match skipProlog? (t.dropWhile (· = '\uFEFF')) with
  | none => false
  | some u =>
    (Text.dropPrefixIgnoringCase? "<!doctype".toList u).isSome ||
      documentTags.any fun tag =>
        match Text.dropPrefixIgnoringCase? tag u with
        | none => false
        | some [] => true
        | some (c :: _) => Text.isAsciiBlank c || c = '>' || c = '/'

def read (t : Text) : Page := pageOf (!looksLikeDocument t) t

end Html

end PrettyPayload
