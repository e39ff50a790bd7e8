import PrettyPayload.Html.Reference
import PrettyPayload.Html.Token

/-!
# Cutting HTML into tokens

`lex` takes the next tokens off a text. How it reads depends on the content model that the tree
construction asks for: ordinary content, text with references only (`rcdata`), text without
(`rawtext`), the content of a script with its own rules for comments, and `plaintext`, which never
ends. No text is refused: whatever starts no tag, comment or declaration is character data, and a
tag that the text ends in is dropped.
-/

namespace PrettyPayload

namespace Html

/-- How the text ahead is read. The names are those of the elements whose end tags end it. -/
inductive Content where
  | data
  /-- As ordinary content, without a byte order mark right behind a script. -/
  | afterScript
  | rcdata (element : String)
  | rawtext (element : String)
  | script
  | plaintext
  deriving DecidableEq, Repr

def isSpace (c : Char) : Bool := Text.isAsciiBlank c

def withoutMark (t : Text) : Text :=
  match t with
  | '\uFEFF' :: rest => rest
  | _ => t

def isLetter (c : Char) : Bool := ('a' ≤ c && c ≤ 'z') || ('A' ≤ c && c ≤ 'Z')

/-! ## Tags -/

def endsTagName (c : Char) : Bool := isSpace c || c = '/' || c = '>'

def endsAttributeName (c : Char) : Bool := endsTagName c || c = '='

def nameOf (t : Text) : String := String.ofList (withoutNull (Text.lower t))

def valueOf (t : Text) : Text := withoutNull (decode true t)

def unquotedValue : Text → Text × Text
  | [] => ([], [])
  | c :: t =>
    if isSpace c || c = '>' then ([], c :: t)
    else
      let (chars, rest) := if c = '&' then reference true t else ([c], t)
      if _h : rest.length ≤ t.length then
        let (value, rest) := unquotedValue rest
        (chars ++ value, rest)
      else (chars, rest)
termination_by t => t.length

/-- The text from a value on, behind the white space between the equals sign and it. A line feed
right behind a carriage return (`afterReturn`) ends the same line, and one more character is lost
with it. -/
def skipToValue (afterReturn : Bool) : Text → Text
  | [] => []
  | c :: t =>
    if c = '\n' ∧ afterReturn then
      match t with
      | [] => []
      | lost :: rest => skipToValue (lost = '\r') rest
    else if isSpace c then skipToValue (c = '\r') t
    else c :: t

/-- The value behind the equals sign of an attribute, and what follows it; nothing if the text
ends first. -/
def attributeValue? (t : Text) : Option (Text × Text) :=
  match skipToValue false t with
  | [] => none
  | c :: u =>
    if c = '"' ∨ c = '\'' then
      match u.dropWhile (· ≠ c) with
      | [] => none
      | _ :: rest => some (valueOf (u.takeWhile (· ≠ c)), rest)
    else
      let (value, rest) := unquotedValue (c :: u)
      some (withoutNull value, rest)

/-- The attribute that starts with a text's first character, whatever that is, and what follows
it; nothing if the text ends first. -/
def attribute? (t : Text) : Option ((String × Text) × Text) :=
  match t with
  | [] => none
  | c :: u =>
    let name := nameOf (c :: u.takeWhile fun d => !endsAttributeName d)
    match (u.dropWhile fun d => !endsAttributeName d).dropWhile isSpace with
    | '=' :: rest => (attributeValue? rest).map fun (value, rest) => ((name, value), rest)
    | rest => some ((name, []), rest)

def addAttribute (attributes : List (String × Text)) (new : String × Text) :
    List (String × Text) :=
  if attributes.any fun (name, _) => name = new.1 then attributes else attributes ++ [new]

/-- The attributes of a tag up to its closing mark, whether it closes itself, and what follows it;
nothing if the text ends first. -/
def attributes? (found : List (String × Text)) (t : Text) :
    Option (List (String × Text) × Bool × Text) :=
  match _start : t.dropWhile isSpace with
  | [] => none
  | '>' :: rest => some (found, false, rest)
  | '/' :: '>' :: rest => some (found, true, rest)
  | '/' :: rest => if _h : rest.length < t.length then attributes? found rest else none
  | u =>
    match attribute? u with
    | none => none
    | some (new, rest) =>
      if _h : rest.length < t.length then attributes? (addAttribute found new) rest else none
termination_by t.length

def tag? (t : Text) : Option (Tag × Text) :=
  let name := nameOf (t.takeWhile fun c => !endsTagName c)
  (attributes? [] (t.dropWhile fun c => !endsTagName c)).map
    fun (attributes, selfClosing, rest) => (⟨name, attributes, selfClosing⟩, rest)

/-! ## Comments -/

inductive CommentSpot where
  /-- Right behind the opening mark. -/
  | start
  /-- Behind the opening mark and a hyphen. -/
  | startDash
  | body
  /-- Behind one hyphen. -/
  | dash
  /-- Behind two hyphens. -/
  | dashes
  /-- Behind two hyphens and an exclamation mark. -/
  | bang
  deriving DecidableEq, Repr

/-- The rest of a comment's text, and what follows the comment. A comment that the text ends in
loses the marks that might have closed it. -/
def commentFrom : CommentSpot → Text → Text × Text
  | _, [] => ([], [])
  | spot, c :: t =>
    let onward (text : Text) (next : CommentSpot) : Text × Text :=
      let (more, rest) := commentFrom next t
      (text ++ more, rest)
    match spot with
    | .start =>
      if c = '-' then onward [] .startDash else if c = '>' then ([], t) else onward [c] .body
    | .startDash =>
      if c = '-' then onward [] .dashes
      else if c = '>' then ([], t)
      else onward ['-', c] .body
    | .body => if c = '-' then onward [] .dash else onward [c] .body
    | .dash => if c = '-' then onward [] .dashes else onward ['-', c] .body
    | .dashes =>
      if c = '>' then ([], t)
      else if c = '!' then onward [] .bang
      else if c = '-' then onward ['-'] .dashes
      else onward ['-', '-', c] .body
    | .bang =>
      if c = '>' then ([], t)
      else if c = '-' then onward ['-', '-', '!'] .dash
      else onward ['-', '-', '!', c] .body

def commentToken (t : Text) : Token := .comment (withoutNull (withLineFeeds t))

/-- A comment up to the next closing angle bracket, as it is made of what is no proper markup. -/
def bogusComment (t : Text) : List Token × Text :=
  ([commentToken (t.takeWhile (· ≠ '>'))], (t.dropWhile (· ≠ '>')).drop 1)

/-! ## Document types -/

/-- What follows the next closing angle bracket. -/
def skipDeclaration (t : Text) : Text := (t.dropWhile (· ≠ '>')).drop 1

/-- A quoted identifier, from behind its quote: its text, whether it was closed by that quote, and
what follows. An angle bracket ends it, too, and is taken along. -/
def quotedId (quote : Char) (t : Text) : Text × Bool × Text :=
  let ends (c : Char) : Bool := c = quote || c = '>'
  let id := withoutNull (withLineFeeds (t.takeWhile fun c => !ends c))
  match t.dropWhile fun c => !ends c with
  | [] => (id, false, [])
  | c :: rest => (id, c = quote, rest)

/-- The system identifier and what follows the declaration, from behind its keyword or the public
identifier. -/
def doctypeSystem (d : Doctype) (needed : Bool) (t : Text) : Doctype × Text :=
  let asBroken : Doctype := { d with broken := true }
  match t.dropWhile isSpace with
  | [] => (asBroken, [])
  | '>' :: rest => (if needed then asBroken else d, rest)
  | c :: rest =>
    if c = '"' ∨ c = '\'' then
      let (id, closed, rest) := quotedId c rest
      if closed then ({ d with systemId := some id }, skipDeclaration rest)
      else ({ d with systemId := some id, broken := true }, rest)
    else (asBroken, skipDeclaration (c :: rest))

/-- The public identifier, what may come behind it, and what follows the declaration, from behind
its keyword. -/
def doctypePublic (d : Doctype) (t : Text) : Doctype × Text :=
  let asBroken : Doctype := { d with broken := true }
  match t.dropWhile isSpace with
  | [] => (asBroken, [])
  | '>' :: rest => (asBroken, rest)
  | c :: rest =>
    if c = '"' ∨ c = '\'' then
      let (id, closed, rest) := quotedId c rest
      if closed then doctypeSystem { d with publicId := some id } false rest
      else ({ d with publicId := some id, broken := true }, rest)
    else (asBroken, skipDeclaration (c :: rest))

/-- The identifiers and what follows the declaration, from behind its name. A keyword that stands
right behind a line end of two characters (`afterReturn`) is not recognised. -/
def doctypeIds (d : Doctype) (afterReturn : Bool) : Text → Doctype × Text
  | [] => ({ d with broken := true }, [])
  | c :: t =>
    if c = '\n' ∧ afterReturn then
      match t with
      | [] => ({ d with broken := true }, [])
      | e :: rest =>
        if isSpace e then doctypeIds d (e = '\r') rest
        else if e = '>' then (d, rest)
        else ({ d with broken := true }, skipDeclaration rest)
    else if isSpace c then doctypeIds d (c = '\r') t
    else if c = '>' then (d, t)
    else
      match Text.dropPrefixIgnoringCase? "public".toList (c :: t) with
      | some rest => doctypePublic d rest
      | none =>
        match Text.dropPrefixIgnoringCase? "system".toList (c :: t) with
        | some rest => doctypeSystem d true rest
        | none => ({ d with broken := true }, skipDeclaration t)

def doctypeFrom (t : Text) : Doctype × Text :=
  match t.dropWhile isSpace with
  | [] => (⟨none, none, none, true⟩, [])
  | '>' :: rest => (⟨none, none, none, true⟩, rest)
  | u =>
    let ends (c : Char) : Bool := isSpace c || c = '>'
    let name := withoutNull (Text.lower (u.takeWhile fun c => !ends c))
    doctypeIds ⟨some name, none, none, false⟩ false (u.dropWhile fun c => !ends c)

/-! ## Text without markup -/

def startsEndTag (element : Text) (t : Text) : Bool :=
  match t with
  | '<' :: '/' :: u =>
    ((Text.dropPrefixIgnoringCase? element u).bind List.head?).any endsTagName
  | _ => false

def untilEndTag (element : Text) : Text → Text × Text
  | [] => ([], [])
  | c :: t =>
    if startsEndTag element (c :: t) then ([], c :: t)
    else
      let (text, rest) := untilEndTag element t
      (c :: text, rest)

inductive ScriptSpot where
  | body
  /-- Behind the mark that may open a comment, and so many of its two hyphens. -/
  | opening (hyphens : Nat)
  /-- In a comment, behind so many hyphens, of which two count. -/
  | comment (hyphens : Nat)
  /-- In a script inside a comment. -/
  | nested (hyphens : Nat)
  deriving DecidableEq, Repr

/-- What `script` and a character that ends a name leave of a text that starts with them. -/
def afterScriptName? (t : Text) : Option Text :=
  match Text.dropPrefixIgnoringCase? "script".toList t with
  | some (c :: rest) => if endsTagName c then some rest else none
  | _ => none

/-- The text of a script up to its end tag, and the rest from that tag on. Inside a comment, a
script element may stand whose end tag does not count. -/
def scriptFrom : ScriptSpot → Text → Text × Text
  | _, [] => ([], [])
  | spot, c :: t =>
    let onward (next : ScriptSpot) : Text × Text :=
      let (text, rest) := scriptFrom next t
      (c :: text, rest)
    let ends := startsEndTag "script".toList (c :: t)
    match spot with
    | .body =>
      if ends then ([], c :: t)
      else
        match c, t with
        | '<', '!' :: u =>
          let (text, rest) := scriptFrom (.opening 0) u
          ('<' :: '!' :: text, rest)
        | _, _ => onward .body
    | .opening hyphens =>
      if c = '-' then onward (if hyphens = 0 then .opening 1 else .comment 2)
      else if ends then ([], c :: t)
      else
        match c, t with
        | '<', '!' :: u =>
          let (text, rest) := scriptFrom (.opening 0) u
          ('<' :: '!' :: text, rest)
        | _, _ => onward .body
    | .comment hyphens =>
      if ends then ([], c :: t)
      else if c = '-' then onward (.comment (min 2 (hyphens + 1)))
      else if c = '>' ∧ hyphens = 2 then onward .body
      else if c = '<' ∧ (afterScriptName? t).isSome then onward (.nested 0)
      else onward (.comment 0)
    | .nested hyphens =>
      if c = '-' then onward (.nested (min 2 (hyphens + 1)))
      else if c = '>' ∧ hyphens = 2 then onward .body
      else if ends then onward (.comment 0)
      else onward (.nested 0)

/-- What the place of ordinary content says about how it is read. -/
structure ContentRules where
  /-- Whether character data sections count as such. -/
  cdata : Bool
  /-- Whether each piece of character data is a token of its own. -/
  piecewise : Bool
  deriving DecidableEq, Repr

def endsRun (c : Char) : Bool := c = '<' || c = '\x00'

def charsToken (t : Text) : List Token := if t = [] then [] else [.chars t]

/-! ## The next tokens -/

def endTagFrom (t : Text) : List Token × Text :=
  match t with
  | '<' :: '/' :: u =>
    match tag? u with
    | some (tag, rest) => ([.endTag tag], rest)
    | none => ([], [])
  | _ => ([], t)

def lexDeclaration (cdata : Bool) (t : Text) : List Token × Text :=
  match Text.dropPrefix? "--".toList t with
  | some u =>
    let (text, rest) := commentFrom .start u
    ([commentToken text], rest)
  | none =>
    match Text.dropPrefixIgnoringCase? "doctype".toList t with
    | some u =>
      let (d, rest) := doctypeFrom u
      ([.doctype d], rest)
    | none =>
      match if cdata then Text.dropPrefix? "[CDATA[".toList t else none with
      | some u =>
        let (text, rest) := (Text.breakAt? "]]>".toList u).getD (u, [])
        let parts := Text.splitOn '\x00' (withLineFeeds text)
        (((parts.map charsToken).intersperse [.null]).flatten, rest)
      | none => bogusComment t

def lexMarkup (cdata : Bool) (t : Text) : List Token × Text :=
  match t with
  | '!' :: u => lexDeclaration cdata u
  | '?' :: _ => bogusComment t
  | '/' :: [] => ([.chars ['<'], .chars ['/']], [])
  | '/' :: '>' :: rest => ([.fault], rest)
  | '/' :: c :: u =>
    if isLetter c then
      match tag? (c :: u) with
      | some (tag, rest) => ([.endTag tag], rest)
      | none => ([], [])
    else bogusComment (c :: u)
  | c :: u =>
    if isLetter c then
      match tag? (c :: u) with
      | some (tag, rest) => ([.startTag tag], rest)
      | none => ([], [])
    else if isPlain c && !endsRun c then ([.chars ['<'], .chars [c]], u)
    else ([.chars ['<']], c :: u)
  | [] => ([.chars ['<']], [])

def lexData (rules : ContentRules) (t : Text) : List Token × Text :=
  match t with
  | [] => ([], [])
  | '\x00' :: rest => ([.null], rest)
  | '<' :: rest => lexMarkup rules.cdata rest
  | _ =>
    let text := t.takeWhile fun c => !endsRun c
    ((if startsUnterminated text then [.fault] else []) ++
        (if rules.piecewise then (pieces text).map .chars else charsToken (decode false text)),
      t.dropWhile fun c => !endsRun c)

def lex (content : Content) (rules : ContentRules) (t : Text) : List Token × Text :=
  match content with
  | .data => lexData rules t
  | .afterScript => lexData rules (withoutMark t)
  | .rcdata element =>
    let (text, rest) := untilEndTag element.toList t
    let (tokens, rest) := endTagFrom rest
    ((if startsUnterminated text then [.fault] else []) ++
      charsToken (withoutNull (decode false text)) ++ tokens, rest)
  | .rawtext element =>
    let (text, rest) := untilEndTag element.toList t
    let (tokens, rest) := endTagFrom rest
    (charsToken (withoutNull (withLineFeeds text)) ++ tokens, rest)
  | .script =>
    let (text, rest) := scriptFrom .body t
    let (tokens, rest) := endTagFrom rest
    (charsToken (withoutNull (withLineFeeds text)) ++ tokens, rest)
  | .plaintext => (charsToken (withoutNull (withLineFeeds t)), [])

end Html

end PrettyPayload
