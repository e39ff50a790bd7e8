import PrettyPayload.Text.Basic

/-!
# Payload kinds

The kinds of payload that can be told apart, and the three places a kind can be read from: its own
name, the value of a `Content-Type` header, and a file extension.
-/

namespace PrettyPayload

/-- What a payload is declared to be. A payload of kind `none` is left alone. -/
inductive Kind where
  | none
  | json
  | xml
  | html
  | css
  deriving DecidableEq, Repr

namespace Kind

def all : List Kind := [none, json, xml, html, css]

def name : Kind → String
  | none => "none"
  | json => "json"
  | xml => "xml"
  | html => "html"
  | css => "css"

/-- The kind of a name, whatever its case and the white space around it. -/
def ofName? (t : Text) : Option Kind :=
  all.find? fun kind => Text.equalsIgnoringCase kind.name.toList (Text.trim Text.isBlank t)

def unknownMessage (t : Text) : String := "unknown payload kind `" ++ String.ofList t ++ "`"

/-- The kind that a content type declares. Parameters are ignored, and a structured suffix
decides where the type itself says nothing. -/
def ofContentType (t : Text) : Kind :=
  let essence := Text.lower (Text.trim Text.isBlank (t.takeWhile (· ≠ ';')))
  if essence = "text/html".toList then html
  else if essence = "text/css".toList then css
  else if essence = "application/json".toList ∨ essence = "text/json".toList then json
  else if essence = "application/xml".toList ∨ essence = "text/xml".toList then xml
  else if "+json".toList.isSuffixOf essence then json
  else if "+xml".toList.isSuffixOf essence then xml
  else none

/-- The kind that a file extension, written without its dot, stands for. -/
def ofExtension (t : Text) : Kind :=
  let known : List (String × Kind) :=
    [("html", html), ("htm", html), ("xhtml", html), ("css", css), ("json", json), ("xml", xml),
      ("svg", xml), ("xsd", xml), ("xsl", xml), ("xslt", xml)]
  match known.find? fun (extension, _) => extension.toList = Text.lower t with
  | some (_, kind) => kind
  | Option.none => none

end Kind

end PrettyPayload
