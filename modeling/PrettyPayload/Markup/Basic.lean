import PrettyPayload.Text.Basic

/-!
# Nodes of a marked-up document

HTML and XML documents share one set of node kinds. What differs is how they are written, which is
the document's flavor. Character data comes in three sorts: `text` is escaped when it is written,
`data` is the raw text of scripts and the like, and `css` is a stylesheet that a pass has already
laid out.
-/

namespace PrettyPayload

namespace Markup

inductive Flavor where
  | html
  | xml
  deriving DecidableEq, Repr

structure Element where
  name : Text
  attributes : List (Text × Text)
  deriving DecidableEq, Repr

namespace Element

def attribute? (e : Element) (name : Text) : Option Text := e.attributes.lookup name

/-- The attributes with the first one of a name given a value, or with a new one at the end. -/
def setIn (name value : Text) : List (Text × Text) → List (Text × Text)
  | [] => [(name, value)]
  | (key, old) :: rest =>
    if key = name then (key, value) :: rest else (key, old) :: setIn name value rest

/-- Gives an attribute a value: in its place if it is there, else at the end. -/
def setAttribute (e : Element) (name value : Text) : Element :=
  { e with attributes := setIn name value e.attributes }

@[simp] theorem name_setAttribute (e : Element) (name value : Text) :
    (e.setAttribute name value).name = e.name := rfl

def isStyle (e : Element) : Bool := Text.equalsIgnoringCase "style".toList e.name

end Element

inductive Node where
  /-- The root, which is itself not written. -/
  | document
  /-- What stands between the opening mark of a document type and its end. -/
  | doctype (t : Text)
  | element (e : Element)
  | text (t : Text)
  | data (t : Text)
  | css (t : Text)
  | comment (t : Text)
  | instruction (target data : Text)
  deriving DecidableEq, Repr

namespace Node

def element? : Node → Option Element
  | element e => some e
  | _ => none

def text? : Node → Option Text
  | text t => some t
  | data t => some t
  | css t => some t
  | _ => none

end Node

end Markup

end PrettyPayload
