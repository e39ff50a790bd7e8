import PrettyPayload.Text.Basic

/-!
# Tokens of HTML

The lexer hands these to the construction of the tree. Character data comes in runs without null
characters; a null character is a token of its own, since each context treats it differently.
-/

namespace PrettyPayload

namespace Html

/-- A start or end tag. Names are in lower case, attributes in source order, each name once. -/
structure Tag where
  name : String
  attributes : List (String × Text)
  selfClosing : Bool
  deriving DecidableEq, Repr

namespace Tag

def plain (name : String) : Tag := ⟨name, [], false⟩

def attribute? (tag : Tag) (name : String) : Option Text := tag.attributes.lookup name

def isHidden (tag : Tag) : Bool :=
  (tag.attribute? "type").any (Text.equalsIgnoringCase "hidden".toList)

end Tag

structure Doctype where
  name : Option Text
  publicId : Option Text
  systemId : Option Text
  /-- Whether the declaration itself is broken, so that the page counts as an old one. -/
  broken : Bool
  deriving DecidableEq, Repr

inductive Token where
  | doctype (d : Doctype)
  | startTag (tag : Tag)
  | endTag (tag : Tag)
  | comment (t : Text)
  | chars (t : Text)
  | null
  /-- A fault that no other token stands for. A line feed behind it is kept. -/
  | fault
  | eof
  deriving DecidableEq, Repr

end Html

end PrettyPayload
