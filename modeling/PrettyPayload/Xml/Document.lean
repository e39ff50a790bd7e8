import PrettyPayload.Xml.Prolog

/-!
# Reading XML documents

`Source.parse?` reads a whole document, or finds it malformed. A source keeps apart what stands
before the root element and the nodes from the root element on, since a document type and the
declaration of the document are no nodes and have to be found among the former.
-/

namespace PrettyPayload

namespace Xml

structure Source where
  /-- The text before the root element. -/
  prolog : Text
  /-- The comments and instructions before the root element. -/
  remarks : List (Placed Node)
  /-- The document type and the place of its opening mark. -/
  doctype : Option (Placed Doctype)
  /-- The root element and what follows it. -/
  content : List (Tree Node)

namespace Source

def isElement : Tree Node → Bool
  | .node (.element ..) _ => true
  | _ => false

def dropMark : Text → Text
  | '\uFEFF' :: t => t
  | t => t

def doctypePart? (stop : Nat) (t : Text) :
    Option (Option (Placed Doctype) × List (Placed Node) × Text) :=
  match Text.dropPrefix? "<!DOCTYPE".toList t with
  | none => some (none, [], t)
  | some rest => do
    let (doctype, rest) ← doctype? stop rest
    let (remarks, rest) ← remarks? stop rest
    return (some ⟨stop - t.length, doctype⟩, doctype.remarks ++ remarks, rest)

def parse? (source : Text) : Option Source := do
  let stop := source.length
  let t := dropMark source
  let t ←
    if Text.startsWith "<?xml ".toList t then declaration? (t.drop "<?xml".length) else some t
  let (before, t) ← remarks? stop t
  let (doctype, behind, t) ← doctypePart? stop t
  let entities := doctype.elim [] (·.value.entities)
  let (tokens, rest) ← element? t
  let (after, rest) ← remarks? stop rest
  let b ← build entities nestingLimit true tokens .start
  let content ← (after.foldl (fun b remark => b.add (.node remark.value [])) b).finish?
  if rest = [] ∧ content.any isElement then
    some
      { prolog := source.take (stop - t.length)
        remarks := before ++ behind
        doctype
        content }
  else none

end Source

end Xml

end PrettyPayload
