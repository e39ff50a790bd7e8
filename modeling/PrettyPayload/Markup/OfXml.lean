import PrettyPayload.Markup.Document
import PrettyPayload.Xml.Document

/-!
# Documents from XML

`Document.ofXml?` reads well-formed XML into a document. Names are written with the qualifiers under
which their namespaces are known, and each element declares the bindings that come into scope at
it. The declaration of the document becomes an instruction, and the document type is looked up in
the text before the root element.
-/

namespace PrettyPayload

namespace Markup

/-- The data of the declaration of a document: what stands between `<?xml` and `?>`, if white space
follows the word. -/
def xmlDeclaration? (source : Text) : Option Text :=
  match Text.dropPrefix? "<?xml".toList (source.dropWhile (· = '\uFEFF')) with
  | some (c :: t) =>
    if Text.isAsciiBlank c then
      (Text.breakAt? "?>".toList (c :: t)).map fun (before, _) => Text.trim Text.isBlank before
    else none
  | _ => none

/-- The text of a document type, from behind its opening mark up to the first closing bracket that
is neither quoted nor inside square brackets. -/
def doctypeBody? (depth : Nat) (quote : Option Char) : Text → Option Text
  | [] => none
  | c :: t =>
    match quote with
    | some q => (doctypeBody? depth (if c = q then none else some q) t).map (c :: ·)
    | none =>
      if c = '"' ∨ c = '\'' then (doctypeBody? depth (some c) t).map (c :: ·)
      else if c = '[' then (doctypeBody? (depth + 1) none t).map (c :: ·)
      else if c = ']' then (doctypeBody? (depth - 1) none t).map (c :: ·)
      else if c = '>' ∧ depth = 0 then some []
      else (doctypeBody? depth none t).map (c :: ·)

/-- The document type in the text before a root element, and its place. -/
def findDoctype? (prolog : Text) : Option (Xml.Placed Text) := do
  let (before, rest) ← Text.breakAt? "<!DOCTYPE".toList prolog
  let body ← doctypeBody? 0 none rest
  return ⟨before.length, Text.trim Text.isBlank body⟩

/-- The attributes that declare the bindings which hold in one scope and not in the one around
it. -/
def declarations (outer scope : Xml.Scope) : List (Text × Text) :=
  (scope.filter fun b => b.qualifier ≠ some "xml".toList ∧ b ∉ outer).map Xml.Binding.attribute

def scopeOf : Xml.Node → Xml.Scope
  | .element _ _ scope => scope
  | _ => []

def Node.ofXml? (parent : Xml.Node) : Xml.Node → Option Node
  | .document => none
  | .element name attributes scope =>
    some (.element
      { name := scope.write name
        attributes := declarations (scopeOf parent) scope ++
          attributes.map fun (name, value) => (scope.write name, value) })
  | .text t => some (.text t)
  | .comment t => some (.comment t)
  | .instruction target content => some (.instruction target content)

namespace Document

def addTop (d : Document) (node : Option Node) : Document :=
  match node.bind (d.append? root) with
  | some (_, d) => d
  | none => d

/-- The comments and instructions that stand before a place, as far as they are in a row from the
first on, and the others. -/
def splitAt (place : Option Nat) (remarks : List (Xml.Placed Xml.Node)) :
    List (Xml.Placed Xml.Node) × List (Xml.Placed Xml.Node) :=
  match place with
  | some place => remarks.span fun remark => remark.place ≤ place
  | none => (remarks, [])

def ofXml? (t : Text) : Option Document := do
  let source ← Xml.Source.parse? t
  let doctype := findDoctype? source.prolog
  let (before, behind) := splitAt (doctype.map Xml.Placed.place) source.remarks
  let leaf (remark : Xml.Placed Xml.Node) : Tree Xml.Node := .node remark.value []
  let copyTop := copyChildren Node.ofXml? .document root
  let d := (new .xml).addTop ((xmlDeclaration? t).map (.instruction "xml".toList))
  let (d, pending) := copyTop (before.map leaf) d []
  let d := d.addTop (doctype.map fun found => Node.doctype found.value)
  let (d, pending) := copyTop (behind.map leaf ++ source.content) d pending
  return d.copy Node.ofXml? pending

end Document

end Markup

end PrettyPayload
