import PrettyPayload.Html.Document
import PrettyPayload.Markup.Document

/-!
# Documents from HTML

`Document.ofHtml` reads HTML into a document. A text that starts a page is read as one; anything
else is read as the content of a body, so that no element appears that is not written. The content
of templates is left out.
-/

namespace PrettyPayload

namespace Markup

/-- The elements whose text is never escaped. -/
def rawTextElements : List String :=
  ["style", "script", "xmp", "iframe", "noembed", "noframes", "plaintext", "noscript"]

def holdsRawText : Html.Node → Bool
  | .element name _ => rawTextElements.contains name.localName
  | _ => false

def doctypeOf (name publicId systemId : Text) : Text :=
  let quoted (id : Text) : Text := ' ' :: '"' :: id ++ ['"']
  if publicId ≠ [] then
    name ++ " PUBLIC".toList ++ quoted publicId ++ (if systemId ≠ [] then quoted systemId else [])
  else if systemId ≠ [] then name ++ " SYSTEM".toList ++ quoted systemId
  else name

def Node.ofHtml? (parent : Html.Node) : Html.Node → Option Node
  | .element name attributes =>
    some (.element ⟨name.localName.toList,
      attributes.map fun (key, value) => (key.toList, value)⟩)
  | .text t => some (if holdsRawText parent then .data t else .text t)
  | .comment t => some (.comment t)
  | .doctype name publicId systemId => some (.doctype (doctypeOf name publicId systemId))
  | .document => none
  | .fragment => none

def Document.ofPage (page : Html.Page) : Document :=
  (Document.new .html).copy Node.ofHtml? [(page.tree, Document.root)]

def Document.ofHtml (t : Text) : Document := .ofPage (Html.read t)

end Markup

end PrettyPayload
