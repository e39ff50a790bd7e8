import PrettyPayload.Text.Path
import PrettyPayload.Xml.Character

/-!
# Names of XML

A name in a tag is written with or without a qualifier, which a colon sets apart. What the
qualifier stands for is decided by the namespace declarations around it: a binding gives a
qualifier, or the lack of one, the identifier of a namespace. The list of the bindings that hold
at an element is its scope.
-/

namespace PrettyPayload

namespace Xml

structure Name where
  qualifier : Text
  localName : Text
  deriving DecidableEq, Repr

structure ExpandedName where
  /-- The identifier of the namespace, if the name is in one. -/
  space : Option Text
  localName : Text
  deriving DecidableEq, Repr

/-- A declaration of a namespace, for a qualifier or for names without one. -/
structure Binding where
  qualifier : Option Text
  space : Text
  deriving DecidableEq, Repr

/-- The bindings that hold at an element; of two for the same qualifier the first counts. -/
abbrev Scope := List Binding

/-- The namespace that the qualifier `xml` always stands for. -/
def xmlSpace : Text := Text.address "www.w3.org" "XML/1998/namespace"

/-- The namespace of the declarations themselves, which none of them may name. -/
def declarationSpace : Text := Text.address "www.w3.org" "2000/xmlns/"

namespace Scope

def binds (scope : Scope) (qualifier : Option Text) : Bool :=
  scope.any fun b => b.qualifier = qualifier

/-- The scope of an element: its own bindings, then those around it that it does not replace. -/
def extend (own inherited : Scope) : Scope :=
  match own with
  | [] => inherited
  | _ =>
    inherited.foldl (fun scope b => if scope.binds b.qualifier then scope else scope ++ [b]) own

/-- The namespace of a qualifier, if the qualifier is known. Names without a qualifier may be in
no namespace. -/
def lookup? (scope : Scope) (qualifier : Text) : Option (Option Text) :=
  let key := if qualifier = [] then none else some qualifier
  match scope.find? fun b => b.qualifier = key with
  | some b => some (some b.space)
  | none => if qualifier = [] then some none else none

/-- The namespace of an attribute's qualifier. An attribute without one is in no namespace. -/
def attributeSpace? (scope : Scope) (qualifier : Text) : Option (Option Text) :=
  if qualifier = "xml".toList then some (some xmlSpace)
  else if qualifier = [] then some none
  else scope.lookup? qualifier

/-- The qualifier under which a scope knows a namespace; empty where it needs none. -/
def qualifierOf (scope : Scope) (space : Text) : Text :=
  if space = xmlSpace then "xml".toList
  else
    match scope.find? fun b => b.space = space with
    | some b => b.qualifier.getD []
    | none => []

def write (scope : Scope) (name : ExpandedName) : Text :=
  match name.space.elim [] scope.qualifierOf with
  | [] => name.localName
  | qualifier => qualifier ++ ':' :: name.localName

end Scope

def Binding.attribute (b : Binding) : Text × Text :=
  match b.qualifier with
  | some qualifier => ("xmlns:".toList ++ qualifier, b.space)
  | none => ("xmlns".toList, b.space)

/-- The bindings that the attributes of an element declare, behind those in `own`. The qualifier
`xml` and its namespace belong together and need no binding, the namespace of declarations has
none, and no qualifier is declared twice. -/
def declared? (own : Scope) : List (Name × Text) → Option Scope
  | [] => some own
  | (name, value) :: rest =>
    if name.qualifier = "xmlns".toList then
      if value = declarationSpace ∨ (name.localName = "xml".toList ↔ value ≠ xmlSpace) ∨
          own.binds (some name.localName) then none
      else if value = xmlSpace then declared? own rest
      else declared? (own ++ [⟨some name.localName, value⟩]) rest
    else if name.localName = "xmlns".toList then
      if value = declarationSpace ∨ value = xmlSpace then none
      else declared? (own ++ [⟨none, value⟩]) rest
    else declared? own rest

def Name.isDeclaration (name : Name) : Bool :=
  name.qualifier = "xmlns".toList || name.localName = "xmlns".toList

/-- The attributes of an element that declare no namespace, with their names as they are meant. No
two of them may have the same name. -/
def resolved? (scope : Scope) (attributes : List (Name × Text)) :
    Option (List (ExpandedName × Text)) := do
  let ordinary := attributes.filter fun (name, _) => !name.isDeclaration
  let resolved ← ordinary.mapM fun (name, value) => do
    let space ← scope.attributeSpace? name.qualifier
    return (ExpandedName.mk space name.localName, value)
  if (resolved.map Prod.fst).Nodup then some resolved else none

end Xml

end PrettyPayload
