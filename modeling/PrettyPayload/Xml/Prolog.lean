import PrettyPayload.Xml.Content

/-!
# The prolog of an XML document

Before the root element there may be a declaration of the document, a document type, and comments
and instructions, also inside the document type. Only the entities of a document type are used;
declarations of elements, attributes and notations are skipped.

Places are counted in characters from the start of the source. A part of the source that reaches to
its end is given by itself, so that its place follows from its length.
-/

namespace PrettyPayload

namespace Xml

structure Placed (α : Type) where
  place : Nat
  value : α
  deriving DecidableEq, Repr

/-! ## Declaration -/

/-- White space between the parts of a declaration, which is not needed before its end. -/
def gap? (t : Text) : Option Text :=
  match spaces? t with
  | some rest => some rest
  | none => if t = [] ∨ Text.startsWith "?>".toList t then some t else none

def optionalAttribute? (name t : Text) : Option Text :=
  if Text.startsWith name t then (attribute? t).bind fun (_, rest) => gap? rest else some t

def declaration? (t : Text) : Option Text := do
  let t ← gap? t
  if Text.startsWith "version".toList t then
    let (_, t) ← attribute? t
    let t ← gap? t
    let t ← optionalAttribute? "encoding".toList t
    let t ← if Text.startsWith "standalone".toList t then (attribute? t).map Prod.snd else some t
    Text.dropPrefix? "?>".toList (skipSpaces t)
  else none

/-! ## Comments and instructions -/

def remark? (t : Text) : Option (Node × Text) :=
  match Text.dropPrefix? "<!--".toList t with
  | some rest => (comment? rest).map fun (comment, rest) => (.comment comment, rest)
  | none =>
    (instruction? t).map fun ((target, data), rest) => (.instruction target data, rest)

def startsRemark (t : Text) : Bool :=
  Text.startsWith "<!--".toList t || Text.startsWith "<?".toList t

theorem length_of_remark? {t rest : Text} {node : Node} (h : remark? t = some (node, rest)) :
    rest.length < t.length := by
  unfold remark? at h
  split at h
  next u hu =>
    obtain ⟨⟨c, r⟩, hc, he⟩ := Option.map_eq_some_iff.1 h
    obtain ⟨-, rfl⟩ := Prod.mk.inj he
    have := length_of_dropPrefix? hu
    have := length_of_comment? hc
    simp at *; omega
  next =>
    obtain ⟨⟨i, r⟩, hi, he⟩ := Option.map_eq_some_iff.1 h
    obtain ⟨-, rfl⟩ := Prod.mk.inj he
    exact length_of_instruction? hi

/-- The comments and instructions at the start of a text, with white space around them, and what
follows; `stop` is the place of the end of the text. -/
def remarks? (stop : Nat) (t : Text) : Option (List (Placed Node) × Text) :=
  match _s : skipSpaces t with
  | u =>
    if startsRemark u then
      match _h : remark? u with
      | none => none
      | some (node, rest) =>
        (remarks? stop rest).map fun (more, rest) => (⟨stop - u.length, node⟩ :: more, rest)
    else some ([], u)
termination_by t.length
decreasing_by
  have := length_skipSpaces_le t
  have := length_of_remark? _h
  rw [_s] at *
  omega

/-! ## Document types -/

/-- The text behind the identifiers of something outside the document, if any come. -/
def externalId? (t : Text) : Option Text :=
  let literal? (t : Text) : Option Text := do
    let t ← spaces? t
    let (_, t) ← quoted? t
    return t
  match Text.dropPrefix? "SYSTEM".toList t with
  | some rest => literal? rest
  | none =>
    match Text.dropPrefix? "PUBLIC".toList t with
    | some rest => (literal? rest).bind literal?
    | none => some t

/-- The text of an entity, if it is given here, and what follows; `general` is false for the
entities of document types. -/
def entityText? (general : Bool) (t : Text) : Option (Option Text × Text) :=
  match quoted? t with
  | some (value, rest) => some (some value, rest)
  | none =>
    if Text.startsWith "SYSTEM".toList t ∨ Text.startsWith "PUBLIC".toList t then do
      let t ← externalId? t
      let u := skipSpaces t
      match (if general then Text.dropPrefix? "NDATA".toList u else none) with
      | none => return (none, if general then u else t)
      | some rest =>
        let rest ← spaces? rest
        let (_, rest) ← name? rest
        return (none, rest)
    else none

def entityDeclaration? (t : Text) : Option (Entities × Text) := do
  let t ← spaces? t
  let (general, t) ←
    match Text.dropPrefix? ['%'] t with
    | some rest => (spaces? rest).map (false, ·)
    | none => some (true, t)
  let (name, t) ← name? t
  let t ← spaces? t
  let (value, t) ← entityText? general t
  let t ← Text.dropPrefix? ['>'] (skipSpaces t)
  return (value.toList.map (name, ·), t)

/-- What stands between the brackets of a document type: its entities, its comments and
instructions, and what follows the document type; `stop` is the place of the end of the text. -/
def subset? (stop : Nat) (t : Text) : Option (Entities × List (Placed Node) × Text) :=
  let u := skipSpaces t
  let others : List Text := ["<!ELEMENT".toList, "<!ATTLIST".toList, "<!NOTATION".toList]
  match Text.dropPrefix? "<!ENTITY".toList u with
  | some v => do
    let (entities, rest) ← entityDeclaration? v
    if _h : rest.length < t.length then
      let (more, remarks, rest) ← subset? stop rest
      return (entities ++ more, remarks, rest)
    else none
  | none =>
    if startsRemark u then do
      let (node, rest) ← remark? u
      if _h : rest.length < t.length then
        let (entities, remarks, rest) ← subset? stop rest
        return (entities, ⟨stop - u.length, node⟩ :: remarks, rest)
      else none
    else if others.any (Text.startsWith · u) then do
      let (_, rest) ← Text.breakAt? ['>'] u
      if _h : rest.length < t.length then subset? stop rest else none
    else do
      let rest ← Text.dropPrefix? [']'] u
      let rest ← Text.dropPrefix? ['>'] (skipSpaces rest)
      return ([], [], rest)
termination_by t.length

/-- A document type: the text between its opening mark and its end, its entities, and its comments
and instructions. -/
structure Doctype where
  body : Text
  entities : Entities
  remarks : List (Placed Node)

/-- A document type, from behind its opening mark, and what follows; `stop` is the place of the end
of the text. -/
def doctype? (stop : Nat) (t : Text) : Option (Doctype × Text) := do
  let u ← spaces? t
  let (_, u) ← name? u
  let u ← externalId? (skipSpaces u)
  let finish (entities : Entities) (remarks : List (Placed Node)) (rest : Text) :=
    (Doctype.mk (t.take (t.length - rest.length - 1)) entities remarks, rest)
  match skipSpaces u with
  | '>' :: rest => return finish [] [] rest
  | '[' :: rest =>
    let (entities, remarks, rest) ← subset? stop rest
    return finish entities remarks rest
  | _ => none

end Xml

end PrettyPayload
