import PrettyPayload.Proofs.Markup.Built
import PrettyPayload.Proofs.Markup.OfXml
import PrettyPayload.Proofs.Xml.Scope

/-!
# Names in their namespaces

A document that is made from XML has written names. What such a name means is read off the
declarations on the element and on those around it, innermost first: `Element.meant` gives the name
of an element and its attributes as they are read in this way, and `meantAll` those of whole trees.

Where all scopes are regular, the names of elements are read as they were meant. The name of an
attribute is, unless its namespace is known first without a qualifier: then it is written without
one, and a name without a qualifier puts an attribute in no namespace. `Xml.Node.Qualified` excludes
this. Not all scopes of what is read are regular: a tag may have two default namespaces, and it may
bind the qualifier of declarations. The rules for namespaces allow neither.
-/

namespace PrettyPayload

open PrettyPayload.Tree

namespace Xml

/-! ## Definitions -/

mutual

def names : Tree Node → List (ExpandedName × List (ExpandedName × Text))
  | .node (.element name attributes _) ts => (name, attributes) :: namesAll ts
  | .node _ ts => namesAll ts

def namesAll : List (Tree Node) → List (ExpandedName × List (ExpandedName × Text))
  | [] => []
  | t :: ts => names t ++ namesAll ts

end

namespace Node

def Regular : Node → Prop
  | .element _ _ scope => scope.Regular
  | _ => True

/-- A node whose scope knows the namespaces of its attributes by a qualifier. -/
def Qualified : Node → Prop
  | .element _ attributes scope =>
    ∀ a ∈ attributes, ∀ space, a.1.space = some space → scope.qualifierOf space ≠ []
  | _ => True

end Node

theorem namesAll_eq_flatMap (ts : List (Tree Node)) : namesAll ts = ts.flatMap names := by
  induction ts with
  | nil => rfl
  | cons t ts ih => rw [namesAll, ih, List.flatMap_cons]

end Xml

namespace Markup

/-- The name of the attribute that declares a qualifier; with an empty one, the namespace of names
without qualifier. -/
def declarationName (qualifier : Text) : Text :=
  if qualifier = [] then "xmlns".toList else "xmlns:".toList ++ qualifier

def isDeclarationName (written : Text) : Bool :=
  written = "xmlns".toList || Text.startsWith "xmlns:".toList written

def declaredSpace? (qualifier : Text) (around : List Element) : Option Text :=
  around.findSome? (Element.attribute? · (declarationName qualifier))

def elementName? (around : List Element) (written : Text) : Option Xml.ExpandedName :=
  let name := Xml.Name.ofWritten written
  if name.qualifier = "xml".toList then some ⟨some Xml.xmlSpace, name.localName⟩
  else
    match declaredSpace? name.qualifier around with
    | some space => some ⟨some space, name.localName⟩
    | none => if name.qualifier = [] then some ⟨none, name.localName⟩ else none

/-- What the written name of an attribute means. Without a qualifier it is in no namespace. -/
def attributeName? (around : List Element) (written : Text) : Option Xml.ExpandedName :=
  if (Xml.Name.ofWritten written).qualifier = [] then
    some ⟨none, (Xml.Name.ofWritten written).localName⟩
  else elementName? around written

/-- The names of an element and of its attributes, those that declare namespaces left out, as they
are read inside some elements, itself the first of them. -/
def Element.meant (around : List Element) (e : Element) :
    Option Xml.ExpandedName × List (Option Xml.ExpandedName × Text) :=
  (elementName? around e.name,
    (e.attributes.filter fun a => !isDeclarationName a.1).map fun a =>
      (attributeName? around a.1, a.2))

mutual

/-- The elements of a tree in document order with their names as they are read inside some
elements. -/
def meant (around : List Element) :
    Tree Node → List (Option Xml.ExpandedName × List (Option Xml.ExpandedName × Text))
  | .node (.element e) ts => e.meant (e :: around) :: meantAll (e :: around) ts
  | .node _ ts => meantAll around ts

def meantAll (around : List Element) :
    List (Tree Node) → List (Option Xml.ExpandedName × List (Option Xml.ExpandedName × Text))
  | [] => []
  | t :: ts => meant around t ++ meantAll around ts

end

def known (names : Xml.ExpandedName × List (Xml.ExpandedName × Text)) :
    Option Xml.ExpandedName × List (Option Xml.ExpandedName × Text) :=
  (some names.1, names.2.map fun a => (some a.1, a.2))

/-- A node without two attributes of one written name. -/
def Node.Distinct (v : Node) : Prop :=
  ∀ e, v = .element e → (e.attributes.map Prod.fst).Nodup

def Declares (around : List Element) (scope : Xml.Scope) : Prop :=
  ∀ qualifier, declaredSpace? qualifier around = scope.spaceOf? qualifier

def Element.written (outer : Xml.Scope) (name : Xml.ExpandedName)
    (attributes : List (Xml.ExpandedName × Text)) (scope : Xml.Scope) : Element where
  name := scope.write name
  attributes := declarations outer scope ++ attributes.map fun a => (scope.write a.1, a.2)

theorem ofXml?_element (parent : Xml.Node) (name : Xml.ExpandedName)
    (attributes : List (Xml.ExpandedName × Text)) (scope : Xml.Scope) :
    Node.ofXml? parent (.element name attributes scope) =
      some (.element (.written (scopeOf parent) name attributes scope)) := rfl

/-! ## Qualifiers -/

section Qualifiers

variable {scope outer : Xml.Scope} {name : Xml.ExpandedName} {space q : Text}

theorem declarationName_inj {r : Text} : declarationName q = declarationName r ↔ q = r := by
  refine ⟨?_, fun h => h ▸ rfl⟩
  intro h
  unfold declarationName at h
  split at h <;> split at h
  next hq hr => rw [hq, hr]
  next => cases h
  next => cases h
  next => exact List.append_cancel_left h

theorem isDeclarationName_declarationName (q : Text) :
    isDeclarationName (declarationName q) = true := by
  rw [isDeclarationName, Bool.or_eq_true, decide_eq_true_eq, Text.startsWith_iff]
  unfold declarationName
  split
  next => exact Or.inl rfl
  next => exact Or.inr (List.prefix_append _ q)

theorem attribute_eq {b : Xml.Binding} (h : b.Sound) :
    b.attribute = (declarationName (b.qualifier.getD []), b.space) ∧
      b.qualifier = Xml.Scope.key (b.qualifier.getD []) := by
  obtain ⟨qualifier, space⟩ := b
  cases qualifier with
  | none => exact ⟨rfl, rfl⟩
  | some q =>
    have hq : q ≠ [] := by
      obtain ⟨c, u, rfl, -⟩ := Xml.exists_cons_of_isName (h.name q rfl).1
      exact List.cons_ne_nil c u
    rw [Option.getD_some, declarationName, if_neg hq, Xml.Scope.key, if_neg hq]
    exact ⟨rfl, rfl⟩

theorem declarations_eq (hsound : scope.Sound) :
    declarations outer scope = (scope.filter (· ∉ outer)).map Xml.Binding.attribute := by
  refine congrArg _ (List.filter_congr ?_)
  intro b hb
  have hxml : b.qualifier ≠ some "xml".toList := fun hq => ((hsound b hb).name _ hq).2 rfl
  exact decide_eq_decide.2 (and_iff_right hxml)

theorem nodup_declarations (hregular : scope.Regular) (hsound : scope.Sound) :
    ((declarations outer scope).map Prod.fst).Nodup := by
  rw [declarations_eq hsound, List.map_map]
  refine List.Nodup.map_on ?_ (hregular.distinct.of_map.filter _)
  intro b hb c hc heq
  have hb := (List.mem_filter.1 hb).1
  have hc := (List.mem_filter.1 hc).1
  obtain ⟨hbattribute, hbkey⟩ := attribute_eq (hsound b hb)
  obtain ⟨hcattribute, hckey⟩ := attribute_eq (hsound c hc)
  rw [Function.comp_apply, Function.comp_apply, hbattribute, hcattribute,
    declarationName_inj] at heq
  exact hregular.eq_of_mem hb hc (by rw [hbkey, hckey, heq])

theorem lookup_of_mem {attributes : List (Text × Text)} {key value : Text}
    (hnodup : (attributes.map Prod.fst).Nodup) (hmem : (key, value) ∈ attributes) :
    attributes.lookup key = some value := by
  obtain ⟨before, behind, rfl⟩ := List.append_of_mem hmem
  refine List.lookup_eq_some_iff.2 ⟨before, behind, rfl, ?_⟩
  intro a ha
  rw [bne_iff_ne]
  rintro rfl
  rw [List.map_append, List.nodup_append] at hnodup
  exact hnodup.2.2 a.1 (List.mem_map_of_mem ha) a.1 List.mem_cons_self rfl

/-! ## Written names -/

def qualifierIn (scope : Xml.Scope) (name : Xml.ExpandedName) : Text :=
  name.space.elim [] scope.qualifierOf

/-- What a name in a scope is qualified with: nothing where it is in no namespace, `xml` in the
namespace of that, and otherwise the qualifier of a binding. -/
inductive QualifierIn (scope : Xml.Scope) (name : Xml.ExpandedName) : Prop where
  | plain (space : name.space = none) (qualifier : qualifierIn scope name = [])
  | xml (space : name.space = some Xml.xmlSpace)
      (qualifier : qualifierIn scope name = "xml".toList)
  | bound (b : Xml.Binding) (mem : b ∈ scope) (space : name.space = some b.space)
      (qualifier : qualifierIn scope name = b.qualifier.getD [])

theorem exists_of_lookup? (h : scope.lookup? q = some (some space)) :
    ∃ b ∈ scope, b.space = space := by
  rw [Xml.Scope.lookup?_eq] at h
  cases hfound : scope.spaceOf? q with
  | some found =>
    obtain ⟨b, hb, rfl⟩ := Option.map_eq_some_iff.1 hfound
    rw [hfound] at h
    exact ⟨b, List.mem_of_find?_eq_some hb, Option.some.inj (Option.some.inj h)⟩
  | none =>
    rw [hfound, Option.map_none, Option.none_or] at h
    split at h
    next => cases Option.some.inj h
    next => cases h

theorem qualifierIn_of_lookup? (hsound : scope.Sound) (h : scope.lookup? q = some name.space) :
    QualifierIn scope name := by
  cases hspace : name.space with
  | none => exact .plain hspace (by rw [qualifierIn, hspace]; rfl)
  | some space =>
    obtain ⟨b, hb, hbspace⟩ := exists_of_lookup? (hspace ▸ h)
    have hnot : space ≠ Xml.xmlSpace := hbspace ▸ (hsound b hb).space
    cases hfind : scope.find? fun b => b.space = space with
    | none => simpa [hbspace] using List.find?_eq_none.1 hfind b hb
    | some c =>
      have hc : c.space = space := by simpa using List.find?_some hfind
      refine .bound c (List.mem_of_find?_eq_some hfind) (hspace.trans (congrArg some hc.symm)) ?_
      rw [qualifierIn, hspace, Option.elim_some, Xml.Scope.qualifierOf, if_neg hnot, hfind]

theorem qualifierIn_of_attributeSpace? (hsound : scope.Sound)
    (h : scope.attributeSpace? q = some name.space) : QualifierIn scope name := by
  unfold Xml.Scope.attributeSpace? at h
  split at h
  next =>
    have hspace := (Option.some.inj h).symm
    refine .xml hspace ?_
    rw [qualifierIn, hspace, Option.elim_some, Xml.Scope.qualifierOf, if_pos rfl]
  next =>
    split at h
    next =>
      have hspace := (Option.some.inj h).symm
      exact .plain hspace (by rw [qualifierIn, hspace]; rfl)
    next => exact qualifierIn_of_lookup? hsound h

theorem write_of_eq_nil (h : qualifierIn scope name = []) : scope.write name = name.localName := by
  unfold Xml.Scope.write
  unfold qualifierIn at h
  rw [h]

theorem write_of_ne_nil (h : qualifierIn scope name ≠ []) :
    scope.write name = qualifierIn scope name ++ ':' :: name.localName := by
  unfold Xml.Scope.write
  split
  next hnil => exact absurd hnil h
  next => rfl

theorem QualifierIn.isName (h : QualifierIn scope name) (hsound : scope.Sound)
    (hne : qualifierIn scope name ≠ []) : Xml.isName (qualifierIn scope name) = true := by
  cases h with
  | plain _ hqualifier => exact absurd hqualifier hne
  | xml _ hqualifier => rw [hqualifier]; decide +kernel
  | bound b hb _ hqualifier =>
    rw [hqualifier] at hne ⊢
    cases hq : b.qualifier with
    | none => exact absurd (by rw [hq]; rfl) hne
    | some q => exact ((hsound b hb).name q hq).1

theorem ofWritten_write (h : QualifierIn scope name) (hsound : scope.Sound)
    (hname : Xml.isName name.localName = true) :
    Xml.Name.ofWritten (scope.write name) = ⟨qualifierIn scope name, name.localName⟩ := by
  by_cases hnil : qualifierIn scope name = []
  · rw [write_of_eq_nil hnil, Xml.ofWritten_of_isName hname, hnil]
  · rw [write_of_ne_nil hnil,
      Xml.ofWritten_append (Xml.not_mem_of_isName (h.isName hsound hnil))]

theorem isDeclarationName_write (hregular : scope.Regular) (hsound : scope.Sound)
    (h : Xml.KnownAttribute scope name) : isDeclarationName (scope.write name) = false := by
  obtain ⟨q, hspace⟩ := h.known
  have hqualifier := qualifierIn_of_attributeSpace? hsound hspace
  rw [isDeclarationName, Bool.or_eq_false_iff, decide_eq_false_iff_not, ← Bool.not_eq_true,
    Text.startsWith_iff]
  by_cases hnil : qualifierIn scope name = []
  · rw [write_of_eq_nil hnil]
    refine ⟨h.ordinary, fun hstarts => Xml.not_mem_of_isName h.name (hstarts.subset ?_)⟩
    decide
  · have hname := hqualifier.isName hsound hnil
    have hread := Xml.ofWritten_append (Xml.not_mem_of_isName hname) name.localName
    rw [write_of_ne_nil hnil]
    constructor
    · intro hwritten
      have hcolon : ':' ∈ "xmlns".toList := hwritten ▸ List.mem_append_right _ List.mem_cons_self
      exact absurd hcolon (by decide)
    · rintro ⟨t, ht⟩
      have hxmlns : ':' ∉ "xmlns".toList := by decide
      have hsame : qualifierIn scope name = "xmlns".toList := by
        have hparts := hread.symm.trans
          ((congrArg Xml.Name.ofWritten ht.symm).trans (Xml.ofWritten_append hxmlns t))
        exact congrArg Xml.Name.qualifier hparts
      cases hqualifier with
      | plain _ hplain => exact hnil hplain
      | xml _ hxml => exact absurd (hxml.symm.trans hsame) (by decide)
      | bound b hb _ hbound =>
        rw [hbound] at hnil hsame
        cases hq : b.qualifier with
        | none => exact hnil (by rw [hq]; rfl)
        | some q =>
          rw [hq, Option.getD_some] at hsame
          exact hregular.unreserved b hb (hsame ▸ hq)

/-! ## Reading names -/

variable {around : List Element}

theorem spaceOf?_of_mem (hregular : scope.Regular) {b : Xml.Binding} (hb : b ∈ scope)
    (hkey : b.qualifier = Xml.Scope.key q) : scope.spaceOf? q = some b.space := by
  rw [Xml.Scope.spaceOf?, ← hkey, hregular.find?_eq hb, Option.map_some]

theorem spaceOf?_eq_none (h : ¬∃ b ∈ scope, b.qualifier = Xml.Scope.key q) :
    scope.spaceOf? q = none := by
  rw [Xml.Scope.spaceOf?, List.find?_eq_none.2, Option.map_none]
  intro b hb
  rw [decide_eq_true_eq]
  exact fun hkey => h ⟨b, hb, hkey⟩

theorem elementName?_write (hdeclares : Declares around scope) (hregular : scope.Regular)
    (hsound : scope.Sound) (h : QualifierIn scope name) (hname : Xml.isName name.localName = true)
    (hnone : name.space = none → scope.spaceOf? [] = none) :
    elementName? around (scope.write name) = some name := by
  obtain ⟨space, l⟩ := name
  simp only [elementName?, ofWritten_write h hsound hname, hdeclares _]
  cases h with
  | plain hspace hqualifier =>
    obtain rfl : space = none := hspace
    have hxml : ([] : Text) ≠ "xml".toList := by decide
    rw [hqualifier, if_neg hxml, hnone rfl]
    rfl
  | xml hspace hqualifier =>
    obtain rfl : space = some Xml.xmlSpace := hspace
    rw [if_pos hqualifier]
  | bound b hb hspace hqualifier =>
    obtain rfl : space = some b.space := hspace
    have hxml : b.qualifier.getD [] ≠ "xml".toList := by
      intro hxml
      cases hq : b.qualifier with
      | none =>
        rw [hq] at hxml
        cases hxml
      | some q =>
        rw [hq, Option.getD_some] at hxml
        exact ((hsound b hb).name q hq).2 hxml
    rw [hqualifier, if_neg hxml, spaceOf?_of_mem hregular hb (attribute_eq (hsound b hb)).2]

/-- The name of an attribute is read as it was meant if and only if it is qualified where it is in
a namespace. -/
theorem attributeName?_write_iff (hdeclares : Declares around scope) (hregular : scope.Regular)
    (hsound : scope.Sound) (h : Xml.KnownAttribute scope name) :
    attributeName? around (scope.write name) = some name ↔
      ∀ space, name.space = some space → scope.qualifierOf space ≠ [] := by
  obtain ⟨q, hspace⟩ := h.known
  have hqualifier := qualifierIn_of_attributeSpace? hsound hspace
  have hall : (∀ space, name.space = some space → scope.qualifierOf space ≠ []) ↔
      (qualifierIn scope name = [] → name.space = none) := by
    rw [qualifierIn]
    cases name.space with
    | none => simp
    | some space => simp
  rw [hall, attributeName?, ofWritten_write hqualifier hsound h.name]
  by_cases hnil : qualifierIn scope name = []
  · rw [if_pos hnil]
    obtain ⟨space, l⟩ := name
    simp [hnil, eq_comm]
  · rw [if_neg hnil]
    have hnone : name.space ≠ none := fun hnone => hnil (by rw [qualifierIn, hnone]; rfl)
    simp [hnil, elementName?_write hdeclares hregular hsound hqualifier h.name
      fun h => absurd h hnone]

end Qualifiers

/-! ## Elements -/

section Elements

variable {outer scope : Xml.Scope} {name : Xml.ExpandedName} {around : List Element}
  {attributes : List (Xml.ExpandedName × Text)}

theorem lookup_declarations_of_mem {q : Text} {b : Xml.Binding} (hregular : scope.Regular)
    (hsound : scope.Sound) (hb : b ∈ scope) (hnew : b ∉ outer)
    (hkey : b.qualifier = Xml.Scope.key q) :
    (declarations outer scope).lookup (declarationName q) = some b.space := by
  have hq : b.qualifier.getD [] = q := by
    rw [hkey]
    unfold Xml.Scope.key
    split
    next hnil => exact hnil.symm
    next => rfl
  refine lookup_of_mem (nodup_declarations hregular hsound) ?_
  rw [← hq, ← (attribute_eq (hsound b hb)).1, declarations_eq hsound]
  exact List.mem_map_of_mem (List.mem_filter.2 ⟨hb, decide_eq_true hnew⟩)

theorem lookup_declarations_eq_none {q : Text} (hsound : scope.Sound)
    (h : ∀ b ∈ scope, b.qualifier = Xml.Scope.key q → b ∈ outer) :
    (declarations outer scope).lookup (declarationName q) = none := by
  rw [declarations_eq hsound]
  refine List.lookup_eq_none_iff.2 (List.forall_mem_map.2 ?_)
  intro b hb
  obtain ⟨hb, hnew⟩ := List.mem_filter.1 hb
  obtain ⟨hattribute, hkey⟩ := attribute_eq (hsound b hb)
  rw [hattribute, bne_iff_ne, ne_eq, declarationName_inj]
  rintro rfl
  exact of_decide_eq_true hnew (h b hb hkey)

theorem lookup_written_eq_none {q : Text} (hregular : scope.Regular) (hsound : scope.Sound)
    (h : ∀ a ∈ attributes, Xml.KnownAttribute scope a.1) :
    (attributes.map fun a => (scope.write a.1, a.2)).lookup (declarationName q) = none := by
  refine List.lookup_eq_none_iff.2 (List.forall_mem_map.2 ?_)
  intro a ha
  rw [bne_iff_ne]
  intro heq
  have hwritten := isDeclarationName_declarationName q
  rw [show declarationName q = scope.write a.1 from heq,
    isDeclarationName_write hregular hsound (h a ha)] at hwritten
  cases hwritten

/-- An element declares what its scope binds beyond that around it, so that both together declare
all of it. -/
theorem declares_cons (h : Xml.Scoped outer name attributes scope)
    (hdeclares : Declares around outer) (houter : outer.Regular) (hregular : scope.Regular) :
    Declares (.written outer name attributes scope :: around) scope := by
  intro q
  have hcons : declaredSpace? q (.written outer name attributes scope :: around) =
      ((declarations outer scope).lookup (declarationName q)).or (outer.spaceOf? q) := by
    rw [declaredSpace?, List.findSome?_cons, Element.attribute?, Element.written,
      List.lookup_append, lookup_written_eq_none hregular h.sound h.knownAttributes,
      Option.or_none, ← hdeclares q, declaredSpace?]
    cases (declarations outer scope).lookup (declarationName q) <;> rfl
  rw [hcons]
  by_cases hbound : ∃ b ∈ scope, b.qualifier = Xml.Scope.key q
  · obtain ⟨b, hb, hkey⟩ := hbound
    rw [spaceOf?_of_mem hregular hb hkey]
    by_cases hinherited : b ∈ outer
    · rw [lookup_declarations_eq_none h.sound, Option.none_or,
        spaceOf?_of_mem houter hinherited hkey]
      intro c hc hckey
      exact hregular.eq_of_mem hb hc (hkey.trans hckey.symm) ▸ hinherited
    · rw [lookup_declarations_of_mem hregular h.sound hb hinherited hkey, Option.some_or]
  · have houterNone : ¬∃ b ∈ outer, b.qualifier = Xml.Scope.key q := by
      intro hin
      obtain ⟨own, hown⟩ := h.extension
      refine hbound ?_
      rw [← Xml.Scope.binds_iff] at hin ⊢
      exact hown ▸ Xml.Scope.binds_extend hin
    rw [lookup_declarations_eq_none h.sound fun b hb hkey => absurd ⟨b, hb, hkey⟩ hbound,
      spaceOf?_eq_none houterNone, spaceOf?_eq_none hbound, Option.none_or]

/-- The names of an element are read as they were meant if and only if those of its attributes are
qualified. -/
theorem meant_written_iff (h : Xml.Scoped outer name attributes scope)
    (hdeclares : Declares around outer) (houter : outer.Regular) (hregular : scope.Regular) :
    (Element.written outer name attributes scope).meant
        (.written outer name attributes scope :: around) = known (name, attributes) ↔
      (Xml.Node.element name attributes scope).Qualified := by
  have hcons := declares_cons h hdeclares houter hregular
  obtain ⟨q, hlookup⟩ := h.known
  have hnone : name.space = none → scope.spaceOf? [] = none := by
    intro hspace
    rw [hspace, Xml.Scope.lookup?_eq] at hlookup
    cases hfound : scope.spaceOf? q with
    | some found =>
      rw [hfound] at hlookup
      cases Option.some.inj hlookup
    | none =>
      rw [hfound, Option.map_none, Option.none_or] at hlookup
      split at hlookup
      next hq => exact hq ▸ hfound
      next => cases hlookup
  have hname := elementName?_write hcons hregular h.sound
    (qualifierIn_of_lookup? h.sound hlookup) h.localName hnone
  have hfilter : (declarations outer scope ++ attributes.map fun a => (scope.write a.1, a.2)).filter
      (fun a => !isDeclarationName a.1) = attributes.map fun a => (scope.write a.1, a.2) := by
    rw [List.filter_append, List.filter_eq_nil_iff.2, List.nil_append, List.filter_eq_self]
    · refine List.forall_mem_map.2 ?_
      intro a ha
      rw [isDeclarationName_write hregular h.sound (h.knownAttributes a ha)]
      rfl
    · rw [declarations_eq h.sound]
      refine List.forall_mem_map.2 ?_
      intro b hb
      rw [(attribute_eq (h.sound b (List.mem_filter.1 hb).1)).1, isDeclarationName_declarationName]
      decide
  generalize hinside : Element.written outer name attributes scope :: around = inside at *
  simp only [Element.meant, Element.written, known, Prod.mk.injEq, hname, hfilter, true_and,
    List.map_map, Function.comp_def, List.map_inj_left, and_true]
  refine forall₂_congr ?_
  intro a ha
  exact attributeName?_write_iff hcons hregular h.sound (h.knownAttributes a ha)

theorem distinct_written (h : Xml.Scoped outer name attributes scope)
    (hdeclares : Declares around outer) (houter : outer.Regular) (hregular : scope.Regular)
    (hqualified : (Xml.Node.element name attributes scope).Qualified) :
    (Node.element (.written outer name attributes scope)).Distinct := by
  have hcons := declares_cons h hdeclares houter hregular
  have hread : ∀ a ∈ attributes, attributeName? (.written outer name attributes scope :: around)
      (scope.write a.1) = some a.1 := fun a ha =>
    (attributeName?_write_iff hcons hregular h.sound (h.knownAttributes a ha)).2 (hqualified a ha)
  intro e he
  obtain rfl := Node.element.inj he
  have hsplit : (attributes.map fun a => (scope.write a.1, a.2)).map Prod.fst =
      (attributes.map Prod.fst).map scope.write := by
    rw [List.map_map, List.map_map]
    rfl
  rw [Element.written, List.map_append, hsplit, List.nodup_append]
  refine ⟨nodup_declarations hregular h.sound, List.Nodup.map_on ?_ h.nodup, ?_⟩
  · intro a ha b hb heq
    obtain ⟨a, hmemA, rfl⟩ := List.mem_map.1 ha
    obtain ⟨b, hmemB, rfl⟩ := List.mem_map.1 hb
    have hsame := congrArg (attributeName? (.written outer name attributes scope :: around)) heq
    rw [hread a hmemA, hread b hmemB] at hsame
    exact Option.some.inj hsame
  · intro d hd w hw
    rw [declarations_eq h.sound, List.map_map] at hd
    obtain ⟨b, hb, rfl⟩ := List.mem_map.1 hd
    obtain ⟨k, hk, rfl⟩ := List.mem_map.1 hw
    obtain ⟨a, ha, rfl⟩ := List.mem_map.1 hk
    rw [Function.comp_apply, (attribute_eq (h.sound b (List.mem_filter.1 hb).1)).1]
    intro heq
    have hwritten := isDeclarationName_write hregular h.sound (h.knownAttributes a ha)
    rw [← heq, isDeclarationName_declarationName] at hwritten
    cases hwritten

end Elements

/-! ## Trees -/

theorem meantAll_append (around : List Element) (ts us : List (Tree Node)) :
    meantAll around (ts ++ us) = meantAll around ts ++ meantAll around us := by
  induction ts with
  | nil => rfl
  | cons t ts ih => rw [List.cons_append, meantAll, meantAll, ih, List.append_assoc]

mutual

theorem length_meantAll_copied {outer : Xml.Scope} (parent : Xml.Node) (around : List Element) :
    (t : Tree Xml.Node) → Xml.ScopedIn outer t →
      (meantAll around (copied Node.ofXml? parent t)).length = (Xml.names t).length
  | .node (.element name attributes scope) ts, h => by
    rw [copied, ofXml?_element]
    simp only [meantAll, meant, Xml.names, List.append_nil, List.length_cons]
    rw [length_meantAll_copiedAll _ _ ts h.2]
  | .node .document ts, h => h.elim
  | .node (.text t) ts, h => by rw [show ts = [] from h]; rfl
  | .node (.comment t) ts, h => by rw [show ts = [] from h]; rfl
  | .node (.instruction target data) ts, h => by rw [show ts = [] from h]; rfl

theorem length_meantAll_copiedAll {outer : Xml.Scope} (parent : Xml.Node) (around : List Element) :
    (ts : List (Tree Xml.Node)) → Xml.ScopedAllIn outer ts →
      (meantAll around (copiedAll Node.ofXml? parent ts)).length = (Xml.namesAll ts).length
  | [], _ => rfl
  | t :: ts, h => by
    rw [copiedAll, meantAll_append, Xml.namesAll, List.length_append, List.length_append,
      length_meantAll_copied parent around t h.1, length_meantAll_copiedAll parent around ts h.2]

end

mutual

theorem meantAll_copied_iff (parent : Xml.Node) {around : List Element}
    (hdeclares : Declares around (scopeOf parent)) (houter : (scopeOf parent).Regular) :
    (t : Tree Xml.Node) → Xml.ScopedIn (scopeOf parent) t → t.All Xml.Node.Regular →
      (meantAll around (copied Node.ofXml? parent t) = (Xml.names t).map known ↔
        t.All Xml.Node.Qualified)
  | .node (.element name attributes scope) ts, h, hregular => by
    have hbelow := meantAll_copiedAll_iff (.element name attributes scope)
      (declares_cons h.1 hdeclares houter hregular.1) hregular.1 ts h.2 hregular.2
    rw [copied, ofXml?_element]
    simp only [meantAll, meant, Xml.names, List.append_nil, List.map_cons, List.cons.injEq]
    rw [meant_written_iff h.1 hdeclares houter hregular.1]
    exact and_congr Iff.rfl hbelow
  | .node .document ts, h, _ => h.elim
  | .node (.text t) ts, h, _ => by
    rw [show ts = [] from h]
    exact iff_of_true rfl ⟨trivial, trivial⟩
  | .node (.comment t) ts, h, _ => by
    rw [show ts = [] from h]
    exact iff_of_true rfl ⟨trivial, trivial⟩
  | .node (.instruction target data) ts, h, _ => by
    rw [show ts = [] from h]
    exact iff_of_true rfl ⟨trivial, trivial⟩

theorem meantAll_copiedAll_iff (parent : Xml.Node) {around : List Element}
    (hdeclares : Declares around (scopeOf parent)) (houter : (scopeOf parent).Regular) :
    (ts : List (Tree Xml.Node)) → Xml.ScopedAllIn (scopeOf parent) ts →
      AllOfAll Xml.Node.Regular ts →
      (meantAll around (copiedAll Node.ofXml? parent ts) = (Xml.namesAll ts).map known ↔
        AllOfAll Xml.Node.Qualified ts)
  | [], _, _ => iff_of_true rfl trivial
  | t :: ts, h, hregular => by
    have hlength : (meantAll around (copied Node.ofXml? parent t)).length =
        ((Xml.names t).map known).length := by
      rw [length_meantAll_copied parent around t h.1, List.length_map]
    rw [copiedAll, meantAll_append, Xml.namesAll, List.map_append, AllOfAll,
      ← meantAll_copied_iff parent hdeclares houter t h.1 hregular.1,
      ← meantAll_copiedAll_iff parent hdeclares houter ts h.2 hregular.2]
    exact ⟨fun heq => List.append_inj heq hlength, fun heq => by rw [heq.1, heq.2]⟩

end

mutual

theorem distinct_copied (parent : Xml.Node) {around : List Element}
    (hdeclares : Declares around (scopeOf parent)) (houter : (scopeOf parent).Regular) :
    (t : Tree Xml.Node) → Xml.ScopedIn (scopeOf parent) t → t.All Xml.Node.Regular →
      t.All Xml.Node.Qualified → AllOfAll Node.Distinct (copied Node.ofXml? parent t)
  | .node (.element name attributes scope) ts, h, hregular, hqualified => by
    have hbelow := distinct_copiedAll (.element name attributes scope)
      (declares_cons h.1 hdeclares houter hregular.1) hregular.1 ts h.2 hregular.2 hqualified.2
    exact ⟨⟨distinct_written h.1 hdeclares houter hregular.1 hqualified.1, hbelow⟩, trivial⟩
  | .node .document ts, h, _, _ => h.elim
  | .node (.text t) ts, h, _, _ => by
    rw [show ts = [] from h]
    exact ⟨⟨nofun, trivial⟩, trivial⟩
  | .node (.comment t) ts, h, _, _ => by
    rw [show ts = [] from h]
    exact ⟨⟨nofun, trivial⟩, trivial⟩
  | .node (.instruction target data) ts, h, _, _ => by
    rw [show ts = [] from h]
    exact ⟨⟨nofun, trivial⟩, trivial⟩

theorem distinct_copiedAll (parent : Xml.Node) {around : List Element}
    (hdeclares : Declares around (scopeOf parent)) (houter : (scopeOf parent).Regular) :
    (ts : List (Tree Xml.Node)) → Xml.ScopedAllIn (scopeOf parent) ts →
      AllOfAll Xml.Node.Regular ts → AllOfAll Xml.Node.Qualified ts →
      AllOfAll Node.Distinct (copiedAll Node.ofXml? parent ts)
  | [], _, _, _ => trivial
  | t :: ts, h, hregular, hqualified => by
    rw [copiedAll, allOfAll_iff, List.forall_mem_append, ← allOfAll_iff, ← allOfAll_iff]
    exact ⟨distinct_copied parent hdeclares houter t h.1 hregular.1 hqualified.1,
      distinct_copiedAll parent hdeclares houter ts h.2 hregular.2 hqualified.2⟩

end

/-! ## Documents -/

theorem element?_eq_none_of_isRemark {v : Xml.Node} {w : Node} (h : v.isRemark = true)
    (hw : Node.ofXml? .document v = some w) : w.element? = none := by
  cases v with
  | comment t =>
    obtain rfl := Option.some.inj hw
    rfl
  | instruction target data =>
    obtain rfl := Option.some.inj hw
    rfl
  | _ => cases h

theorem Node.distinct_of_element?_eq_none {v : Node} (h : v.element? = none) : v.Distinct := by
  rintro e rfl
  cases h

theorem meantAll_leaves {around : List Element} {vs : List Node} (h : ∀ v ∈ vs, v.element? = none) :
    meantAll around (vs.map (Tree.node · [])) = [] := by
  induction vs with
  | nil => rfl
  | cons v vs ih =>
    rw [List.forall_mem_cons] at h
    rw [List.map_cons, meantAll, ih h.2, List.append_nil]
    cases v with
    | element e => cases h.1
    | _ => rfl

namespace Document

section Names

variable {t : Text} {source : Xml.Source}

/-- The nodes before those that are copied behind the document type are no elements. -/
theorem element?_of_mem_topNodes
    (hremarks : ∀ remark ∈ source.remarks, remark.value.isRemark = true) :
    ∀ v ∈ topNodes t source, v.element? = none := by
  intro v hv
  rw [topNodes, List.mem_append, List.mem_append] at hv
  rcases hv with (hv | hv) | hv
  · obtain ⟨content, -, rfl⟩ := Option.map_eq_some_iff.1 (Option.mem_toList.1 hv)
    rfl
  · obtain ⟨remark, hremark, hv⟩ := List.mem_flatMap.1 hv
    refine element?_eq_none_of_isRemark (hremarks remark ?_) (Option.mem_toList.1 hv)
    rw [← splitAt_append ((findDoctype? source.prolog).map Xml.Placed.place) source.remarks]
    exact List.mem_append_left _ hremark
  · obtain ⟨found, -, rfl⟩ := Option.map_eq_some_iff.1 (Option.mem_toList.1 hv)
    rfl

theorem plain_of_mem_behindDoctype
    (hremarks : ∀ remark ∈ source.remarks, remark.value.isRemark = true) :
    ∀ u ∈ behindDoctype source, Xml.ScopedIn [] u ∧ Xml.names u = [] ∧
      u.All Xml.Node.Regular ∧ u.All Xml.Node.Qualified := by
  refine List.forall_mem_map.2 fun remark hremark => ?_
  have hmem : remark ∈ source.remarks := by
    rw [← splitAt_append ((findDoctype? source.prolog).map Xml.Placed.place) source.remarks]
    exact List.mem_append_right _ hremark
  have hisRemark := hremarks remark hmem
  refine ⟨Xml.scopedIn_of_isRemark hisRemark, ?_⟩
  cases hvalue : remark.value with
  | comment => exact ⟨rfl, ⟨trivial, trivial⟩, ⟨trivial, trivial⟩⟩
  | instruction => exact ⟨rfl, ⟨trivial, trivial⟩, ⟨trivial, trivial⟩⟩
  | _ => simp [hvalue, Xml.Node.isRemark] at hisRemark

/-- A document made from XML with regular scopes keeps every name in its namespace, and every
element's attributes apart, if and only if the names of attributes are qualified. A scope is regular
if it has no qualifier twice and does not have `xmlns` as one, which reading does not check. -/
theorem names_of_ofXml?_iff (h : Xml.Source.parse? t = some source)
    (hregular : AllOfAll Xml.Node.Regular source.content) :
    ∃ d, ofXml? t = some d ∧
      ((meant [] (d.tree.map Prod.snd) = (Xml.namesAll source.content).map known ∧
          (d.tree.map Prod.snd).All Node.Distinct) ↔
        AllOfAll Xml.Node.Qualified source.content) := by
  obtain ⟨hremarks, hscoped⟩ := Xml.Source.scoped_of_parse? h
  obtain ⟨d, hd, -, htree⟩ := ofXml?_of_parse? h
  have hdeclares : Declares [] (scopeOf .document) := fun _ => rfl
  have hroot : (scopeOf .document).Regular := ⟨List.nodup_nil, List.forall_mem_nil _⟩
  have hplain := plain_of_mem_behindDoctype hremarks
  have hnames : Xml.namesAll (behindDoctype source ++ source.content) =
      Xml.namesAll source.content := by
    rw [Xml.namesAll_eq_flatMap, Xml.namesAll_eq_flatMap, List.flatMap_append,
      List.flatMap_eq_nil_iff.2 fun u hu => (hplain u hu).2.1, List.nil_append]
  have hall : Xml.ScopedAllIn (scopeOf .document) (behindDoctype source ++ source.content) :=
    Xml.scopedAllIn_iff.2 (List.forall_mem_append.2
      ⟨fun u hu => (hplain u hu).1, Xml.scopedAllIn_iff.1 hscoped⟩)
  have hregularAll : AllOfAll Xml.Node.Regular (behindDoctype source ++ source.content) :=
    allOfAll_iff.2 (List.forall_mem_append.2
      ⟨fun u hu => (hplain u hu).2.2.1, allOfAll_iff.1 hregular⟩)
  have hqualified : AllOfAll Xml.Node.Qualified (behindDoctype source ++ source.content) ↔
      AllOfAll Xml.Node.Qualified source.content := by
    rw [allOfAll_iff, allOfAll_iff, List.forall_mem_append]
    exact and_iff_right fun u hu => (hplain u hu).2.2.2
  have hmeant : meant [] (d.tree.map Prod.snd) = (Xml.namesAll source.content).map known ↔
      AllOfAll Xml.Node.Qualified source.content := by
    rw [htree, ← hnames, ← hqualified]
    change meantAll [] _ = _ ↔ _
    rw [meantAll_append, meantAll_leaves (element?_of_mem_topNodes hremarks), List.nil_append]
    exact meantAll_copiedAll_iff .document hdeclares hroot _ hall hregularAll
  refine ⟨d, hd, fun hread => hmeant.1 hread.1, fun hq => ⟨hmeant.2 hq, ?_⟩⟩
  rw [htree]
  refine ⟨fun _ hv => Node.noConfusion hv, allOfAll_iff.2 (List.forall_mem_append.2
    ⟨List.forall_mem_map.2 fun v hv => ?_, ?_⟩)⟩
  · exact ⟨Node.distinct_of_element?_eq_none (element?_of_mem_topNodes hremarks v hv), trivial⟩
  · exact allOfAll_iff.1 (distinct_copiedAll .document hdeclares hroot _ hall hregularAll
      (hqualified.2 hq))

end Names

/-! ## Two bindings of one namespace -/

/-- An element with two attributes `a`, one of them in the namespace `u`, which is bound to `p`,
and with a default namespace. -/
def twoBindings (space : Char) : Text :=
  "<r xmlns=\"".toList ++ space :: "\" xmlns:p=\"u\" p:a=\"1\" a=\"2\"/>".toList

def twoBindingsSource (space : Char) : Xml.Source :=
  ⟨[], [], none,
    [.node (.element ⟨some [space], ['r']⟩ [(⟨some ['u'], ['a']⟩, ['1']), (⟨none, ['a']⟩, ['2'])]
      [⟨none, [space]⟩, ⟨some ['p'], ['u']⟩]) []]⟩

theorem parse?_twoBindings (space : Char) (h : space = 'u' ∨ space = 'v') :
    Xml.Source.parse? (twoBindings space) = some (twoBindingsSource space) := by
  let attributes (space : Char) : List (Xml.Name × Text) :=
    [(⟨[], "xmlns".toList⟩, [space]), (⟨"xmlns".toList, ['p']⟩, ['u']), (⟨['p'], ['a']⟩, ['1']),
      (⟨[], ['a']⟩, ['2'])]
  have helement : Xml.element? (twoBindings space) =
      some ([.startTag ⟨[], ['r']⟩ (attributes space) .empty], []) := by
    rcases h with rfl | rfl <;> decide +kernel
  have hexpand : Xml.expandAttributes [] Xml.nestingLimit 0 (attributes space) =
      some (attributes space, 0) := by
    rcases h with rfl | rfl
    · exact Xml.expandAttributes_escapeAttribute 0 (attributes 'u')
    · exact Xml.expandAttributes_escapeAttribute 0 (attributes 'v')
  have hbuild : Xml.build [] Xml.nestingLimit true
      [.startTag ⟨[], ['r']⟩ (attributes space) .empty] .start =
      some ⟨[], (twoBindingsSource space).content, [], false, 0⟩ := by
    refine (build_of_startTag? hexpand ?_).trans (by rw [Xml.build])
    rcases h with rfl | rfl <;> rfl
  have hbody : Xml.Source.body? (twoBindings space) = some (twoBindings space) := by
    rcases h with rfl | rfl <;> rfl
  rw [Xml.Source.parse?_of_parts hbody (Xml.remarks?_of_startsRemark_eq_false rfl) rfl helement
    (Xml.remarks?_of_startsRemark_eq_false rfl) hbuild rfl rfl rfl]
  rfl

theorem regular_twoBindings (space : Char) :
    AllOfAll Xml.Node.Regular (twoBindingsSource space).content := by
  refine ⟨⟨⟨?_, ?_⟩, trivial⟩, trivial⟩
  · simp
  · simp

/-- Where the default namespace is another one, the two attributes are told apart. -/
theorem names_of_ofXml?_twoBindings :
    ∃ d, ofXml? (twoBindings 'v') = some d ∧
      meant [] (d.tree.map Prod.snd) = (Xml.namesAll (twoBindingsSource 'v').content).map known ∧
        (d.tree.map Prod.snd).All Node.Distinct := by
  obtain ⟨d, hd, hread⟩ :=
    names_of_ofXml?_iff (parse?_twoBindings 'v' (Or.inr rfl)) (regular_twoBindings 'v')
  refine ⟨d, hd, hread.2 ⟨⟨List.forall_mem_cons.2 ⟨?_, List.forall_mem_singleton.2 nofun⟩,
    trivial⟩, trivial⟩⟩
  intro space hspace
  obtain rfl := Option.some.inj hspace
  decide

/-- Where it is the namespace of the first attribute, this attribute is written without its
qualifier: it is read in no namespace, and the element has two attributes of one name. -/
theorem names_merged_twoBindings :
    Xml.Source.parse? (twoBindings 'u') = some (twoBindingsSource 'u') ∧
      ∃ d, ofXml? (twoBindings 'u') = some d ∧
        meant [] (d.tree.map Prod.snd) ≠ (Xml.namesAll (twoBindingsSource 'u').content).map known ∧
          ¬(d.tree.map Prod.snd).All Node.Distinct := by
  have hparse := parse?_twoBindings 'u' (Or.inl rfl)
  obtain ⟨d, hd, -, htree⟩ := ofXml?_of_parse? hparse
  have htop : d.tree.map Prod.snd = .node .document [.node (.element
      ⟨['r'], [("xmlns".toList, ['u']), ("xmlns:p".toList, ['u']), (['a'], ['1']),
        (['a'], ['2'])]⟩) []] := htree
  refine ⟨hparse, d, hd, ?_, ?_⟩
  · rw [htop]
    decide
  · rw [htop]
    intro hall
    exact absurd (hall.2.1.1 _ rfl) (by decide)

end Document

end Markup

end PrettyPayload
