import Mathlib.Data.List.TakeDrop
import PrettyPayload.Markup.OfXml
import PrettyPayload.Proofs.Markup.Copy
import PrettyPayload.Proofs.Xml.Sound

/-!
# Documents of plain XML

Where an XML document declares no namespaces, its nodes and those of the document made from it
correspond one to one: `Node.toXml` gives for a node of a document the node of XML that it is made
from, and `Node.Writable` says which nodes come about in this way.
-/

namespace PrettyPayload

namespace Markup

open PrettyPayload.Tree

/-! ## Definitions -/

def expandedName (written : Text) : Xml.ExpandedName :=
  match Text.dropPrefix? "xml:".toList written with
  | some localName => ⟨some Xml.xmlSpace, localName⟩
  | none => ⟨none, written⟩

namespace Node

/-- The node of XML that a node is read from; those that XML does not have are documents. -/
def toXml : Node → Xml.Node
  | .element e => .element ⟨none, e.name⟩ (e.attributes.map fun a => (expandedName a.1, a.2)) []
  | .text t => .text t
  | .comment t => .comment t
  | .instruction target content => .instruction target content
  | _ => .document

def Writable : Node → Prop
  | .element e =>
    Xml.isName e.name = true ∧
      (∀ a ∈ e.attributes, Xml.IsAttributeName a.1 ∧ ∀ c ∈ a.2, Xml.isAllowed c = true) ∧
        (e.attributes.map fun a => expandedName a.1).Nodup
  | .text t => ∀ c ∈ t, Xml.isAllowed c = true
  | .comment t => Xml.isComment t = true ∧ '\r' ∉ t
  | .instruction target content =>
    Xml.isTarget target = true ∧ Xml.isData content = true ∧ '\r' ∉ content ∧
      target ≠ "xml".toList
  | _ => False

end Node

def Node.isText : Node → Bool
  | .text _ => true
  | _ => false

structure WritableAt (v : Node) (children : List (Tree Node)) : Prop where
  node : v.Writable
  leaf : v.element? = none → children = []

/-- A node with its children as they are read: texts are without carriage returns, and no two of
them stand side by side. -/
structure AsRead (v : Node) (children : List (Tree Node)) : Prop extends
    WritableAt v children where
  returnless : ∀ t, v = .text t → '\r' ∉ t
  apart : Apart Node.isText children

end Markup

namespace Xml

/-- A node that does not need a namespace, a carriage return, or the target that is kept for the
declaration of a document. -/
def Node.Plain : Node → Prop
  | .element _ _ scope => scope = []
  | .text t => '\r' ∉ t
  | .instruction target _ => target ≠ "xml".toList
  | _ => True

end Xml

namespace Markup

open PrettyPayload.Tree

/-! ## Names -/

theorem write_expandedName (written : Text) :
    Xml.Scope.write [] (expandedName written) = written := by
  unfold expandedName
  split
  next l hdrop =>
    rw [Text.dropPrefix?_eq_some_iff.1 hdrop]
    rfl
  next => rfl

theorem isAttributeName_write {a : Xml.ExpandedName × Text} (h : Xml.SoundAttribute [] a) :
    Xml.IsAttributeName (Xml.Scope.write [] a.1) ∧
      expandedName (Xml.Scope.write [] a.1) = a.1 := by
  obtain ⟨⟨space, l⟩, value⟩ := a
  obtain ⟨hl, hxmlns, ⟨qualifier, hspace⟩, -⟩ := h
  unfold Xml.Scope.attributeSpace? at hspace
  split at hspace
  next =>
    obtain rfl := Option.some.inj hspace
    exact ⟨⟨l, hl, hxmlns, Or.inr rfl⟩, rfl⟩
  next =>
    have hnone : space = none := by
      split at hspace
      next => exact (Option.some.inj hspace).symm
      next hqualifier => simp [Xml.Scope.lookup?, hqualifier] at hspace
    subst hnone
    refine ⟨⟨l, hl, hxmlns, Or.inl rfl⟩, ?_⟩
    have hdrop : Text.dropPrefix? "xml:".toList l = none := by
      rw [Text.dropPrefix?_eq_none_iff]
      rintro ⟨u, rfl⟩
      exact Xml.not_mem_of_isName hl (List.mem_append_left u (by decide))
    change expandedName l = _
    rw [expandedName, hdrop]

/-! ## Nodes -/

theorem ofXml?_toXml {v : Node} (parent : Xml.Node) (h : v.Writable) :
    Node.ofXml? parent v.toXml = some v := by
  cases v with
  | element e =>
    have hattributes : (e.attributes.map fun a => (expandedName a.1, a.2)).map
        (fun a => (Xml.Scope.write [] a.1, a.2)) = e.attributes := by
      simp [Function.comp_def, write_expandedName]
    exact congrArg (fun attributes => some (Node.element ⟨e.name, attributes⟩)) hattributes
  | text t => rfl
  | comment t => rfl
  | instruction target data => rfl
  | document => cases h
  | doctype t => cases h
  | data t => cases h
  | css t => cases h

/-- A sound node without namespaces is written for by a node of a document. -/
theorem exists_writable {v : Xml.Node} (h : v.Sound) (hplain : v.Plain) :
    ∃ w : Node, w.Writable ∧ w.toXml = v ∧ ∀ t, w = .text t → '\r' ∉ t := by
  cases v with
  | document => cases h
  | element name attributes scope =>
    obtain rfl : scope = [] := hplain
    obtain ⟨hname, ⟨qualifier, hspace⟩, hattributes, hnodup⟩ := h
    obtain ⟨space, l⟩ := name
    have hnone : space = none := by
      simp only [Xml.Scope.lookup?, List.find?_nil] at hspace
      split at hspace
      next => exact (Option.some.inj hspace).symm
      next => cases hspace
    subst hnone
    have hnames : attributes.map (fun a => expandedName (Xml.Scope.write [] a.1)) =
        attributes.map Prod.fst :=
      List.map_congr_left fun a ha => (isAttributeName_write (hattributes a ha)).2
    refine ⟨.element ⟨l, attributes.map fun a => (Xml.Scope.write [] a.1, a.2)⟩,
      ⟨hname, ?_, ?_⟩, ?_, nofun⟩
    · intro a ha
      obtain ⟨b, hb, rfl⟩ := List.mem_map.1 ha
      exact ⟨(isAttributeName_write (hattributes b hb)).1, (hattributes b hb).2.2.2⟩
    · rw [List.map_map]
      exact hnames.symm ▸ hnodup
    · have hsame : attributes.map (fun a => (expandedName (Xml.Scope.write [] a.1), a.2)) =
          attributes := by
        conv => rhs; rw [← List.map_id attributes]
        refine List.map_congr_left ?_
        intro a ha
        exact congrArg (Prod.mk · a.2) (isAttributeName_write (hattributes a ha)).2
      rw [Node.toXml, List.map_map]
      exact congrArg (Xml.Node.element _ · []) hsame
  | text t => exact ⟨.text t, h, rfl, fun _ ht => Node.text.inj ht ▸ hplain⟩
  | comment t => exact ⟨.comment t, h, rfl, nofun⟩
  | instruction target data =>
    exact ⟨.instruction target data, ⟨h.1, h.2.1, h.2.2, hplain⟩, rfl, nofun⟩

theorem exists_of_isText {v : Node} (h : v.isText = true) : ∃ t, v = .text t := by
  cases v with
  | text t => exact ⟨t, rfl⟩
  | _ => cases h

theorem isText_toXml (v : Node) : v.toXml.isText = v.isText := by
  cases v <;> rfl

theorem isElement_toXml (v : Node) : v.toXml.isElement = v.element?.isSome := by
  cases v <;> rfl

/-! ## Trees -/

mutual

/-- A sound tree without namespaces is the one that a tree of a document is made from. -/
theorem exists_asRead : (t : Tree Xml.Node) → t.Each Xml.SoundAt → t.All Xml.Node.Plain →
    ∃ u : Tree Node, u.Each AsRead ∧ u.map Node.toXml = t
  | .node v ts, hsound, hplain => by
    obtain ⟨us, hus, hmap⟩ := exists_asRead_all ts hsound.2 hplain.2
    obtain ⟨w, hw, rfl, hreturn⟩ := exists_writable hsound.1.node hplain.1
    refine ⟨.node w us, ⟨⟨⟨hw, ?_⟩, hreturn, ?_⟩, hus⟩, by rw [Tree.map, hmap]⟩
    · intro hnone
      have hnil := hsound.1.leaf (by rw [isElement_toXml, hnone]; rfl)
      rw [← hmap, mapAll_eq_nil_iff] at hnil
      exact hnil
    · have hapart := hsound.1.apart
      rw [← hmap] at hapart
      exact Apart.of_map us (fun u _ => isText_toXml u.value) hapart

/-- Several sound trees without namespaces are those that trees of a document are made from. -/
theorem exists_asRead_all : (ts : List (Tree Xml.Node)) → EachOfAll Xml.SoundAt ts →
    AllOfAll Xml.Node.Plain ts → ∃ us : List (Tree Node), EachOfAll AsRead us ∧
      mapAll Node.toXml us = ts
  | [], _, _ => ⟨[], trivial, rfl⟩
  | t :: ts, hsound, hplain => by
    obtain ⟨u, hu, hmap⟩ := exists_asRead t hsound.1 hplain.1
    obtain ⟨us, hus, hmapAll⟩ := exists_asRead_all ts hsound.2 hplain.2
    exact ⟨u :: us, ⟨hu, hus⟩, by rw [mapAll, hmap, hmapAll]⟩

end

mutual

theorem copied_toXml (parent : Xml.Node) :
    (t : Tree Node) → t.Each WritableAt → copied Node.ofXml? parent (t.map Node.toXml) = [t]
  | .node v ts, h => by
    rw [Tree.map, copied, ofXml?_toXml parent h.1.node]
    exact congrArg (fun ts => [Tree.node v ts]) (copiedAll_toXml v.toXml ts h.2)

theorem copiedAll_toXml (parent : Xml.Node) :
    (ts : List (Tree Node)) → EachOfAll WritableAt ts →
      copiedAll Node.ofXml? parent (mapAll Node.toXml ts) = ts
  | [], _ => rfl
  | t :: ts, h => by
    rw [mapAll, copiedAll, copied_toXml parent t h.1, copiedAll_toXml parent ts h.2]
    rfl

end

/-! ## Documents -/

namespace Document

def declarationNodes (t : Text) : List (Tree Node) :=
  (xmlDeclaration? t).toList.map fun content => .node (.instruction "xml".toList content) []

/-- The nodes that a document has before those that are copied behind the document type: its
declaration, the comments and instructions before the document type, and the document type. -/
def topNodes (t : Text) (source : Xml.Source) : List Node :=
  ((xmlDeclaration? t).map (Node.instruction "xml".toList)).toList ++
    ((splitAt ((findDoctype? source.prolog).map Xml.Placed.place) source.remarks).1.flatMap
      fun remark => (Node.ofXml? .document remark.value).toList) ++
    ((findDoctype? source.prolog).map fun found => Node.doctype found.value).toList

/-- The comments and instructions behind the document type, or behind its place, as trees. -/
def behindDoctype (source : Xml.Source) : List (Tree Xml.Node) :=
  (splitAt ((findDoctype? source.prolog).map Xml.Placed.place) source.remarks).2.map
    fun remark => .node remark.value []

theorem splitAt_append (place : Option Nat) (remarks : List (Xml.Placed Xml.Node)) :
    (splitAt place remarks).1 ++ (splitAt place remarks).2 = remarks := by
  cases place with
  | none => exact List.append_nil remarks
  | some place =>
    rw [splitAt, List.span_eq_takeWhile_dropWhile]
    exact List.takeWhile_append_dropWhile

structure Flat (d : Document) (top : List Node) : Prop where
  flavor : d.flavor = .xml
  size : root < d.cells.size
  graft : ∀ extra : Nat → List (Tree Node), (∀ h, h ≠ root → extra h = []) →
    graft extra (d.treeAt root) = .node .document (top.map (Tree.node · []) ++ extra root)

theorem flat_new : Flat (new .xml) [] where
  flavor := rfl
  size := Nat.one_pos
  graft := by
    intro extra _
    rw [graft_treeAt]
    rfl

theorem Flat.addTop {d : Document} {top : List Node} (h : Flat d top) (node : Option Node) :
    Flat (d.addTop node) (top ++ node.toList) := by
  cases node with
  | none => exact (List.append_nil top).symm ▸ h
  | some v =>
    have happend : ∃ d', d.append? root v = some (d.cells.size, d') := ⟨_, dif_pos h.size⟩
    obtain ⟨d', happend⟩ := happend
    have hadd : d.addTop (some v) = d' := by
      rw [Document.addTop, Option.bind_some, happend]
    rw [hadd]
    refine ⟨(flavor_append? happend).trans h.flavor, ?_, ?_⟩
    · rw [(views_of_append? happend).1]
      exact Nat.succ_pos _
    · intro extra hextra
      have hnew : d.cells.size ≠ root := (Nat.ne_of_lt h.size).symm
      rw [graft_append? happend root h.size, h.graft, if_pos rfl, hextra _ hnew]
      · simp
      · intro k hk
        rw [if_neg hk]
        exact hextra k hk

theorem Flat.foldl_addTop {d : Document} {top : List Node} (h : Flat d top)
    (nodes : List (Option Node)) :
    Flat (nodes.foldl Document.addTop d) (top ++ nodes.flatMap Option.toList) := by
  induction nodes generalizing d top with
  | nil => exact (List.append_nil top).symm ▸ h
  | cons node nodes ih =>
    rw [List.flatMap_cons, ← List.append_assoc]
    exact ih (h.addTop node)

section CopyChildren

variable {α : Type} (convert : (parent child : α) → Option Node) (a : α)

theorem fst_copyChildren (ts : List (Tree α)) (d : Document) (pending : List (Tree α × Nat)) :
    (copyChildren convert a root ts d pending).1 =
      (ts.map fun t => convert a t.value).foldl addTop d := by
  induction ts generalizing d pending with
  | nil => rfl
  | cons t ts ih =>
    rw [copyChildren, List.map_cons, List.foldl_cons, addTop]
    cases (convert a t.value).bind (d.append? root) with
    | none => exact ih d pending
    | some next => exact ih next.2 ((t, next.1) :: pending)

theorem copiesFor_copyChildren (target : Nat) (ts : List (Tree α))
    (hleaf : ∀ t ∈ ts, t.children = []) (d : Document) (pending : List (Tree α × Nat)) (h : Nat) :
    copiesFor convert (copyChildren convert a target ts d pending).2 h =
      copiesFor convert pending h := by
  induction ts generalizing d pending with
  | nil => rfl
  | cons t ts ih =>
    rw [List.forall_mem_cons] at hleaf
    rw [copyChildren]
    split
    next n _ _ =>
      have hcopies : copiesFor convert ((t, n) :: pending) h =
          (if n = h then copiedAll convert t.value t.children else []) ++
            copiesFor convert pending h := rfl
      rw [ih hleaf.2, hcopies, hleaf.1, copiedAll, ite_self, List.nil_append]
    next => rw [ih hleaf.2]

end CopyChildren

theorem size_le_addTop (d : Document) (node : Option Node) :
    d.cells.size ≤ (d.addTop node).cells.size := by
  unfold addTop
  split
  next n d' happend =>
    obtain ⟨v, -, happend⟩ := Option.bind_eq_some_iff.1 happend
    obtain ⟨-, rfl, -⟩ := append?_eq_some happend
    rw [(views_of_append? happend).1]
    exact Nat.le_succ _
  next => exact Nat.le_refl _

theorem ofXml?_of_parse? {t : Text} {source : Xml.Source}
    (h : Xml.Source.parse? t = some source) :
    ∃ d, ofXml? t = some d ∧ d.flavor = .xml ∧
      d.tree.map Prod.snd = .node .document ((topNodes t source).map (Tree.node · []) ++
        copiedAll Node.ofXml? .document (behindDoctype source ++ source.content)) := by
  let split := splitAt ((findDoctype? source.prolog).map Xml.Placed.place) source.remarks
  let leaf (remark : Xml.Placed Xml.Node) : Tree Xml.Node := .node remark.value []
  let start := (new .xml).addTop ((xmlDeclaration? t).map (.instruction "xml".toList))
  let first := copyChildren Node.ofXml? .document root (split.1.map leaf) start []
  let typed := first.1.addTop ((findDoctype? source.prolog).map fun found => .doctype found.value)
  let rest := copyChildren Node.ofXml? .document root (behindDoctype source ++ source.content)
    typed first.2
  have hof : ofXml? t = some (rest.1.copy Node.ofXml? rest.2) := by
    rw [ofXml?, h]
    rfl
  have htyped : Flat typed (topNodes t source) := by
    have htop :=
      ((flat_new.addTop ((xmlDeclaration? t).map (.instruction "xml".toList))).foldl_addTop
      ((split.1.map leaf).map fun t => Node.ofXml? .document t.value)).addTop
      ((findDoctype? source.prolog).map fun found => .doctype found.value)
    rw [← fst_copyChildren _ _ _ _ [], List.nil_append, List.map_map, List.flatMap_map] at htop
    exact htop
  have hcopies : ∀ k, copiesFor Node.ofXml? first.2 k = [] :=
    copiesFor_copyChildren _ _ _ _ (List.forall_mem_map.2 fun _ _ => rfl) _ _
  have hpending : ∀ p ∈ first.2, p.2 < typed.cells.size := fun p hp =>
    Nat.lt_of_lt_of_le ((lt_of_copyChildren _ _ _ _ (List.forall_mem_nil _)).2 p hp)
      (size_le_addTop _ _)
  obtain ⟨hle, hlt⟩ := @lt_of_copyChildren typed _ Node.ofXml? .document root
    (behindDoctype source ++ source.content) first.2 hpending
  refine ⟨_, hof, ?_, ?_⟩
  · rw [flavor_copy, flavor_copyChildren, htyped.flavor]
  · rw [tree, treeAt_copy _ _ hlt root (Nat.lt_of_lt_of_le htyped.size hle),
      graft_copyChildren _ _ _ _ htyped.size hpending root htyped.size, htyped.graft]
    · rw [if_pos rfl, hcopies, List.append_nil]
    · intro k hk
      rw [if_neg hk, hcopies, List.append_nil]

theorem copiedAll_leaves (vs : List Xml.Node) :
    copiedAll Node.ofXml? .document (vs.map (Tree.node · [])) =
      (vs.flatMap fun v => (Node.ofXml? .document v).toList).map (Tree.node · []) := by
  induction vs with
  | nil => rfl
  | cons v vs ih =>
    rw [List.map_cons, copiedAll, ih, List.flatMap_cons, List.map_append, copied]
    cases Node.ofXml? .document v <;> rfl

/-- The document of a source without a document type: the nodes of its top level are those that the
trees read are made from. -/
theorem ofXml?_eq_some {t : Text} {source : Xml.Source} {top : List (Tree Node)}
    (h : Xml.Source.parse? t = some source) (hdoctype : findDoctype? source.prolog = none)
    (htop : mapAll Node.toXml top =
      (source.remarks.map fun remark => Tree.node remark.value []) ++ source.content)
    (hwritable : EachOfAll WritableAt top) :
    ∃ d, ofXml? t = some d ∧ d.flavor = .xml ∧
      d.tree.map Prod.snd = .node .document (declarationNodes t ++ top) := by
  obtain ⟨d, hd, hflavor, htree⟩ := ofXml?_of_parse? h
  refine ⟨d, hd, hflavor, ?_⟩
  have hcopied := copiedAll_toXml .document top hwritable
  rw [htop, copiedAll_append] at hcopied
  have hleaves := copiedAll_leaves (source.remarks.map Xml.Placed.value)
  rw [List.map_map, List.flatMap_map] at hleaves
  rw [htree, ← hcopied, topNodes, behindDoctype, hdoctype]
  simp only [splitAt, Option.map_none, Option.toList_none, List.append_nil, List.map_nil,
    List.nil_append, List.map_append, List.append_assoc, ← hleaves]
  rw [declarationNodes]
  cases xmlDeclaration? t <;> rfl

end Document

end Markup

end PrettyPayload
