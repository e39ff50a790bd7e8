import PrettyPayload.Markup.OfHtml
import PrettyPayload.Proofs.Markup.DocumentType
import PrettyPayload.Proofs.Markup.Lineage

/-!
# Documents and the trees that they are read from

A document is read by going through a list of what is still to be copied, last in, first out, while
the nodes are added at once. So their handles are in no order of the source. What becomes of the
source is said by going down its tree (`copiedAll`): each node is made from its source node and the
parent of that, the children stand in their order, and where nothing is made of a node, nothing is
made of what is below it.

The tree of a document alone does not tell whether there are nodes that it leaves out. There are
none: a new node has a parent from the start, so all nodes are below the root (`Rooted`), and with
the links in order each of them stands there once.
-/

namespace PrettyPayload

/-- The nodes of a source at its top level, with what is below them: comments and instructions, the
root element, and what follows it. -/
def Xml.Source.trees (source : Source) : List (Tree Node) :=
  source.remarks.map (fun remark => .node remark.value []) ++ source.content

namespace Markup

namespace Document

variable {d d' : Document} {k n p : Nat} {node : Node} {t : Text} {source : Xml.Source}

/-! ## Definitions -/

/-- No node but the root is without a parent. -/
structure Rooted (d : Document) : Prop where
  root_lt : root < d.cells.size
  parent : ∀ k < d.cells.size, k ≠ root → ∃ p, d.parent? k = some p

/-- The document has some trees below its root, and no node but those in them. -/
structure Consists (d : Document) (ts : List (Tree Node)) : Prop where
  tree_eq : d.tree.map Prod.snd = .node .document ts
  /-- Each node has one place in the tree. -/
  once : (d.tree.values.map Prod.fst).Perm (List.range d.size)
  /-- The parent of a node is the one whose child it is. -/
  linked : d.Linked

def doctypeNodes (source : Xml.Source) : List (Tree Node) :=
  (findDoctype? source.prolog).toList.map fun found => .node (.doctype found.value) []

/-! ## All nodes are below the root -/

theorem rooted_new (flavor : Flavor) : (new flavor).Rooted :=
  ⟨Nat.one_pos, fun _ hk hne => absurd (Nat.lt_one_iff.1 hk) hne⟩

theorem Rooted.append? (hd : d.Rooted) (happend : d.append? p node = some (n, d')) :
    d'.Rooted := by
  obtain ⟨-, rfl, -⟩ := append?_eq_some happend
  have hsize := (views_of_append? happend).1
  refine ⟨hsize ▸ Nat.succ_pos _, fun k hk hne => ?_⟩
  rw [parent?_append? happend]
  by_cases hnew : k = d.cells.size
  · exact ⟨p, if_pos hnew⟩
  · rw [if_neg hnew]
    rw [hsize] at hk
    exact hd.parent k (Nat.lt_of_le_of_ne (Nat.le_of_lt_succ hk) hnew) hne

theorem Rooted.root_mem (hd : d.Rooted) (hk : k < d.cells.size) : root ∈ k :: d.ancestors k := by
  induction k using rec_parent (d := d) with
  | hnone k hnone =>
    by_contra hmem
    obtain ⟨p, hparent⟩ := hd.parent k hk fun heq => hmem (heq ▸ List.mem_cons_self)
    rw [hnone] at hparent
    cases hparent
  | hsome k p hparent ih =>
    rw [ancestors_of_some hparent]
    exact List.mem_cons_of_mem k (ih (Nat.lt_trans (lt_of_parent? hparent) hk))

/-- The tree of a document without parts beside it has every node in one place. -/
theorem Rooted.perm_range (hr : d.Rooted) (hd : d.Linked) :
    (d.tree.values.map Prod.fst).Perm (List.range d.size) := by
  have hnodup : (d.tree.values.map Prod.fst).Nodup := by
    refine List.pairwise_map.2 ((hd.pairwise_precedes_values root).imp fun {v w} hvw heq => ?_)
    exact hd.not_precedes_self w.1 (heq ▸ hvw)
  refine (List.perm_ext_iff_of_nodup hnodup List.nodup_range).2 fun k => ?_
  rw [List.mem_map, List.mem_range]
  constructor
  · rintro ⟨v, hv, rfl⟩
    rcases List.mem_cons.1 ((hd.mem_values_treeAt root).1 hv).1 with hroot | hroot
    · exact hroot ▸ hr.root_lt
    · exact lt_size_of_mem_ancestors hroot
  · intro hk
    exact ⟨(k, (d.node? k).getD .document),
      (hd.mem_values_treeAt root).2 ⟨hr.root_mem hk, rfl⟩, rfl⟩

/-! ## Readers -/

theorem ofXml?_induction {P : Document → Prop} (hnew : P (new .xml))
    (happend : ∀ d p v n d', P d → d.append? p v = some (n, d') → P d')
    (hd : ofXml? t = some d) : P d := by
  have htop (d : Document) (node : Option Node) (hd : P d) : P (d.addTop node) := by
    rw [addTop]
    split
    next n d' hnode =>
      obtain ⟨v, -, hnode⟩ := Option.bind_eq_some_iff.1 hnode
      exact happend d root v n d' hd hnode
    next => exact hd
  obtain ⟨source, -, hd⟩ := Option.bind_eq_some_iff.1 hd
  obtain rfl := Option.some.inj hd
  exact copy_induction happend (copyChildren_induction happend (htop _ _
    (copyChildren_induction happend (htop _ _ hnew) _ _ _ _)) _ _ _ _) _

theorem consists_copy {α : Type} (convert : (parent child : α) → Option Node) (flavor : Flavor)
    (source : Tree α) :
    ((new flavor).copy convert [(source, root)]).Consists
      (copiedAll convert source.value source.children) := by
  have hlinked : ((new flavor).copy convert [(source, root)]).Linked := (linked_new flavor).copy _
  have hrooted : ((new flavor).copy convert [(source, root)]).Rooted :=
    copy_induction (fun _ _ _ _ _ => Rooted.append?) (rooted_new flavor) _
  exact ⟨tree_copy_new convert flavor source, hrooted.perm_range hlinked, hlinked⟩

/-- What is copied at the top level from in front of the document type and from behind it is what is
copied from the source. -/
theorem copiedAll_splitAt (place : Option Nat) (source : Xml.Source) :
    copiedAll Node.ofXml? .document
          ((splitAt place source.remarks).1.map fun remark => .node remark.value []) ++
        copiedAll Node.ofXml? .document
          ((splitAt place source.remarks).2.map (fun remark => .node remark.value []) ++
            source.content) =
      copiedAll Node.ofXml? .document source.trees := by
  rw [← copiedAll_append, ← List.append_assoc, ← List.map_append, splitAt_append, Xml.Source.trees]

/-- The document of a source has what is copied from the source at its top level, with the document
type at some place in between and the declaration in front. -/
theorem exists_consists_ofXml? (hsource : Xml.Source.parse? t = some source) :
    ∃ d before behind, ofXml? t = some d ∧
      before ++ behind = copiedAll Node.ofXml? .document source.trees ∧
        d.Consists (declarationNodes t ++ before ++ doctypeNodes source ++ behind) := by
  obtain ⟨d, hd, -, htree⟩ := exists_topLevel hsource
  have hlinked : d.Linked := ofXml?_induction (linked_new .xml) (fun _ _ _ _ _ => Linked.append?) hd
  have hrooted : d.Rooted := ofXml?_induction (rooted_new .xml) (fun _ _ _ _ _ => Rooted.append?) hd
  refine ⟨d, _, _, hd, copiedAll_splitAt ((findDoctype? source.prolog).map Xml.Placed.place) source,
    ?_, hrooted.perm_range hlinked, hlinked⟩
  rw [htree, topLevel, doctypeNodes]
  cases findDoctype? source.prolog <;> rfl

/-! ## Documents -/

/-- A document is the copy of the tree that it is read from, whatever the order in which its nodes
were added: of the whole tree of a page, and of the nodes of an XML document, which come behind the
declaration and on both sides of the document type. -/
theorem consists_of_source (page : Html.Page) (t : Text) :
    (ofPage page).Consists (copiedAll Node.ofHtml? page.tree.value page.tree.children) ∧
      match Xml.Source.parse? t with
      | none => ofXml? t = none
      | some source => ∃ d before behind, ofXml? t = some d ∧
          before ++ behind = copiedAll Node.ofXml? .document source.trees ∧
            d.Consists (declarationNodes t ++ before ++ doctypeNodes source ++ behind) := by
  refine ⟨consists_copy Node.ofHtml? .html page.tree, ?_⟩
  split
  next hsource =>
    rw [ofXml?, hsource]
    rfl
  next source hsource => exact exists_consists_ofXml? hsource

end Document

end Markup

end PrettyPayload
