import PrettyPayload.Proofs.Markup.Links

/-!
# Ways down a document

Where the links of a document are in order, the ancestors of a node are the only way down to it:
every way from a node without a parent is the node's lineage (`IsPath.eq_lineage`). So a node is
attached, by one way from the root, or it belongs to a part that was taken off.

Of two nodes one precedes the other if it is above it, or if it is on an earlier branch where their
lineages part. The tree of a document lists the nodes below the root in that order
(`Linked.pairwise_precedes_values`), and hence so does every search through it.
-/

namespace PrettyPayload

namespace Tree

variable {α : Type}

mutual

def values : Tree α → List α
  | node a ts => a :: valuesOfAll ts

def valuesOfAll : List (Tree α) → List α
  | [] => []
  | t :: ts => values t ++ valuesOfAll ts

end

theorem valuesOfAll_eq_flatMap (ts : List (Tree α)) : valuesOfAll ts = ts.flatMap values := by
  induction ts with
  | nil => rfl
  | cons t ts ih => rw [valuesOfAll, ih, List.flatMap_cons]

mutual

theorem map_snd_preorderOnto (depth : Nat) (rest : List (Nat × α)) :
    (t : Tree α) → (preorderOnto depth t rest).map Prod.snd = t.values ++ rest.map Prod.snd
  | node a ts => by
    rw [preorderOnto, List.map_cons, map_snd_preorderOntoAll, values, List.cons_append]

theorem map_snd_preorderOntoAll (depth : Nat) (rest : List (Nat × α)) :
    (ts : List (Tree α)) →
      (preorderOntoAll depth ts rest).map Prod.snd = valuesOfAll ts ++ rest.map Prod.snd
  | [] => by rw [preorderOntoAll, valuesOfAll, List.nil_append]
  | t :: ts => by
    rw [preorderOntoAll, map_snd_preorderOnto, map_snd_preorderOntoAll, valuesOfAll,
      List.append_assoc]

end

theorem map_snd_preorder (t : Tree α) : t.preorder.map Prod.snd = t.values := by
  rw [preorder, map_snd_preorderOnto, List.map_nil, List.append_nil]

end Tree

namespace Markup

namespace Document

variable {d d' : Document} {a b c h k p r : Nat} {path : List Nat}

/-! ## Definitions -/

/-- A way down from a node, as the list of the nodes on it. -/
inductive IsPath (d : Document) (r : Nat) : Nat → List Nat → Prop
  | here : IsPath d r r [r]
  | down {p c : Nat} {path : List Nat} (hpath : IsPath d r p path) (hc : c ∈ d.children p) :
      IsPath d r c (path ++ [c])

def Attached (d : Document) (h : Nat) : Prop := ∃ path, d.IsPath root h path

def Detached (d : Document) (h : Nat) : Prop :=
  ∃ r path, r ≠ root ∧ d.parent? r = none ∧ d.IsPath r h path

def lineage (d : Document) (h : Nat) : List Nat := (h :: d.ancestors h).reverse

/-- Document order: a node is above another, or on an earlier branch where the two part. -/
def Precedes (d : Document) (a b : Nat) : Prop :=
  a ∈ d.ancestors b ∨
    ∃ p c c', [c, c'].Sublist (d.children p) ∧ c ∈ a :: d.ancestors a ∧ c' ∈ b :: d.ancestors b

/-- The given nodes are all attached elements with a property, in document order. -/
structure Lists (d : Document) (q : Element → Bool) (hs : List Nat) : Prop where
  mem_iff : ∀ h, h ∈ hs ↔ d.Attached h ∧ ∃ e, d.node? h = some (.element e) ∧ q e = true
  nodup : hs.Nodup
  ordered : hs.Pairwise d.Precedes

/-! ## Ancestors -/

theorem ancestors_of_none (hparent : d.parent? h = none) : d.ancestors h = [] := by
  rw [ancestors]
  split
  next => rfl
  next p hp => rw [hparent] at hp; cases hp

theorem ancestors_of_some (hparent : d.parent? h = some p) :
    d.ancestors h = p :: d.ancestors p := by
  rw [ancestors]
  split
  next hnone => rw [hparent] at hnone; cases hnone
  next q hq =>
    rw [hparent] at hq
    obtain rfl := Option.some.inj hq
    rfl

theorem head?_ancestors (d : Document) (h : Nat) : (d.ancestors h).head? = d.parent? h := by
  cases hparent : d.parent? h with
  | none => rw [ancestors_of_none hparent, List.head?_nil]
  | some p => rw [ancestors_of_some hparent, List.head?_cons]

theorem parent?_root (d : Document) : d.parent? root = none := by
  cases hparent : d.parent? root with
  | none => rfl
  | some p => exact absurd (lt_of_parent? hparent) (Nat.not_lt_zero p)

theorem ancestors_root (d : Document) : d.ancestors root = [] := ancestors_of_none d.parent?_root

/-- What holds of a node without a parent, and of a node if it holds of its parent, holds of every
node. -/
theorem rec_parent {P : Nat → Prop} (hnone : ∀ h, d.parent? h = none → P h)
    (hsome : ∀ h p, d.parent? h = some p → P p → P h) (h : Nat) : P h := by
  induction h using Nat.strongRecOn with
  | ind h ih =>
    cases hparent : d.parent? h with
    | none => exact hnone h hparent
    | some p => exact hsome h p hparent (ih p (lt_of_parent? hparent))

theorem mem_ancestors_iff :
    a ∈ d.ancestors h ↔ ∃ c, c ∈ h :: d.ancestors h ∧ d.parent? c = some a := by
  induction h using rec_parent (d := d) with
  | hnone h hparent => simp [ancestors_of_none hparent, hparent]
  | hsome h p hparent ih =>
    simp [ancestors_of_some hparent, ih, hparent, eq_comm]

theorem lt_of_mem_ancestors (ha : a ∈ d.ancestors h) : a < h := by
  induction h using rec_parent (d := d) with
  | hnone h hparent =>
    rw [ancestors_of_none hparent] at ha
    cases ha
  | hsome h p hparent ih =>
    have hlt := lt_of_parent? hparent
    rw [ancestors_of_some hparent] at ha
    rcases List.mem_cons.1 ha with rfl | ha
    · exact hlt
    · exact Nat.lt_trans (ih ha) hlt

theorem lt_size_of_mem_ancestors (ha : a ∈ d.ancestors h) : h < d.cells.size := by
  by_contra hle
  rw [ancestors_of_none (parent?_eq_none (Nat.le_of_not_lt hle))] at ha
  cases ha

theorem le_of_mem_cons_ancestors (ha : a ∈ h :: d.ancestors h) : a ≤ h :=
  (List.mem_cons.1 ha).elim Nat.le_of_eq fun ha => Nat.le_of_lt (lt_of_mem_ancestors ha)

theorem lt_size_of_mem_cons_ancestors (ha : a ∈ h :: d.ancestors h) (hlt : a < d.cells.size) :
    h < d.cells.size :=
  (List.mem_cons.1 ha).elim (fun heq => heq ▸ hlt) lt_size_of_mem_ancestors

theorem ancestors_congr (hparent : ∀ k ∈ h :: d.ancestors h, d'.parent? k = d.parent? k) :
    d'.ancestors h = d.ancestors h := by
  induction h using rec_parent (d := d) with
  | hnone h hnone =>
    have hnone' := (hparent h List.mem_cons_self).trans hnone
    rw [ancestors_of_none hnone, ancestors_of_none hnone']
  | hsome h p hsome ih =>
    have hsome' := (hparent h List.mem_cons_self).trans hsome
    rw [ancestors_of_some hsome] at hparent ⊢
    rw [ancestors_of_some hsome', ih fun k hk => hparent k (List.mem_cons_of_mem h hk)]

/-- Of two nodes above or at a third one, one is above the other. -/
theorem comparable (ha : a ∈ h :: d.ancestors h) (hb : b ∈ h :: d.ancestors h) :
    a = b ∨ a ∈ d.ancestors b ∨ b ∈ d.ancestors a := by
  induction h using rec_parent (d := d) with
  | hnone h hparent =>
    rw [ancestors_of_none hparent, List.mem_singleton] at ha hb
    exact Or.inl (ha.trans hb.symm)
  | hsome h p hparent ih =>
    rw [ancestors_of_some hparent] at ha hb
    rcases List.mem_cons.1 ha with rfl | hup
    · rcases List.mem_cons.1 hb with rfl | hup'
      · exact Or.inl rfl
      · exact Or.inr (Or.inr ((ancestors_of_some hparent).symm ▸ hup'))
    · rcases List.mem_cons.1 hb with rfl | hup'
      · exact Or.inr (Or.inl ((ancestors_of_some hparent).symm ▸ hup))
      · exact ih hup hup'

/-! ## Ways down -/

theorem lineage_of_none (hparent : d.parent? h = none) : d.lineage h = [h] := by
  rw [lineage, ancestors_of_none hparent, List.reverse_singleton]

theorem lineage_of_some (hparent : d.parent? h = some p) :
    d.lineage h = d.lineage p ++ [h] := by
  rw [lineage, ancestors_of_some hparent, List.reverse_cons, lineage]

/-- The way down from a node without a parent is the lineage. -/
theorem IsPath.eq_lineage (hd : d.Linked) (hpath : d.IsPath r h path)
    (hr : d.parent? r = none) : path = d.lineage h := by
  induction hpath with
  | here => exact (lineage_of_none hr).symm
  | down hpath hc ih => rw [lineage_of_some ((hd.mem_children_iff _ _).1 hc), ih]

theorem IsPath.head? (hpath : d.IsPath r h path) : path.head? = some r := by
  induction hpath with
  | here => rfl
  | down hpath hc ih => rw [List.head?_append, ih, Option.some_or]

/-- The lineage is a way down from a node without a parent. -/
theorem Linked.isPath_lineage (hd : d.Linked) (h : Nat) :
    ∃ r, d.parent? r = none ∧ d.IsPath r h (d.lineage h) := by
  induction h using rec_parent (d := d) with
  | hnone h hparent =>
    rw [lineage_of_none hparent]
    exact ⟨h, hparent, .here⟩
  | hsome h p hparent ih =>
    obtain ⟨r, hr, hpath⟩ := ih
    rw [lineage_of_some hparent]
    exact ⟨r, hr, hpath.down ((hd.mem_children_iff p h).2 hparent)⟩

/-- All ways down to a node come from the same node without a parent. -/
theorem Linked.eq_of_isPath (hd : d.Linked) {s : Nat} {path' : List Nat}
    (hpath : d.IsPath r h path) (hr : d.parent? r = none) (hpath' : d.IsPath s h path')
    (hs : d.parent? s = none) : r = s := by
  have hhead := hpath.head?
  rw [hpath.eq_lineage hd hr, ← hpath'.eq_lineage hd hs, hpath'.head?] at hhead
  exact (Option.some.inj hhead).symm

/-- A node is attached by one way from the root, or it hangs in a part that was taken off. -/
theorem Linked.attached_or_detached (hd : d.Linked) (h : Nat) :
    ((∃! path, d.IsPath root h path) ∧ ¬d.Detached h) ∨ (¬d.Attached h ∧ d.Detached h) := by
  obtain ⟨r, hr, hpath⟩ := hd.isPath_lineage h
  by_cases hroot : r = root
  · subst hroot
    refine Or.inl ⟨⟨_, hpath, fun path' hpath' => hpath'.eq_lineage hd hr⟩, ?_⟩
    rintro ⟨s, path', hs, hparent, hpath'⟩
    exact hs (hd.eq_of_isPath hpath' hparent hpath hr)
  · refine Or.inr ⟨?_, r, _, hroot, hr, hpath⟩
    rintro ⟨path', hpath'⟩
    exact hroot (hd.eq_of_isPath hpath hr hpath' d.parent?_root)

theorem Linked.attached_iff (hd : d.Linked) : d.Attached h ↔ root ∈ h :: d.ancestors h := by
  constructor
  · rintro ⟨path, hpath⟩
    rw [← List.mem_reverse, ← lineage, ← hpath.eq_lineage hd d.parent?_root]
    exact List.mem_of_head? hpath.head?
  · intro hroot
    induction h using rec_parent (d := d) with
    | hnone h hparent =>
      rw [ancestors_of_none hparent, List.mem_singleton] at hroot
      exact ⟨[h], hroot ▸ .here⟩
    | hsome h p hparent ih =>
      have hne : root ≠ h := fun heq => by
        rw [← heq, d.parent?_root] at hparent
        cases hparent
      rw [ancestors_of_some hparent] at hroot
      obtain ⟨path, hpath⟩ := ih ((List.mem_cons.1 hroot).resolve_left hne)
      exact ⟨_, hpath.down ((hd.mem_children_iff p h).2 hparent)⟩

/-! ## Depth -/

theorem depth_of_parent?_root (hparent : d.parent? h = some root) : d.depth h = 0 := by
  rw [depth, ancestors_of_some hparent, ancestors_root]
  rfl

theorem Linked.depth_of_parent? (hd : d.Linked) (hparent : d.parent? h = some p)
    (hattached : d.Attached p) (hp : p ≠ root) : d.depth h = d.depth p + 1 := by
  have hpos : 0 < (d.ancestors p).length := by
    refine List.length_pos_of_mem (a := root) ?_
    exact (List.mem_cons.1 (hd.attached_iff.1 hattached)).resolve_left (Ne.symm hp)
  rw [depth, ancestors_of_some hparent, List.length_cons, depth]
  omega

/-! ## Document order -/

theorem values_treeAt (d : Document) (h : Nat) :
    (d.treeAt h).values =
      (h, (d.node? h).getD .document) :: (d.children h).flatMap fun c => (d.treeAt c).values := by
  rw [treeAt_eq, Tree.values, Tree.valuesOfAll_eq_flatMap, List.flatMap_map]

theorem Linked.mem_values_treeAt (hd : d.Linked) {v : Nat × Node} (h : Nat) :
    v ∈ (d.treeAt h).values ↔
      h ∈ v.1 :: d.ancestors v.1 ∧ v.2 = (d.node? v.1).getD .document := by
  rw [values_treeAt, List.mem_cons, List.mem_flatMap, List.mem_cons, mem_ancestors_iff]
  have hbelow : (∃ c ∈ d.children h, v ∈ (d.treeAt c).values) ↔
      (∃ c, c ∈ v.1 :: d.ancestors v.1 ∧ d.parent? c = some h) ∧
        v.2 = (d.node? v.1).getD .document := by
    constructor
    · rintro ⟨c, hc, hv⟩
      have hlt := lt_of_mem_children hc
      obtain ⟨hmem, hnode⟩ := (hd.mem_values_treeAt c).1 hv
      exact ⟨⟨c, hmem, (hd.mem_children_iff h c).1 hc⟩, hnode⟩
    · rintro ⟨⟨c, hmem, hparent⟩, hnode⟩
      have hc := (hd.mem_children_iff h c).2 hparent
      have hlt := lt_of_mem_children hc
      exact ⟨c, hc, (hd.mem_values_treeAt c).2 ⟨hmem, hnode⟩⟩
  rw [hbelow, or_and_right]
  refine or_congr_left ⟨?_, ?_⟩
  · rintro rfl
    exact ⟨rfl, rfl⟩
  · rintro ⟨rfl, hnode⟩
    exact Prod.ext rfl hnode
termination_by d.cells.size - h

theorem Linked.treeAt_congr_below (hd : d.Linked) (h : Nat)
    (hviews : ∀ k, h ∈ k :: d.ancestors k →
      d'.node? k = d.node? k ∧ d'.children k = d.children k) :
    d'.treeAt h = d.treeAt h := by
  obtain ⟨hnode, hchildren⟩ := hviews h List.mem_cons_self
  rw [treeAt_eq, treeAt_eq, hnode, hchildren]
  congr 1
  refine List.map_congr_left fun c hc => ?_
  have hlt := lt_of_mem_children hc
  refine hd.treeAt_congr_below c fun k hk => hviews k (List.mem_cons_of_mem k ?_)
  exact mem_ancestors_iff.2 ⟨c, hk, (hd.mem_children_iff h c).1 hc⟩
termination_by d.cells.size - h

/-- The tree below a node is in document order. -/
theorem Linked.pairwise_precedes_values (hd : d.Linked) (h : Nat) :
    (d.treeAt h).values.Pairwise fun v w => d.Precedes v.1 w.1 := by
  rw [values_treeAt, List.pairwise_cons, List.pairwise_flatMap]
  refine ⟨?_, ?_, ?_⟩
  · intro w hw
    obtain ⟨c, hc, hw⟩ := List.mem_flatMap.1 hw
    exact Or.inl (mem_ancestors_iff.2
      ⟨c, ((hd.mem_values_treeAt c).1 hw).1, (hd.mem_children_iff h c).1 hc⟩)
  · intro c hc
    have hlt := lt_of_mem_children hc
    exact hd.pairwise_precedes_values c
  · rw [List.pairwise_iff_forall_sublist]
    intro c c' hsublist v hv w hw
    exact Or.inr ⟨h, c, c', hsublist, ((hd.mem_values_treeAt c).1 hv).1,
      ((hd.mem_values_treeAt c').1 hw).1⟩
termination_by d.cells.size - h

theorem Linked.not_precedes_self (hd : d.Linked) (h : Nat) : ¬d.Precedes h h := by
  rintro (hmem | ⟨p, c, c', hsublist, hc, hc'⟩)
  · exact Nat.lt_irrefl h (lt_of_mem_ancestors hmem)
  · have hne : c ≠ c' := by
      have hnodup := (hd.nodup_children p).sublist hsublist
      simpa using hnodup
    have hparent := (hd.mem_children_iff p c).1 (hsublist.subset List.mem_cons_self)
    have hparent' := (hd.mem_children_iff p c').1
      (hsublist.subset (List.mem_cons_of_mem c List.mem_cons_self))
    -- A node is not above its own parent, and the two have the same one.
    have habove {c c' : Nat} (hparent : d.parent? c = some p) (hparent' : d.parent? c' = some p)
        (hmem : c ∈ d.ancestors c') : False := by
      have hlt := lt_of_parent? hparent
      rw [ancestors_of_some hparent'] at hmem
      rcases List.mem_cons.1 hmem with rfl | hmem
      · exact Nat.lt_irrefl c hlt
      · exact Nat.lt_asymm hlt (lt_of_mem_ancestors hmem)
    rcases comparable hc hc' with heq | hmem | hmem
    · exact hne heq
    · exact habove hparent hparent' hmem
    · exact habove hparent' hparent hmem

theorem element_of_any {node : Node} {q : Element → Bool}
    (hnode : node = (d.node? h).getD .document) (hany : (node.element?).any q = true) :
    ∃ e, d.node? h = some (.element e) ∧ q e = true := by
  cases hcell : d.node? h with
  | none =>
    rw [hcell] at hnode
    subst hnode
    cases hany
  | some node' =>
    rw [hcell, Option.getD_some] at hnode
    subst hnode
    cases node with
    | element e => exact ⟨e, rfl, hany⟩
    | _ => cases hany

theorem elementsWhere_eq_filterMap (d : Document) (q : Element → Bool) :
    d.elementsWhere q = d.tree.values.filterMap fun v =>
      if (v.2.element?).any q then some v.1 else none := by
  rw [← Tree.map_snd_preorder, List.filterMap_map]
  rfl

/-- A search for elements finds every attached one once, in document order. -/
theorem Linked.lists_elementsWhere (hd : d.Linked) (q : Element → Bool) :
    d.Lists q (d.elementsWhere q) := by
  have hsearch := d.elementsWhere_eq_filterMap q
  have horder : (d.elementsWhere q).Pairwise d.Precedes := by
    rw [hsearch, List.pairwise_filterMap]
    refine (hd.pairwise_precedes_values root).imp fun {v w} hvw a ha b hb => ?_
    obtain ⟨-, ⟨⟩⟩ := Option.ite_none_right_eq_some.1 ha
    obtain ⟨-, ⟨⟩⟩ := Option.ite_none_right_eq_some.1 hb
    exact hvw
  refine ⟨fun h => ?_, horder.imp fun {a b} hab heq => ?_, horder⟩
  · rw [hsearch, List.mem_filterMap, hd.attached_iff]
    constructor
    · rintro ⟨⟨k, node⟩, hv, hfound⟩
      obtain ⟨hany, ⟨⟩⟩ := Option.ite_none_right_eq_some.1 hfound
      obtain ⟨hroot, hnode⟩ := (hd.mem_values_treeAt root).1 hv
      exact ⟨hroot, element_of_any hnode hany⟩
    · rintro ⟨hroot, e, hnode, hq⟩
      refine ⟨(h, .element e), (hd.mem_values_treeAt root).2 ⟨hroot, ?_⟩, ?_⟩
      · rw [hnode, Option.getD_some]
      · exact if_pos hq
  · exact hd.not_precedes_self b (heq ▸ hab)

end Document

end Markup

end PrettyPayload
