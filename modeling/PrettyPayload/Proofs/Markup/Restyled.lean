import PrettyPayload.Markup.Serializer
import PrettyPayload.Proofs.Markup.LaidOut
import PrettyPayload.Proofs.Markup.StyleOrder

/-!
# What the style passes make of a tree

`restyled` is the tree that both style passes leave, computed from the tree alone: a style element
holds its stylesheet, written for the depth at which it stands, and a style attribute is on one
line. The passes come to their end exactly where every style is read (`passes_iff`), as long as no
element is below a style element.
-/

namespace PrettyPayload

namespace Markup

open PrettyPayload.Tree

variable {indent : Text}

/-! ## Definitions -/

def sheetText (indent : Text) (ancestors : Nat) (children : List Node) : Text :=
  match Css.parseStylesheet (textOf children) with
  | .ok sheet => styleBlock (Text.times (ancestors - 1 + 1) indent) (sheet.pretty indent)
  | .error _ => []

mutual

/-- A tree whose root has a number of ancestors, with its styles laid out. -/
def restyled (indent : Text) (ancestors : Nat) : Tree Node → Tree Node
  | .node v ts =>
    .node v.laidOut
      (if v.isStyle then [.node (.css (sheetText indent ancestors (ts.map value))) []]
      else restyledAll indent (ancestors + 1) ts)

def restyledAll (indent : Text) (ancestors : Nat) : List (Tree Node) → List (Tree Node)
  | [] => []
  | t :: ts => restyled indent ancestors t :: restyledAll indent ancestors ts

end

structure StyleRead (v : Node) (ts : List (Tree Node)) : Prop where
  exists_sheet : v.isStyle = true → ∃ sheet, Css.parseStylesheet (textOf (ts.map value)) = .ok sheet
  exists_declarations : ∀ e value, v = .element e → e.attribute? Document.styleName = some value →
    ∃ ds, Css.parseDeclarations value = .ok ds

/-- No element is below a style element. -/
def StyleLeaf (v : Node) (ts : List (Tree Node)) : Prop :=
  v.isStyle = true → AllOfAll (fun w => w.element? = none) ts

theorem restyledAll_eq_map (indent : Text) (ancestors : Nat) (ts : List (Tree Node)) :
    restyledAll indent ancestors ts = ts.map (restyled indent ancestors) := by
  induction ts with
  | nil => rfl
  | cons t ts ih => rw [restyledAll, ih, List.map_cons]

theorem styleRead_of_element?_eq_none {v : Node} (h : v.element? = none) (ts : List (Tree Node)) :
    StyleRead v ts where
  exists_sheet hstyle := by
    rw [Node.isStyle, h] at hstyle
    cases hstyle
  exists_declarations e value he := by
    rw [he] at h
    cases h

mutual

theorem Each.of_all {α : Type} {p : α → Prop} {q : α → List (Tree α) → Prop}
    (h : ∀ a ts, p a → q a ts) : (t : Tree α) → t.All p → t.Each q
  | .node a ts, ht => ⟨h a ts ht.1, EachOfAll.of_all h ts ht.2⟩

theorem EachOfAll.of_all {α : Type} {p : α → Prop} {q : α → List (Tree α) → Prop}
    (h : ∀ a ts, p a → q a ts) : (ts : List (Tree α)) → AllOfAll p ts → EachOfAll q ts
  | [], _ => trivial
  | t :: ts, hts => ⟨Each.of_all h t hts.1, EachOfAll.of_all h ts hts.2⟩

end

namespace Document

variable {d d₁ d₂ : Document} {k m n : Nat}

/-! ## Trees of a document -/

def bareAt (d : Document) (k : Nat) : Tree Node := (d.treeAt k).map Prod.snd

theorem bareAt_eq (d : Document) (k : Nat) :
    d.bareAt k = .node ((d.node? k).getD .document) ((d.children k).map d.bareAt) := by
  rw [bareAt, treeAt_eq, Tree.map, mapAll_eq_map, List.map_map]
  rfl

theorem childText_eq_textOf (d : Document) (k : Nat) :
    d.childText k = textOf (((d.children k).map d.bareAt).map value) := by
  rw [childText, textOf, List.map_map, List.flatMap_map]
  refine List.flatMap_congr fun c _ => ?_
  rw [Function.comp_apply, bareAt_eq, value_node]
  cases d.node? c <;> rfl

theorem each_bareAt {p : Node → List (Tree Node) → Prop} (k : Nat) (h : (d.bareAt k).Each p) :
    ∀ v ∈ (d.treeAt k).values, p v.2 ((d.children v.1).map d.bareAt) := by
  rw [bareAt_eq] at h
  rw [values_treeAt, List.forall_mem_cons]
  refine ⟨h.1, fun v hv => ?_⟩
  obtain ⟨c, hc, hv⟩ := List.mem_flatMap.1 hv
  have hlt := lt_of_mem_children hc
  exact each_bareAt c (eachOfAll_iff.1 h.2 _ (List.mem_map_of_mem hc)) v hv
termination_by d.cells.size - k

theorem all_bareAt {p : Node → Prop} (k : Nat) (h : (d.bareAt k).All p) :
    ∀ v ∈ (d.treeAt k).values, p v.2 :=
  each_bareAt (p := fun v _ => p v) k (Each.of_all (fun _ _ hv => hv) _ h)

theorem Linked.mem_values_tree (hd : d.Linked) (hk : d.Attached k) {e : Element}
    (hnode : d.node? k = some (.element e)) : (k, Node.element e) ∈ d.tree.values :=
  (hd.mem_values_treeAt root).2 ⟨hd.attached_iff.1 hk, by rw [hnode]; rfl⟩

theorem StyleLeaf.element?_eq_none (hd : d.Linked) (hleaf : (d.tree.map Prod.snd).Each StyleLeaf) :
    ∀ h ∈ d.styleElements, ∀ k, h ∈ d.ancestors k → (d.node? k).bind Node.element? = none := by
  intro h hh k hk
  obtain ⟨hattached, e, hnode, hstyle⟩ := ((hd.lists_elementsWhere _).mem_iff h).1 hh
  have hbelow := each_bareAt root hleaf _ (hd.mem_values_tree hattached hnode) hstyle
  obtain ⟨c, hc, hparent⟩ := mem_ancestors_iff.1 hk
  have hchild := (hd.mem_children_iff h c).2 hparent
  have hall := all_bareAt c (allOfAll_iff.1 hbelow _ (List.mem_map_of_mem hchild)) _
    ((hd.mem_values_treeAt (v := (k, (d.node? k).getD .document)) c).2 ⟨hc, rfl⟩)
  cases hk : d.node? k with
  | none => rfl
  | some v =>
    rw [hk] at hall
    exact hall

/-! ## The passes -/

/-- Where no style element is above a node, both passes leave its tree with its styles laid out. -/
theorem bareAt_of_passes (hd : d.Linked) (hstyles : d.reindentStyles indent indent = (d₁, .ok m))
    (hattributes : d₁.compactStyles = (d₂, .ok n)) (k : Nat) (hk : k < d.cells.size)
    (ha : d.Attached k) (ha₁ : d₁.Attached k) (habove : ∀ h ∈ d.styleElements, h ∉ d.ancestors k) :
    d₂.bareAt k = restyled indent (d.ancestors k).length (d.bareAt k) := by
  obtain ⟨-, hd₁, hviews₁⟩ := views_reindentStyles hd hstyles
  obtain ⟨-, hchildren₂, hnode₂⟩ := views_compactStyles hd₁ hattributes
  obtain ⟨hnode₁, hchildren₁⟩ := hviews₁ k hk ha
  have hvalue : (d₂.node? k).getD .document = ((d.node? k).getD .document).laidOut := by
    rw [hnode₂ k ha₁, hnode₁]
    cases d.node? k <;> rfl
  rw [bareAt_eq, bareAt_eq d, restyled, hvalue]
  congr 1
  split
  next hstyle =>
    obtain ⟨e, hnode, he⟩ := element_of_any (d := d) (h := k) rfl hstyle
    have hmem : k ∈ d.styleElements := ((hd.lists_elementsWhere _).mem_iff k).2 ⟨ha, e, hnode, he⟩
    obtain ⟨sheet, c, depth, hsheet, hchildren, hcss, hnil, hdepth⟩ :=
      (hd.restyled_of_reindentStyles hstyles).rewritten k hmem
    have hattached := ha₁.child (hchildren ▸ List.mem_cons_self)
    rw [childText_eq_textOf] at hsheet
    rw [hchildren₂, hchildren, List.map_singleton, bareAt_eq, hchildren₂, hnil, hnode₂ c hattached,
      hcss, sheetText, hsheet, hdepth habove]
    rfl
  next hstyle =>
    rw [if_neg hstyle] at hchildren₁
    rw [hchildren₂, hchildren₁, restyledAll_eq_map, List.map_map]
    refine List.map_congr_left fun c hc => ?_
    have hlt := lt_of_mem_children hc
    have hancestors : d.ancestors c = k :: d.ancestors k :=
      ancestors_of_some ((hd.mem_children_iff k c).1 hc)
    have hrest := bareAt_of_passes hd hstyles hattributes c hlt.2 (ha.child hc)
      (ha₁.child (hchildren₁ ▸ hc)) fun h hh hmem => by
        rw [hancestors] at hmem
        rcases List.mem_cons.1 hmem with rfl | hmem
        · obtain ⟨-, e, hnode, he⟩ := ((hd.lists_elementsWhere _).mem_iff h).1 hh
          rw [hnode] at hstyle
          exact hstyle he
        · exact habove h hh hmem
    rw [hrest, hancestors]
    rfl
termination_by d.cells.size - k

theorem tree_of_passes (hd : d.Linked) (hroot : 0 < d.cells.size)
    (hstyles : d.reindentStyles indent indent = (d₁, .ok m))
    (hattributes : d₁.compactStyles = (d₂, .ok n)) :
    d₂.tree.map Prod.snd = restyled indent 0 (d.tree.map Prod.snd) ∧ d₂.flavor = d.flavor := by
  refine ⟨?_, (laidOut_tree hd hroot hstyles hattributes).2⟩
  have htree := bareAt_of_passes hd hstyles hattributes root hroot ⟨_, .here⟩ ⟨_, .here⟩
    fun h _ hmem => by
      rw [ancestors_root] at hmem
      cases hmem
  rw [ancestors_root] at htree
  exact htree

theorem read_of_passes (hd : d.Linked) (hstyles : d.reindentStyles indent indent = (d₁, .ok m))
    (hattributes : d₁.compactStyles = (d₂, .ok n)) (k : Nat) (hk : k < d.cells.size)
    (ha : d.Attached k) (ha₁ : d₁.Attached k) (hleaf : (d.bareAt k).Each StyleLeaf) :
    (d.bareAt k).Each StyleRead := by
  obtain ⟨-, hd₁, hviews₁⟩ := views_reindentStyles hd hstyles
  obtain ⟨hnode₁, hchildren₁⟩ := hviews₁ k hk ha
  rw [bareAt_eq] at hleaf ⊢
  refine ⟨⟨fun hstyle => ?_, fun e value he hvalue => ?_⟩, ?_⟩
  · obtain ⟨e, hnode, he⟩ := element_of_any (d := d) (h := k) rfl hstyle
    have hmem : k ∈ d.styleElements := ((hd.lists_elementsWhere _).mem_iff k).2 ⟨ha, e, hnode, he⟩
    obtain ⟨sheet, -, -, hsheet, -⟩ := (hd.restyled_of_reindentStyles hstyles).rewritten k hmem
    exact ⟨sheet, childText_eq_textOf d k ▸ hsheet⟩
  · have hnode : d₁.node? k = some (.element e) := by
      rw [hnode₁]
      cases hcell : d.node? k with
      | none =>
        rw [hcell] at he
        cases he
      | some v =>
        rw [hcell] at he
        exact congrArg some he
    have hmem : k ∈ d₁.styledElements :=
      ((hd₁.lists_elementsWhere _).mem_iff k).2 ⟨ha₁, e, hnode, by rw [hvalue]; rfl⟩
    obtain ⟨name, front, value', back, ds, hnode', hfront, hds, -⟩ :=
      (hd₁.compacted_of_compactStyles hattributes).rewritten k hmem
    obtain rfl := Node.element.inj (Option.some.inj (hnode'.symm.trans hnode))
    rw [Element.attribute?_append name hfront] at hvalue
    exact ⟨ds, Option.some.inj hvalue ▸ hds⟩
  · split at hchildren₁
    next hstyle =>
      exact EachOfAll.of_all (fun w ts hw => styleRead_of_element?_eq_none hw ts) _
        (hleaf.1 hstyle)
    next =>
      refine eachOfAll_iff.2 (List.forall_mem_map.2 fun c hc => ?_)
      have hlt := lt_of_mem_children hc
      exact read_of_passes hd hstyles hattributes c hlt.2 (ha.child hc)
        (ha₁.child (hchildren₁ ▸ hc)) (eachOfAll_iff.1 hleaf.2 _ (List.mem_map_of_mem hc))
termination_by d.cells.size - k

theorem exists_passes_of_read (hd : d.Linked) (hleaf : (d.tree.map Prod.snd).Each StyleLeaf)
    (hread : (d.tree.map Prod.snd).Each StyleRead) (indent : Text) :
    ∃ d₁ m d₂ n, d.reindentStyles indent indent = (d₁, .ok m) ∧
      d₁.compactStyles = (d₂, .ok n) := by
  have helement {q : Element → Bool} {h : Nat} (hh : h ∈ d.elementsWhere q) :
      ∃ e, d.node? h = some (.element e) ∧
        StyleRead (.element e) ((d.children h).map d.bareAt) := by
    obtain ⟨hattached, e, hnode, -⟩ := ((hd.lists_elementsWhere _).mem_iff h).1 hh
    exact ⟨e, hnode, each_bareAt root hread _ (hd.mem_values_tree hattached hnode)⟩
  rcases hrun₁ : d.reindentStyles indent indent with ⟨d₁, fault | m⟩
  · obtain ⟨before, h, behind, hsplit, hfault, -⟩ := hd.restyled_of_fault hrun₁
    have hmem : h ∈ d.styleElements := hsplit ▸ by simp
    obtain ⟨-, e, hnode, hstyle⟩ := ((hd.lists_elementsWhere _).mem_iff h).1 hmem
    obtain ⟨e', hnode', hsheet, -⟩ := helement hmem
    obtain rfl := Node.element.inj (Option.some.inj (hnode.symm.trans hnode'))
    obtain ⟨sheet, hsheet⟩ := hsheet hstyle
    rw [← childText_eq_textOf, hfault] at hsheet
    cases hsheet
  · have hrestyled := hd.restyled_of_reindentStyles hrun₁
    have hstyled : d₁.styledElements = d.styledElements :=
      hd.styledElements_of_reindent (StyleLeaf.element?_eq_none hd hleaf)
        (reindentStyles_eq_ok_iff.1 hrun₁).1
    rcases hrun₂ : d₁.compactStyles with ⟨d₂, fault | n⟩
    · obtain ⟨before, h, behind, value, hsplit, hvalue, hfault, -⟩ :=
        hrestyled.linked.compacted_of_fault hrun₂
      have hmem : h ∈ d.styledElements := hstyled ▸ hsplit ▸ by simp
      have hlt : h < d.cells.size := (hd.lists_elementsWhere _).lt hmem
      rw [style?_congr (hrestyled.node?_eq h hlt)] at hvalue
      obtain ⟨e, hnode, hvalue⟩ := style?_eq_some_iff.1 hvalue
      obtain ⟨e', hnode', -, hread⟩ := helement hmem
      obtain rfl := Node.element.inj (Option.some.inj (hnode.symm.trans hnode'))
      obtain ⟨ds, hds⟩ := hread e value rfl hvalue
      cases hfault.symm.trans hds
    · exact ⟨d₁, m, d₂, n, rfl, hrun₂⟩

/-- In a document where no element is below a style element both passes come to their end exactly if
every style is read, and then they leave the tree with its styles laid out. -/
theorem passes_iff (hd : d.Linked) (hroot : 0 < d.cells.size)
    (hleaf : (d.tree.map Prod.snd).Each StyleLeaf) (indent : Text) (tree : Tree Node) :
    (∃ d₁ m d₂ n, d.reindentStyles indent indent = (d₁, .ok m) ∧
        d₁.compactStyles = (d₂, .ok n) ∧ d₂.tree.map Prod.snd = tree) ↔
      (d.tree.map Prod.snd).Each StyleRead ∧ restyled indent 0 (d.tree.map Prod.snd) = tree := by
  constructor
  · rintro ⟨d₁, m, d₂, n, hstyles, hattributes, rfl⟩
    exact ⟨read_of_passes hd hstyles hattributes root hroot ⟨_, .here⟩ ⟨_, .here⟩ hleaf,
      (tree_of_passes hd hroot hstyles hattributes).1.symm⟩
  · rintro ⟨hread, rfl⟩
    obtain ⟨d₁, m, d₂, n, hstyles, hattributes⟩ := exists_passes_of_read hd hleaf hread indent
    exact ⟨d₁, m, d₂, n, hstyles, hattributes, (tree_of_passes hd hroot hstyles hattributes).1⟩

end Document

end Markup

end PrettyPayload
