import PrettyPayload.Proofs.Markup.StyleAttributes
import PrettyPayload.Proofs.Markup.StyleBlocks

/-!
# The order of the style passes

One style pass replaces children and the other sets attributes, and neither reads what the other one
writes: the text of a node is that of its children, and these are not elements with attributes. So a
step of one pass and a step of the other change places, whatever their nodes are
(`reindentOne_comm_compactOne`).

The passes look their elements up before they start. To set a style attribute makes or unmakes no
style element, but with the children of a style element the elements below it go. Where there are
none of these the two passes find the same elements in either order, and so they change places
(`reindentStyles_comm_compactStyles`).
-/

namespace PrettyPayload

namespace Markup

namespace Document

variable {d d' e : Document} {h k : Nat} {hs : List Nat} {q : Element → Bool}
  {inner outer : Text}

/-! ## Single elements -/

theorem style?_replaceChildren (d : Document) (h : Nat) (t : Text) (k : Nat) :
    (d.replaceChildren h (.css t)).style? k = d.style? k := by
  by_cases hh : h < d.cells.size
  · by_cases hk : k = d.cells.size
    · rw [style?, node?_replaceChildren hh, if_pos hk, style?, node?,
        Array.getElem?_eq_none (Nat.le_of_eq hk.symm)]
      rfl
    · exact style?_congr ((node?_replaceChildren hh _ k).trans (if_neg hk))
  · rw [replaceChildren_of_le (Nat.le_of_not_lt hh)]

theorem depth_setNode (d : Document) (k : Nat) (node : Node) (h : Nat) :
    (d.setNode k node).depth h = d.depth h := by
  rw [depth, ancestors_congr fun j _ => d.parent?_setNode k node j, depth]

section SetNode

variable {element : Element} (hnode : d.node? k = some (.element element)) (new : Element)

include hnode

theorem childText_setNode (h : Nat) :
    (d.setNode k (.element new)).childText h = d.childText h := by
  rw [childText, children_setNode, childText]
  refine List.flatMap_congr fun c _ => ?_
  rw [node?_setNode]
  split
  next hc =>
    subst hc
    rw [hnode]
    rfl
  next => rfl

theorem node?_replaceChildren_of_element (h : Nat) (node : Node) :
    (d.replaceChildren h node).node? k = some (.element element) := by
  by_cases hh : h < d.cells.size
  · rw [node?_replaceChildren hh, if_neg (Nat.ne_of_lt (lt_of_node? hnode)), hnode]
  · rw [replaceChildren_of_le (Nat.le_of_not_lt hh), hnode]

theorem replaceChildren_setNode (h : Nat) (node : Node) :
    (d.setNode k (.element new)).replaceChildren h node =
      (d.replaceChildren h node).setNode k (.element new) := by
  have hsize := d.size_setNode k (.element new)
  by_cases hh : h < d.cells.size
  · have hh' : h < (d.setNode k (.element new)).cells.size := hsize.symm ▸ hh
    have hk := Nat.ne_of_lt (lt_of_node? hnode)
    refine eq_of_views ?_ ?_ (fun j => ?_) (fun j => ?_) fun j => ?_
    · rw [flavor_replaceChildren]
      exact (d.flavor_replaceChildren h node).symm
    · rw [size_replaceChildren hh', hsize, size_setNode, size_replaceChildren hh]
    · rw [node?_replaceChildren hh', hsize, node?_setNode, node?_setNode,
        node?_replaceChildren hh]
      by_cases hj : j = d.cells.size
      · rw [if_pos hj, if_neg fun heq => hk (heq.symm.trans hj), if_pos hj]
      · rw [if_neg hj, if_neg hj]
    · rw [parent?_replaceChildren hh', hsize, children_setNode, parent?_setNode, parent?_setNode,
        parent?_replaceChildren hh]
    · rw [children_replaceChildren hh', hsize, children_setNode, children_setNode,
        children_replaceChildren hh]
  · rw [replaceChildren_of_le (Nat.le_of_not_lt hh),
      replaceChildren_of_le (hsize ▸ Nat.le_of_not_lt hh)]

end SetNode

/-- What is done to a style attribute is done to one element at most. -/
theorem compactOne_cases (hstep : d.compactOne k = .ok d') :
    d' = d ∨ ∃ element, d.node? k = some (.element element) ∧
      d' = d.setNode k (.element element.laidOut) := by
  cases hstyle : d.style? k with
  | none => exact Or.inl (Except.ok.inj (hstep.symm.trans (compactOne_of_none hstyle)))
  | some value =>
    obtain ⟨element, hnode, hvalue⟩ := style?_eq_some_iff.1 hstyle
    obtain ⟨ds, hds, rfl⟩ := (compactOne_eq_ok_iff hstyle).1 hstep
    refine Or.inr ⟨element, hnode, ?_⟩
    rw [setAttribute_of_element hnode, Element.laidOut_of_ok hvalue hds]

/-- A stylesheet is written from the same text and at the same depth behind a change of a style
attribute. -/
theorem reindentOne_of_compactOne (hstep : d.compactOne k = .ok d') :
    d'.childText h = d.childText h ∧ d'.depth h = d.depth h := by
  obtain rfl | ⟨element, hnode, rfl⟩ := compactOne_cases hstep
  · exact ⟨rfl, rfl⟩
  · exact ⟨childText_setNode hnode _ h, d.depth_setNode k _ h⟩

/-- A style attribute is written anew from the same value behind a change of a stylesheet. -/
theorem compactOne_replaceChildren (t : Text) :
    (d.replaceChildren h (.css t)).compactOne k = .ok e ↔
      ∃ d₁, d.compactOne k = .ok d₁ ∧ d₁.replaceChildren h (.css t) = e := by
  have hsame := d.style?_replaceChildren h t k
  cases hstyle : d.style? k with
  | none =>
    rw [hstyle] at hsame
    rw [compactOne_of_none hsame, compactOne_of_none hstyle]
    simp
  | some value =>
    rw [hstyle] at hsame
    obtain ⟨element, hnode, -⟩ := style?_eq_some_iff.1 hstyle
    simp only [compactOne_eq_ok_iff hsame, compactOne_eq_ok_iff hstyle,
      setAttribute_of_element hnode,
      setAttribute_of_element (node?_replaceChildren_of_element hnode h (.css t)),
      ← replaceChildren_setNode hnode]
    grind

/-- To write a stylesheet anew and to write a style attribute anew change places. -/
theorem reindentOne_comm_compactOne (d e : Document) (h k : Nat) :
    (∃ d₁, d.reindentOne inner outer h = .ok d₁ ∧ d₁.compactOne k = .ok e) ↔
      ∃ d₁, d.compactOne k = .ok d₁ ∧ d₁.reindentOne inner outer h = .ok e := by
  simp only [reindentOne_eq_ok_iff]
  constructor
  · rintro ⟨_, ⟨sheet, hsheet, rfl⟩, hboth⟩
    obtain ⟨d₁, hstep, rfl⟩ := (compactOne_replaceChildren _).1 hboth
    obtain ⟨htext, hdepth⟩ := reindentOne_of_compactOne (h := h) hstep
    exact ⟨d₁, hstep, sheet, htext ▸ hsheet, by rw [hdepth]⟩
  · rintro ⟨d₁, hstep, sheet, hsheet, rfl⟩
    obtain ⟨htext, hdepth⟩ := reindentOne_of_compactOne (h := h) hstep
    refine ⟨_, ⟨sheet, htext ▸ hsheet, rfl⟩, (compactOne_replaceChildren _).2 ⟨d₁, hstep, ?_⟩⟩
    rw [hdepth]

/-! ## The elements that are found -/

theorem styleElements_of_compactOne (hstep : d.compactOne k = .ok d') :
    d'.styleElements = d.styleElements := by
  obtain rfl | ⟨element, hnode, rfl⟩ := compactOne_cases hstep
  · rfl
  rw [styleElements, elementsWhere_eq, styleElements, elementsWhere_eq]
  refine elementsFrom_congr (fun j => ?_) (d.children_setNode k _) root
  rw [node?_setNode]
  split
  next hj =>
    subst hj
    rw [hnode]
    exact congrArg (Text.equalsIgnoringCase "style".toList) element.name_laidOut
  next => rfl

/-- Where no elements with a property are below the nodes with new stylesheets, the elements with
the property stay the same. -/
theorem Restyled.elementsFrom_eq (hr : d.Restyled inner outer hs d')
    (hbelow : ∀ h ∈ hs, ∀ c ∈ d.children h, d.elementsFrom q c = []) (k : Nat)
    (hk : k < d.cells.size) : d'.elementsFrom q k = d.elementsFrom q k := by
  rw [Document.elementsFrom_eq, Document.elementsFrom_eq, hr.node?_eq k hk]
  congr 1
  by_cases hmem : k ∈ hs
  · obtain ⟨sheet, c, depth, -, hchildren, hnode, hnil, -⟩ := hr.rewritten k hmem
    rw [hchildren, List.flatMap_singleton, Document.elementsFrom_eq, hnode, hnil,
      List.flatMap_eq_nil_iff.2 (hbelow k hmem)]
    rfl
  · rw [hr.children_eq k hk hmem]
    refine List.flatMap_congr fun c hc => ?_
    have hlt := lt_of_mem_children hc
    exact hr.elementsFrom_eq hbelow c hlt.2
termination_by d.cells.size - k

/-- If no element is below a node, a search below its children finds none. -/
theorem Linked.elementsFrom_child_eq_nil (hd : d.Linked)
    (hleaf : ∀ k, h ∈ d.ancestors k → (d.node? k).bind Node.element? = none) {c : Nat}
    (hc : c ∈ d.children h) : d.elementsFrom q c = [] := by
  refine elementsFrom_eq_nil fun v hv => ?_
  obtain ⟨hmem, hvalue⟩ := (hd.mem_values_treeAt c).1 hv
  have hnone := hleaf v.1 (mem_ancestors_iff.2 ⟨c, hmem, (hd.mem_children_iff h c).1 hc⟩)
  rw [hvalue]
  cases hnode : d.node? v.1 with
  | none => rfl
  | some node =>
    rw [hnode] at hnone
    exact hnone

/-- Where no element is below a style element, new stylesheets leave the elements with style
attributes as they are. -/
theorem Linked.styledElements_of_reindent (hd : d.Linked)
    (hleaf : ∀ h ∈ d.styleElements, ∀ k, h ∈ d.ancestors k →
      (d.node? k).bind Node.element? = none)
    (hrun : d.rewriteEach (reindentOne inner outer) d.styleElements = (d', .ok ())) :
    d'.styledElements = d.styledElements := by
  have hlists := hd.lists_elementsWhere Element.isStyle
  rcases Nat.eq_zero_or_pos d.cells.size with hzero | hpos
  · have hnil : d.styleElements = [] := List.eq_nil_iff_forall_not_mem.2 fun h hh =>
      Nat.not_lt_zero h (hzero ▸ hlists.lt hh)
    rw [hnil] at hrun
    rw [rewriteEach_nil_eq_ok.1 hrun]
  · have hrestyled := restyled_of_run hd hlists.nodup (fun _ => hlists.lt) hrun
    rw [styledElements, elementsWhere_eq, styledElements, elementsWhere_eq]
    exact hrestyled.elementsFrom_eq
      (fun h hh c hc => hd.elementsFrom_child_eq_nil (hleaf h hh) hc) root hpos

/-! ## Passes -/

/-- The two style passes change places in a document where no element is below a style element: if
both come to an end in one order, they do so in the other one, with the same document and the same
counts. -/
theorem reindentStyles_comm_compactStyles (hd : d.Linked)
    (hleaf : ∀ h ∈ d.styleElements, ∀ k, h ∈ d.ancestors k →
      (d.node? k).bind Node.element? = none)
    (inner outer : Text) (e : Document) (m n : Nat) :
    (∃ d₁, d.reindentStyles inner outer = (d₁, .ok m) ∧ d₁.compactStyles = (e, .ok n)) ↔
      ∃ d₁, d.compactStyles = (d₁, .ok n) ∧ d₁.reindentStyles inner outer = (e, .ok m) := by
  have hstyled (d₁ : Document)
      (hrun : d.rewriteEach (reindentOne inner outer) d.styleElements = (d₁, .ok ())) :
      d₁.styledElements = d.styledElements := hd.styledElements_of_reindent hleaf hrun
  have hstyle (d₁ : Document) (hrun : d.rewriteEach compactOne d.styledElements = (d₁, .ok ())) :
      d₁.styleElements = d.styleElements :=
    view_rewriteEach styleElements (fun _ _ _ => styleElements_of_compactOne) hrun
  simp only [reindentStyles_eq_ok_iff, compactStyles_eq_ok_iff]
  constructor
  · rintro ⟨d₁, ⟨hfirst, rfl⟩, hsecond, rfl⟩
    rw [hstyled d₁ hfirst] at hsecond ⊢
    obtain ⟨d₂, hfirst, hsecond⟩ :=
      (rewriteEach_comm reindentOne_comm_compactOne).1 ⟨d₁, hfirst, hsecond⟩
    rw [← hstyle d₂ hfirst] at hsecond
    exact ⟨d₂, ⟨hfirst, rfl⟩, hsecond, by rw [hstyle d₂ hfirst]⟩
  · rintro ⟨d₁, ⟨hfirst, rfl⟩, hsecond, rfl⟩
    rw [hstyle d₁ hfirst] at hsecond ⊢
    obtain ⟨d₂, hfirst, hsecond⟩ :=
      (rewriteEach_comm reindentOne_comm_compactOne).2 ⟨d₁, hfirst, hsecond⟩
    rw [← hstyled d₂ hfirst] at hsecond
    exact ⟨d₂, ⟨hfirst, rfl⟩, hsecond, by rw [hstyled d₂ hfirst]⟩

/-- A page with a style element that has a style attribute, and another one beside it. -/
def styledSheet : Document :=
  .ofTrees .html
    [.node (.element ⟨"style".toList, [(styleName, "a :b".toList)]⟩)
        [.node (.data "c\x7bd:e\x7d".toList) []],
      .node (.element ⟨['p'], [(styleName, "f :g".toList)]⟩) [.node (.text ['t']) []]]

theorem reindentStyles_comm_compactStyles_styledSheet :
    ∃ d₁ d₂ e, styledSheet.reindentStyles ['\t'] ['\t'] = (d₁, .ok 1) ∧
      d₁.compactStyles = (e, .ok 2) ∧ styledSheet.compactStyles = (d₂, .ok 2) ∧
        d₂.reindentStyles ['\t'] ['\t'] = (e, .ok 1) := by
  have hleaf : ∀ h ∈ styledSheet.styleElements, ∀ k < styledSheet.cells.size,
      h ∈ styledSheet.ancestors k → (styledSheet.node? k).bind Node.element? = none := by
    decide +kernel
  have hfirst : styledSheet.reindentStyles ['\t'] ['\t'] =
      ((styledSheet.reindentStyles ['\t'] ['\t']).1, .ok 1) := Prod.ext rfl (by decide +kernel)
  have hsecond : (styledSheet.reindentStyles ['\t'] ['\t']).1.compactStyles =
      ((styledSheet.reindentStyles ['\t'] ['\t']).1.compactStyles.1, .ok 2) :=
    Prod.ext rfl (by decide +kernel)
  obtain ⟨d₂, hfirst', hsecond'⟩ := (reindentStyles_comm_compactStyles (linked_ofTrees .html _)
    (fun h hh k hk => hleaf h hh k (lt_size_of_mem_ancestors hk) hk) ['\t'] ['\t'] _ 1 2).1
      ⟨_, hfirst, hsecond⟩
  exact ⟨_, d₂, _, hfirst, hsecond, hfirst', hsecond'⟩

end Document

end Markup

end PrettyPayload
