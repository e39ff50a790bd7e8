import PrettyPayload.Markup.Layout
import PrettyPayload.Markup.OfHtml
import PrettyPayload.Proofs.Markup.StyleAttributes
import PrettyPayload.Proofs.Markup.StyleBlocks

/-!
# Documents with their styles laid out

The two style passes change a document in place. What they make of its tree is said without them:
every style element has one stylesheet in the place of its children, every style attribute stands on
one line, and all the rest is as it was (`laidOut_tree`).
-/

namespace PrettyPayload

namespace Markup

open PrettyPayload.Tree

/-! ## Definitions -/

def Node.isStyle (v : Node) : Bool := v.element?.any Element.isStyle

mutual

/-- The second tree is the first one with its styles laid out. -/
def LaidOut : Tree Node → Tree Node → Prop
  | .node v ts, .node w us =>
    w = v.laidOut ∧ if v.isStyle then ∃ t, us = [.node (.css t) []] else LaidOutAll ts us

def LaidOutAll : List (Tree Node) → List (Tree Node) → Prop
  | [], [] => True
  | t :: ts, u :: us => LaidOut t u ∧ LaidOutAll ts us
  | _, _ => False

end

/-! ## Nodes -/

@[simp] theorem isVoid_laidOut (e : Element) : isVoid .html e.laidOut = isVoid .html e := by
  simp [isVoid]

@[simp] theorem isPreformatted_laidOut (e : Element) :
    isPreformatted .html e.laidOut = isPreformatted .html e := by
  simp [isPreformatted]

@[simp] theorem Element.isStyle_laidOut (e : Element) : e.laidOut.isStyle = e.isStyle := by
  simp [Element.isStyle]

theorem isStyle_element (e : Element) : (Node.element e).isStyle = e.isStyle := rfl

@[simp] theorem Node.isStyle_laidOut (v : Node) : v.laidOut.isStyle = v.isStyle := by
  cases v with
  | element e => exact e.isStyle_laidOut
  | _ => rfl

@[simp] theorem Node.text?_laidOut (v : Node) : v.laidOut.text? = v.text? := by
  cases v <;> rfl

@[simp] theorem isBlankNode_laidOut (v : Node) : isBlankNode v.laidOut = isBlankNode v := by
  cases v <;> rfl

theorem laidOutAll_map {α : Type} {f g : α → Tree Node} {xs : List α}
    (h : ∀ x ∈ xs, LaidOut (f x) (g x)) : LaidOutAll (xs.map f) (xs.map g) := by
  induction xs with
  | nil => trivial
  | cons x xs ih =>
    rw [List.forall_mem_cons] at h
    exact ⟨h.1, ih h.2⟩

namespace Document

variable {d d' d₁ d₂ : Document} {inner outer : Text} {k : Nat}

/-! ## Single passes -/

/-- Where every style attribute is read, each attached node is laid out. -/
theorem views_compactStyles {n : Nat} (hd : d.Linked) (hrun : d.compactStyles = (d', .ok n)) :
    d'.flavor = d.flavor ∧ (∀ k, d'.children k = d.children k) ∧
      ∀ k, d.Attached k → d'.node? k = (d.node? k).map Node.laidOut := by
  have hcompacted := hd.compacted_of_compactStyles hrun
  refine ⟨hcompacted.flavor_eq, hcompacted.children_eq, fun k hk => ?_⟩
  by_cases hmem : k ∈ d.styledElements
  · exact hcompacted.map_laidOut hmem
  rw [hcompacted.node?_eq k hmem]
  refine (map_laidOut_of_none ?_).symm
  cases hstyle : d.style? k with
  | none => rfl
  | some value =>
    obtain ⟨e, he, hvalue⟩ := style?_eq_some_iff.1 hstyle
    have hstyled : (e.attribute? styleName).isSome = true := hvalue ▸ rfl
    exact absurd (((hd.lists_elementsWhere _).mem_iff k).2 ⟨hk, e, he, hstyled⟩) hmem

/-- Where every stylesheet is read, each attached style element has one stylesheet for its children,
and the other attached nodes are as they were. -/
theorem views_reindentStyles {n : Nat} (hd : d.Linked)
    (hrun : d.reindentStyles inner outer = (d', .ok n)) :
    d'.flavor = d.flavor ∧ d'.Linked ∧ ∀ k < d.cells.size, d.Attached k →
      d'.node? k = d.node? k ∧
        if ((d.node? k).getD .document).isStyle then
          ∃ c t, d'.children k = [c] ∧ d'.node? c = some (.css t) ∧ d'.children c = []
        else d'.children k = d.children k := by
  have hrestyled := hd.restyled_of_reindentStyles hrun
  refine ⟨hrestyled.flavor_eq, hrestyled.linked, fun k hk hattached =>
    ⟨hrestyled.node?_eq k hk, ?_⟩⟩
  have hiff : k ∈ d.styleElements ↔ ((d.node? k).getD .document).isStyle = true := by
    rw [styleElements, (hd.lists_elementsWhere Element.isStyle).mem_iff]
    constructor
    · rintro ⟨-, e, hnode, hstyle⟩
      rwa [hnode]
    · intro hstyle
      exact ⟨hattached, element_of_any rfl hstyle⟩
  split
  next hstyle =>
    obtain ⟨sheet, c, depth, -, hchildren, hnode, hnil, -⟩ :=
      hrestyled.rewritten k (hiff.2 hstyle)
    exact ⟨c, _, hchildren, hnode, hnil⟩
  next hstyle => exact hrestyled.children_eq k hk fun hmem => hstyle (hiff.1 hmem)

/-! ## Both passes -/

theorem Attached.child (h : d.Attached k) {c : Nat} (hc : c ∈ d.children k) : d.Attached c := by
  obtain ⟨path, hpath⟩ := h
  exact ⟨_, hpath.down hc⟩

/-- Below each node that both passes leave attached the tree is laid out. -/
theorem laidOut_treeAt {m n : Nat} (hd : d.Linked)
    (hstyles : d.reindentStyles inner outer = (d₁, .ok m))
    (hattributes : d₁.compactStyles = (d₂, .ok n)) (k : Nat) (hk : k < d.cells.size)
    (ha : d.Attached k) (ha₁ : d₁.Attached k) :
    LaidOut ((d.treeAt k).map Prod.snd) ((d₂.treeAt k).map Prod.snd) := by
  obtain ⟨-, hd₁, hviews₁⟩ := views_reindentStyles hd hstyles
  obtain ⟨-, hchildren₂, hnode₂⟩ := views_compactStyles hd₁ hattributes
  obtain ⟨hnode₁, hchildren₁⟩ := hviews₁ k hk ha
  rw [treeAt_eq, treeAt_eq, Tree.map, Tree.map, mapAll_eq_map, mapAll_eq_map, List.map_map,
    List.map_map]
  refine ⟨?_, ?_⟩
  · rw [hnode₂ k ha₁, hnode₁]
    cases d.node? k <;> rfl
  · rw [hchildren₂]
    split at hchildren₁
    next hstyle =>
      rw [if_pos hstyle]
      obtain ⟨c, t, hchildren, hnode, hnil⟩ := hchildren₁
      have hattached := ha₁.child (hchildren ▸ List.mem_cons_self)
      refine ⟨t, ?_⟩
      rw [hchildren, List.map_singleton, Function.comp_apply, treeAt_eq, hchildren₂, hnil,
        hnode₂ c hattached, hnode]
      rfl
    next hstyle =>
      rw [if_neg hstyle, hchildren₁]
      refine laidOutAll_map fun c hc => ?_
      have hlt := lt_of_mem_children hc
      exact laidOut_treeAt hd hstyles hattributes c hlt.2 (ha.child hc)
        (ha₁.child (hchildren₁ ▸ hc))
termination_by d.cells.size - k

/-- The tree of a document that both passes have gone through. -/
theorem laidOut_tree {m n : Nat} (hd : d.Linked) (hroot : 0 < d.cells.size)
    (hstyles : d.reindentStyles inner outer = (d₁, .ok m))
    (hattributes : d₁.compactStyles = (d₂, .ok n)) :
    LaidOut (d.tree.map Prod.snd) (d₂.tree.map Prod.snd) ∧ d₂.flavor = d.flavor := by
  refine ⟨laidOut_treeAt hd hstyles hattributes root hroot ⟨_, .here⟩ ⟨_, .here⟩, ?_⟩
  obtain ⟨hflavor₁, hd₁, -⟩ := views_reindentStyles hd hstyles
  exact (views_compactStyles hd₁ hattributes).1.trans hflavor₁

end Document

end Markup

end PrettyPayload
