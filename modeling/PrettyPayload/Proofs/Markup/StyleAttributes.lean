import PrettyPayload.Proofs.Markup.Targets

/-!
# Style attributes on one line

The pass over the style attributes of a document changes values of attributes and nothing else, and
of an element with several style attributes only the first one (`Compacted`). It stops at the first
element in document order with a value that is not read, and then the elements in front of that one
are rewritten, just as they are when the pass comes to its end (`compactStyles_frame`).

A document whose style attributes are all on one line is a fixed point of the pass, as long as each
of them is read as the declarations that it was written from.
-/

namespace PrettyPayload

namespace Markup

/-! ## Attributes -/

namespace Element

variable {e : Element} {name value old : Text} {front back : List (Text × Text)}

theorem attribute?_eq_some_iff :
    e.attribute? name = some value ↔
      ∃ front back, e.attributes = front ++ (name, value) :: back ∧ ∀ a ∈ front, a.1 ≠ name := by
  simp only [attribute?, List.lookup_eq_some_iff, bne_iff_ne, ne_comm]

theorem attribute?_append (tag : Text) (hfront : ∀ a ∈ front, a.1 ≠ name) :
    (⟨tag, front ++ (name, value) :: back⟩ : Element).attribute? name = some value :=
  attribute?_eq_some_iff.2 ⟨front, back, rfl, hfront⟩

theorem setIn_append (hfront : ∀ a ∈ front, a.1 ≠ name) :
    setIn name value (front ++ (name, old) :: back) = front ++ (name, value) :: back := by
  induction front with
  | nil => exact if_pos rfl
  | cons a front ih =>
    rw [List.forall_mem_cons] at hfront
    rw [List.cons_append, setIn, if_neg hfront.1, ih hfront.2, List.cons_append]

theorem attribute?_setAttribute (e : Element) (name value : Text) :
    (e.setAttribute name value).attribute? name = some value := by
  rw [attribute?, setAttribute]
  induction e.attributes with
  | nil => simp [setIn]
  | cons a as ih =>
    rw [setIn]
    split
    next hname => simp [hname]
    next hname =>
      rw [List.lookup_cons, beq_eq_false_iff_ne.2 (Ne.symm hname)]
      exact ih

theorem setAttribute_eq_self (hvalue : e.attribute? name = some value) :
    e.setAttribute name value = e := by
  obtain ⟨front, back, hattributes, hfront⟩ := attribute?_eq_some_iff.1 hvalue
  rw [setAttribute, hattributes, setIn_append hfront, ← hattributes]

def laidOut (e : Element) : Element :=
  match (e.attribute? Document.styleName).map Css.parseDeclarations with
  | some (.ok ds) => e.setAttribute Document.styleName (Css.compact ds)
  | _ => e

theorem laidOut_of_none (h : e.attribute? Document.styleName = none) : e.laidOut = e := by
  rw [laidOut, h]
  rfl

theorem laidOut_of_ok {ds : List Css.Declaration}
    (hvalue : e.attribute? Document.styleName = some value)
    (hds : Css.parseDeclarations value = .ok ds) :
    e.laidOut = e.setAttribute Document.styleName (Css.compact ds) := by
  rw [laidOut, hvalue, Option.map_some, hds]

@[simp] theorem name_laidOut (e : Element) : e.laidOut.name = e.name := by
  unfold laidOut
  split <;> rfl

theorem isSome_attribute?_laidOut (e : Element) :
    (e.laidOut.attribute? Document.styleName).isSome =
      (e.attribute? Document.styleName).isSome := by
  cases hvalue : e.attribute? Document.styleName with
  | none => rw [laidOut_of_none hvalue, hvalue]
  | some value =>
    cases hds : Css.parseDeclarations value with
    | error fault => rw [laidOut, hvalue, Option.map_some, hds, hvalue]
    | ok ds => rw [laidOut_of_ok hvalue hds, attribute?_setAttribute, Option.isSome_some,
        Option.isSome_some]

end Element

def Node.laidOut : Node → Node
  | .element e => .element e.laidOut
  | v => v

namespace Document

variable {d d' : Document} {h k n : Nat} {hs : List Nat} {value : Text} {fault : Css.Error}

/-! ## Single elements -/

theorem style?_eq_some_iff :
    d.style? h = some value ↔
      ∃ e, d.node? h = some (.element e) ∧ e.attribute? styleName = some value := by
  constructor
  · intro hstyle
    obtain ⟨e, he, hvalue⟩ := Option.bind_eq_some_iff.1 hstyle
    obtain ⟨v, hv, hve⟩ := Option.bind_eq_some_iff.1 he
    cases v with
    | element e' =>
      obtain rfl := Option.some.inj hve
      exact ⟨e', hv, hvalue⟩
    | _ => cases hve
  · rintro ⟨e, hnode, hvalue⟩
    rw [style?, hnode, Option.bind_some, Node.element?, Option.bind_some, hvalue]

theorem style?_congr (hnode : d'.node? h = d.node? h) : d'.style? h = d.style? h := by
  rw [style?, hnode, style?]

theorem map_laidOut_of_none (hstyle : d.style? h = none) :
    (d.node? h).map Node.laidOut = d.node? h := by
  rw [style?] at hstyle
  cases hnode : d.node? h with
  | none => rfl
  | some v =>
    cases v with
    | element e =>
      rw [hnode] at hstyle
      exact congrArg (fun e => some (Node.element e)) (Element.laidOut_of_none hstyle)
    | _ => rfl

def compactOne (d : Document) (h : Nat) : Except Css.Error Document :=
  match d.style? h with
  | none => .ok d
  | some value =>
    (Css.parseDeclarations value).map fun ds => (d.setAttribute h styleName (Css.compact ds)).2

theorem compactEach_eq (d : Document) (hs : List Nat) :
    d.compactEach hs = d.rewriteEach compactOne hs := by
  induction hs generalizing d with
  | nil => rfl
  | cons h hs ih =>
    rw [compactEach, rewriteEach, compactOne]
    cases d.style? h with
    | none => exact ih d
    | some value =>
      cases hds : Css.parseDeclarations value with
      | error fault => simp only [hds, Except.map]
      | ok ds => simp only [hds, Except.map, ih]

theorem compactOne_of_none (hstyle : d.style? h = none) : d.compactOne h = .ok d := by
  rw [compactOne, hstyle]

theorem compactOne_eq_ok_iff (hstyle : d.style? h = some value) :
    d.compactOne h = .ok d' ↔
      ∃ ds, Css.parseDeclarations value = .ok ds ∧
        (d.setAttribute h styleName (Css.compact ds)).2 = d' := by
  rw [compactOne, hstyle]
  exact map_eq_ok_iff

theorem compactOne_eq_error_iff (hstyle : d.style? h = some value) :
    d.compactOne h = .error fault ↔ Css.parseDeclarations value = .error fault := by
  rw [compactOne, hstyle]
  exact map_eq_error_iff

theorem setAttribute_of_element {e : Element} (hnode : d.node? h = some (.element e))
    (name value : Text) :
    (d.setAttribute h name value).2 = d.setNode h (.element (e.setAttribute name value)) := by
  rw [setAttribute, hnode]

/-! ## Passes -/

theorem compactStyles_eq_ok_iff :
    d.compactStyles = (d', .ok n) ↔
      d.rewriteEach compactOne d.styledElements = (d', .ok ()) ∧ n = d.styledElements.length := by
  rw [← compactEach_eq]
  exact counted_eq_ok_iff

theorem compactStyles_eq_error_iff :
    d.compactStyles = (d', .error fault) ↔
      d.rewriteEach compactOne d.styledElements = (d', .error fault) := by
  rw [← compactEach_eq]
  exact counted_eq_error_iff

/-- The second document is the first one with the style attributes of the given elements on one
line. -/
structure Compacted (d : Document) (hs : List Nat) (d' : Document) : Prop where
  /-- Of each of the elements the first style attribute is read and written anew. Its name, its
  other attributes and the order of these are as they were. -/
  rewritten : ∀ h ∈ hs, ∃ name front value back ds,
    d.node? h = some (.element ⟨name, front ++ (styleName, value) :: back⟩) ∧
      (∀ a ∈ front, a.1 ≠ styleName) ∧ Css.parseDeclarations value = .ok ds ∧
        d'.node? h = some (.element ⟨name, front ++ (styleName, Css.compact ds) :: back⟩)
  /-- Every other node is as it was. -/
  node?_eq : ∀ k, k ∉ hs → d'.node? k = d.node? k
  /-- Every node is where it was. -/
  parent?_eq : ∀ k, d'.parent? k = d.parent? k
  children_eq : ∀ k, d'.children k = d.children k
  /-- No node has come. -/
  size_eq : d'.size = d.size
  flavor_eq : d'.flavor = d.flavor

/-- A pass to the end over elements with style attributes. The induction is on the elements; each of
them is rewritten once, so what the pass finds there is what was there at first. -/
theorem compacted_of_run (hnodup : hs.Nodup) (hstyled : ∀ h ∈ hs, (d.style? h).isSome)
    (hrun : d.rewriteEach compactOne hs = (d', .ok ())) : d.Compacted hs d' := by
  induction hs generalizing d with
  | nil =>
    obtain rfl := rewriteEach_nil_eq_ok.1 hrun
    exact ⟨nofun, fun _ _ => rfl, fun _ => rfl, fun _ => rfl, rfl, rfl⟩
  | cons h hs ih =>
    obtain ⟨hnot, hnodup⟩ := List.nodup_cons.1 hnodup
    obtain ⟨hstyle, hstyled⟩ := List.forall_mem_cons.1 hstyled
    obtain ⟨d₁, hstep, hrun⟩ := rewriteEach_cons_eq_ok.1 hrun
    obtain ⟨value, hvalue⟩ := Option.isSome_iff_exists.1 hstyle
    obtain ⟨⟨name, attributes⟩, hnode, hattribute⟩ := style?_eq_some_iff.1 hvalue
    obtain ⟨front, back, rfl, hfront⟩ := Element.attribute?_eq_some_iff.1 hattribute
    obtain ⟨ds, hds, hset⟩ := (compactOne_eq_ok_iff hvalue).1 hstep
    rw [setAttribute_of_element hnode, Element.setAttribute, Element.setIn_append hfront] at hset
    have hother (k : Nat) (hk : k ≠ h) : d₁.node? k = d.node? k := by
      rw [← hset, node?_setNode, if_neg hk]
    have hne (k : Nat) (hk : k ∈ hs) : k ≠ h := fun heq => hnot (heq ▸ hk)
    have hrest := ih hnodup
      (fun k hk => by rw [style?_congr (hother k (hne k hk))]; exact hstyled k hk) hrun
    constructor
    case rewritten =>
      refine List.forall_mem_cons.2 ⟨⟨name, front, value, back, ds, hnode, hfront, hds, ?_⟩, ?_⟩
      · rw [hrest.node?_eq h hnot, ← hset, node?_setNode, if_pos rfl, hnode, Option.map_some]
      · intro k hk
        rw [← hother k (hne k hk)]
        exact hrest.rewritten k hk
    case node?_eq =>
      intro k hk
      obtain ⟨hkh, hk⟩ := List.ne_and_not_mem_of_not_mem_cons hk
      rw [hrest.node?_eq k hk, hother k hkh]
    case parent?_eq => exact fun k => by rw [hrest.parent?_eq, ← hset, parent?_setNode]
    case children_eq => exact fun k => by rw [hrest.children_eq, ← hset, children_setNode]
    case size_eq => exact hrest.size_eq.trans (hset ▸ d.size_setNode h _)
    case flavor_eq => exact hrest.flavor_eq.trans (hset ▸ rfl)

theorem Compacted.map_laidOut (hd : d.Compacted hs d') (hh : h ∈ hs) :
    d'.node? h = (d.node? h).map Node.laidOut := by
  obtain ⟨name, front, value, back, ds, hnode, hfront, hds, hnode'⟩ := hd.rewritten h hh
  rw [hnode', hnode, Option.map_some, Node.laidOut,
    Element.laidOut_of_ok (Element.attribute?_append name hfront) hds, Element.setAttribute,
    Element.setIn_append hfront]

theorem Linked.style?_isSome (hd : d.Linked) (hh : h ∈ d.styledElements) :
    (d.style? h).isSome := by
  obtain ⟨-, e, hnode, hstyle⟩ := ((hd.lists_elementsWhere _).mem_iff h).1 hh
  obtain ⟨value, hvalue⟩ := Option.isSome_iff_exists.1 hstyle
  rw [style?_eq_some_iff.2 ⟨e, hnode, hvalue⟩]
  rfl

theorem Linked.compacted_of_compactStyles (hd : d.Linked)
    (hrun : d.compactStyles = (d', .ok n)) : d.Compacted d.styledElements d' :=
  compacted_of_run (hd.lists_elementsWhere _).nodup (fun _ hh => hd.style?_isSome hh)
    (compactStyles_eq_ok_iff.1 hrun).1

theorem Linked.styledElements_of_compactStyles (hd : d.Linked)
    (hrun : d.compactStyles = (d', .ok n)) : d'.styledElements = d.styledElements := by
  have hcompacted := hd.compacted_of_compactStyles hrun
  rw [styledElements, elementsWhere_eq, styledElements, elementsWhere_eq]
  refine elementsFrom_congr (fun k => ?_) hcompacted.children_eq root
  by_cases hk : k ∈ d.styledElements
  · rw [hcompacted.map_laidOut hk]
    cases d.node? k with
    | none => rfl
    | some v =>
      cases v with
      | element e => exact e.isSome_attribute?_laidOut
      | _ => rfl
  · rw [hcompacted.node?_eq k hk]

/-- Behind a pass that has come to its end a second one changes nothing, if each of the new
attributes is read as the same declarations. -/
theorem Linked.compactStyles_again (hd : d.Linked) (hrun : d.compactStyles = (d', .ok n))
    (hagain : ∀ h ∈ d.styledElements, ∀ value ds, d.style? h = some value →
      Css.parseDeclarations value = .ok ds →
        Css.parseDeclarations (Css.compact ds) = .ok ds) :
    d'.compactStyles = (d', .ok n) := by
  rw [compactStyles_eq_ok_iff, hd.styledElements_of_compactStyles hrun]
  refine ⟨rewriteEach_eq_self fun h hh => ?_, (compactStyles_eq_ok_iff.1 hrun).2⟩
  obtain ⟨name, front, value, back, ds, hnode, hfront, hds, hnode'⟩ :=
    (hd.compacted_of_compactStyles hrun).rewritten h hh
  have hvalue := style?_eq_some_iff.2 ⟨_, hnode, Element.attribute?_append name hfront⟩
  have hattribute : (⟨name, front ++ (styleName, Css.compact ds) :: back⟩ : Element).attribute?
      styleName = some (Css.compact ds) := Element.attribute?_append name hfront
  refine (compactOne_eq_ok_iff (style?_eq_some_iff.2 ⟨_, hnode', hattribute⟩)).2
    ⟨ds, hagain h hh value ds hvalue hds, ?_⟩
  rw [setAttribute_of_element hnode', Element.setAttribute_eq_self hattribute,
    setNode_eq_self hnode']

theorem Linked.compacted_of_fault (hd : d.Linked)
    (hrun : d.compactStyles = (d', .error fault)) :
    ∃ before h behind value, d.styledElements = before ++ h :: behind ∧
      d.style? h = some value ∧ Css.parseDeclarations value = .error fault ∧
        d.Compacted before d' := by
  obtain ⟨before, h, behind, hsplit, hbefore, hstop⟩ :=
    rewriteEach_eq_error (compactStyles_eq_error_iff.1 hrun)
  obtain ⟨hnodup, hnot⟩ := (hd.lists_elementsWhere _).split hsplit
  have hstyled (k : Nat) (hk : k ∈ before ++ h :: behind) : (d.style? k).isSome :=
    hd.style?_isSome (hsplit ▸ hk)
  have hcompacted :=
    compacted_of_run hnodup (fun k hk => hstyled k (List.mem_append_left _ hk)) hbefore
  obtain ⟨value, hvalue⟩ := Option.isSome_iff_exists.1 (hstyled h (by simp))
  have hsame := style?_congr (hcompacted.node?_eq h fun hh => hnot h hh List.mem_cons_self)
  exact ⟨before, h, behind, value, hsplit, hvalue,
    (compactOne_eq_error_iff (hsame.trans hvalue)).1 hstop, hcompacted⟩

/-- The pass over style attributes. It comes to its end with the number of the elements that have
style attributes, and all of these are read. Otherwise it stops at the first one that is not, with
all in front of it rewritten. Behind a pass to the end a second one changes nothing if each of the
new attributes is read as the same declarations. -/
theorem compactStyles_frame (hd : d.Linked) :
    d.Lists (fun e => (e.attribute? styleName).isSome) d.styledElements ∧
      (∀ d' n, d.compactStyles = (d', .ok n) →
        n = d.styledElements.length ∧ d.Compacted d.styledElements d' ∧
          ((∀ h ∈ d.styledElements, ∀ value ds, d.style? h = some value →
            Css.parseDeclarations value = .ok ds →
              Css.parseDeclarations (Css.compact ds) = .ok ds) →
            d'.compactStyles = (d', .ok n))) ∧
      ∀ d' fault, d.compactStyles = (d', .error fault) →
        ∃ before h behind value, d.styledElements = before ++ h :: behind ∧
          d.style? h = some value ∧ Css.parseDeclarations value = .error fault ∧
            d.Compacted before d' := by
  refine ⟨hd.lists_elementsWhere _, fun d' n hrun => ?_, fun d' fault hrun => ?_⟩
  · exact ⟨(compactStyles_eq_ok_iff.1 hrun).2, hd.compacted_of_compactStyles hrun,
      hd.compactStyles_again hrun⟩
  · exact hd.compacted_of_fault hrun

/-- A page with two elements that have style attributes, the first of them two of these. -/
def styledPage (value : Text) : Document :=
  .ofTrees .html
    [.node (.element ⟨['p'],
          [("id".toList, ['x']), (styleName, "a :b".toList), (styleName, ['e'])]⟩)
        [.node (.text ['t']) []],
      .node (.element ⟨['q'], [(styleName, value)]⟩) []]

/-- With a declaration in the last attribute the pass comes to its end, and a second one changes
nothing. With a bare word there it stops, and the first element is rewritten. -/
theorem compactStyles_frame_styledPage :
    (∃ d, (styledPage "c:d".toList).compactStyles = (d, .ok 2) ∧
      (styledPage "c:d".toList).Compacted [1, 2] d ∧ d.compactStyles = (d, .ok 2)) ∧
      ∃ d, (styledPage ['c']).compactStyles = (d, .error (.missingColon ['c'])) ∧
        (styledPage ['c']).Compacted [1] d := by
  have hlinked (value : Text) : (styledPage value).Linked := linked_ofTrees .html _
  constructor
  · have hrun : (styledPage "c:d".toList).compactStyles =
        ((styledPage "c:d".toList).compactStyles.1, .ok 2) := Prod.ext rfl (by decide +kernel)
    have helements : (styledPage "c:d".toList).styledElements = [1, 2] := by decide +kernel
    obtain ⟨-, hcompacted, hagain⟩ := (compactStyles_frame (hlinked _)).2.1 _ 2 hrun
    rw [helements] at hcompacted hagain
    have hread {h : Nat} (old : Text) (ds : List Css.Declaration)
        (hstyle : (styledPage "c:d".toList).style? h = some old)
        (hold : Css.parseDeclarations old = .ok ds)
        (hnew : Css.parseDeclarations (Css.compact ds) = .ok ds) (value : Text)
        (ds' : List Css.Declaration)
        (hvalue : (styledPage "c:d".toList).style? h = some value)
        (hds : Css.parseDeclarations value = .ok ds') :
        Css.parseDeclarations (Css.compact ds') = .ok ds' := by
      obtain rfl := Option.some.inj (hstyle.symm.trans hvalue)
      obtain rfl := Except.ok.inj (hold.symm.trans hds)
      exact hnew
    refine ⟨_, hrun, hcompacted, hagain fun h hh => ?_⟩
    rcases List.mem_pair.1 hh with rfl | rfl
    · exact hread "a :b".toList [⟨['a'], ['b'], false⟩] (by decide +kernel) (by decide +kernel)
        (by decide +kernel)
    · exact hread "c:d".toList [⟨['c'], ['d'], false⟩] (by decide +kernel) (by decide +kernel)
        (by decide +kernel)
  · have hrun : (styledPage ['c']).compactStyles =
        ((styledPage ['c']).compactStyles.1, .error (.missingColon ['c'])) :=
      Prod.ext rfl (by decide +kernel)
    have helements : (styledPage ['c']).styledElements = [1, 2] := by decide +kernel
    obtain ⟨before, h, behind, value, hsplit, hvalue, hfault, hcompacted⟩ :=
      (compactStyles_frame (hlinked _)).2.2 _ _ hrun
    rw [helements] at hsplit
    refine ⟨_, hrun, ?_⟩
    -- the first attribute is read, so the pass does not stop there
    obtain _ | ⟨first, _ | ⟨second, rest⟩⟩ := before
    · obtain ⟨rfl, -⟩ := List.cons.inj hsplit
      have hstyle : (styledPage ['c']).style? 1 = some "a :b".toList := by decide +kernel
      obtain rfl := Option.some.inj (hstyle.symm.trans hvalue)
      exact absurd hfault (by decide +kernel)
    · obtain rfl := (List.cons.inj hsplit).1
      exact hcompacted
    · simp at hsplit

end Document

end Markup

end PrettyPayload
