import PrettyPayload.Proofs.Markup.Stable

/-!
# How long an outline is when it is written

The outline of a tree is never written longer than the tree, and as long only where the tree is
filled. So an element of preformatted content that holds nothing but empty texts is always written
differently once its document has been formatted.
-/

namespace PrettyPayload

namespace Markup

open PrettyPayload.Tree

variable {options : Options} {kept : Bool}

def extent (options : Options) (lines : List Text) : Nat :=
  (lines.flatMap (options.newline ++ ·)).length

@[simp] theorem extent_nil (options : Options) : extent options [] = 0 := rfl

@[simp] theorem extent_cons (options : Options) (line : Text) (lines : List Text) :
    extent options (line :: lines) =
      options.newline.length + line.length + extent options lines := by
  simp [extent, Nat.add_assoc]

@[simp] theorem extent_append (options : Options) (lines more : List Text) :
    extent options (lines ++ more) = extent options lines + extent options more := by
  simp [extent]

theorem extent_eq_of_joinWith_eq {lines more : List Text} (hlines : lines ≠ []) (hmore : more ≠ [])
    (h : Text.joinWith options.newline lines = Text.joinWith options.newline more) :
    extent options lines = extent options more := by
  rw [extent, extent, Text.flatMap_append_eq_joinWith _ hlines,
    Text.flatMap_append_eq_joinWith _ hmore, h]

theorem eq_element_of_element? {v : Node} {e : Element} (h : v.element? = some e) :
    v = .element e := by
  cases v with
  | element e' => exact congrArg Node.element (Option.some.inj h)
  | _ => cases h

theorem filled_of_leaf {t : Tree Node} (h : t.Each WritableAt)
    (ht : t.value.element? = none) : Filled kept t := by
  obtain ⟨v, ts⟩ := t
  obtain rfl := h.1.leaf ht
  cases v with
  | element e => cases ht
  | _ => trivial

theorem filled_of_isRemark {t : Tree Node} (h : IsRemark t) : Filled kept t := by
  refine filled_of_leaf h.1 ?_
  have hremark := h.2
  cases hv : t.value with
  | element e =>
    rw [hv] at hremark
    cases hremark
  | _ => rfl

/-! ## Preformatted content -/

theorem length_startTag (e : Element) :
    (startTag .xml e true).length = (startTag .xml e false).length + 1 := by
  simp [startTag, Nat.add_assoc]

mutual

theorem length_verbatim_outline :
    (t : Tree Node) → t.Each WritableAt →
      (verbatimAll .xml (outline true t)).length ≤ (verbatim .xml t).length ∧
        ((verbatimAll .xml (outline true t)).length = (verbatim .xml t).length → Filled true t)
  | .node v ts, h => by
    cases hv : v.element? with
    | none =>
      have hfilled : Filled true (.node v ts) := filled_of_leaf h hv
      rw [verbatimAll_outline _ h hfilled]
      exact ⟨Nat.le_refl _, fun _ => hfilled⟩
    | some e =>
      obtain rfl := eq_element_of_element? hv
      obtain ⟨hle, hfilled⟩ := length_verbatim_outlineAll ts h.2
      rw [outline, verbatimAll, verbatimAll, List.append_nil, Bool.true_or]
      by_cases hnil : ts = []
      · subst hnil
        exact ⟨Nat.le_refl _, fun _ => ⟨fun _ _ => rfl, trivial⟩⟩
      · by_cases houtline : outlineAll true ts = []
        · have hempty : verbatim .xml (.node (.element e) []) = startTag .xml e true := rfl
          have htag : (verbatim .xml (.node (.element e) (outlineAll true ts))).length <
              (verbatim .xml (.node (.element e) ts)).length := by
            rw [houtline, hempty, verbatim_element_of_ne_nil e hnil, length_startTag]
            simp only [endTag, List.length_append, List.length_cons]
            omega
          exact ⟨Nat.le_of_lt htag, fun heq => absurd heq (Nat.ne_of_lt htag)⟩
        · rw [verbatim_element_of_ne_nil e houtline, verbatim_element_of_ne_nil e hnil]
          simp only [List.length_append]
          refine ⟨by omega, fun heq => ⟨fun _ hnone => absurd hnone houtline, hfilled (by omega)⟩⟩

theorem length_verbatim_outlineAll :
    (ts : List (Tree Node)) → EachOfAll WritableAt ts →
      (verbatimAll .xml (outlineAll true ts)).length ≤ (verbatimAll .xml ts).length ∧
        ((verbatimAll .xml (outlineAll true ts)).length = (verbatimAll .xml ts).length →
          FilledAll true ts)
  | [], _ => ⟨Nat.le_refl _, fun _ => trivial⟩
  | t :: ts, h => by
    obtain ⟨hle, hfilled⟩ := length_verbatim_outline t h.1
    obtain ⟨hles, hfilleds⟩ := length_verbatim_outlineAll ts h.2
    rw [outlineAll, verbatimAll_append, verbatimAll]
    simp only [List.length_append]
    exact ⟨by omega, fun heq => ⟨hfilled (by omega), hfilleds (by omega)⟩⟩

end

/-! ## Indented content -/

theorem filledAll_of_isText {ts : List (Tree Node)} (h : EachOfAll WritableAt ts)
    (htext : ∀ t ∈ ts, t.value.isText = true) : FilledAll kept ts := by
  refine filledAll_iff.2 fun t ht => filled_of_leaf (eachOfAll_iff.1 h t ht) ?_
  obtain ⟨s, hs⟩ := exists_of_isText (htext t ht)
  rw [hs]
  rfl

theorem isText_of_isBlankNode {t : Tree Node} (h : t.Each WritableAt)
    (hblank : isBlankNode t.value = true) : t.value.isText = true := by
  obtain ⟨v, ts⟩ := t
  cases v with
  | text t => rfl
  | data t => exact absurd h.1.node id
  | _ => cases hblank

/-- An element that is written on one line holds nothing but texts. -/
theorem isText_of_onlyLine? {ts : List (Tree Node)} {line : Text} (h : EachOfAll WritableAt ts)
    (honly : onlyLine? options (ts.map value) = some line) : ∀ t ∈ ts, t.value.isText = true := by
  intro t ht
  obtain ⟨s, us, hfilter, -⟩ := onlyLine?_eq_some honly
  cases hblank : isBlankNode t.value with
  | true => exact isText_of_isBlankNode (eachOfAll_iff.1 h t ht) hblank
  | false =>
    have hmem : t ∈ ts.filter fun t => !isBlankNode t.value :=
      List.mem_filter.2 ⟨ht, by rw [hblank]; rfl⟩
    rw [hfilter] at hmem
    obtain rfl := List.mem_singleton.1 hmem
    rfl

mutual

theorem extent_outline (ancestors : Nat) :
    (t : Tree Node) → t.Each WritableAt →
      extent options (entriesOfAll .xml options ancestors (outline false t)) ≤
          extent options (entries .xml options ancestors t) ∧
        (extent options (entriesOfAll .xml options ancestors (outline false t)) =
          extent options (entries .xml options ancestors t) → Filled false t)
  | .node v ts, h => by
    cases hv : v.element? with
    | none =>
      have hfilled : Filled false (.node v ts) := filled_of_leaf h hv
      rw [entriesOfAll_outline ancestors _ h hfilled]
      exact ⟨Nat.le_refl _, fun _ => hfilled⟩
    | some e =>
      obtain rfl := eq_element_of_element? hv
      rw [outline, entriesOfAll, entriesOfAll, List.append_nil, entries_element, entries_element]
      cases hpre : isPreformatted .xml e with
      | true =>
        obtain ⟨hle, hfilled⟩ := length_verbatim_outlineAll ts h.2
        simp only [Bool.or_true, if_true, extent_cons, extent_nil, List.length_append]
        refine ⟨by omega, fun heq => ⟨nofun, ?_⟩⟩
        rw [hpre]
        exact hfilled (by omega)
      | false =>
        have hkept : FilledAll false ts → Filled false (.node (.element e) ts) := by
          intro hfilled
          refine ⟨nofun, ?_⟩
          rw [hpre]
          exact hfilled
        simp only [Bool.or_false, Bool.false_eq_true, if_false, all_isBlankNode_outlineAll h.2,
          onlyLine?_outlineAll h.2]
        split
        next hblank =>
          refine ⟨Nat.le_refl _, fun _ => hkept (filledAll_of_isText h.2 fun t ht => ?_)⟩
          exact isText_of_isBlankNode (eachOfAll_iff.1 h.2 t ht)
            (List.all_eq_true.1 hblank _ (List.mem_map_of_mem ht))
        next =>
          split
          next honly =>
            exact ⟨Nat.le_refl _,
              fun _ => hkept (filledAll_of_isText h.2 (isText_of_onlyLine? h.2 honly))⟩
          next =>
            obtain ⟨hle, hfilled⟩ := extent_outlineAll (ancestors + 1) ts h.2
            simp only [List.cons_append, extent_cons, extent_append]
            exact ⟨by omega, fun heq => hkept (hfilled (by omega))⟩

theorem extent_outlineAll (ancestors : Nat) :
    (ts : List (Tree Node)) → EachOfAll WritableAt ts →
      extent options (entriesOfAll .xml options ancestors (outlineAll false ts)) ≤
          extent options (entriesOfAll .xml options ancestors ts) ∧
        (extent options (entriesOfAll .xml options ancestors (outlineAll false ts)) =
          extent options (entriesOfAll .xml options ancestors ts) → FilledAll false ts)
  | [], _ => ⟨Nat.le_refl _, fun _ => trivial⟩
  | t :: ts, h => by
    obtain ⟨hle, hfilled⟩ := extent_outline ancestors t h.1
    obtain ⟨hles, hfilleds⟩ := extent_outlineAll ancestors ts h.2
    rw [outlineAll, entriesOfAll_append, entriesOfAll]
    simp only [extent_append]
    exact ⟨by omega, fun heq => ⟨hfilled (by omega), hfilleds (by omega)⟩⟩

end

/-! ## Documents -/

theorem entries_ne_nil_of_isRoot {t : Tree Node} (h : IsRoot t) :
    entries .xml options 1 t ≠ [] := by
  obtain ⟨⟨v, ts⟩, -, helement⟩ := t, h
  obtain ⟨e, he⟩ := Option.isSome_iff_exists.1 helement
  obtain rfl := eq_element_of_element? he
  rw [entries_element]
  dsimp only
  repeat' split
  all_goals exact List.cons_ne_nil _ _

namespace Parts

theorem entries_nodes_ne_nil (options : Options) (p : Parts) :
    entriesOfAll .xml options 1 p.nodes ≠ [] := by
  rw [nodes, trees, entriesOfAll_append, entriesOfAll_append, entriesOfAll]
  exact List.append_ne_nil_of_right_ne_nil _ (List.append_ne_nil_of_right_ne_nil _
    (List.append_ne_nil_of_left_ne_nil (entries_ne_nil_of_isRoot p.isRoot) _))

theorem filledAll_nodes (p : Parts) (h : Filled false p.root) : FilledAll false p.nodes := by
  refine filledAll_iff.2 (List.forall_mem_append.2 ⟨?_, List.forall_mem_append.2
    ⟨fun r hr => ?_, List.forall_mem_cons.2 ⟨h, fun r hr => ?_⟩⟩⟩)
  · exact List.forall_mem_map.2 fun w _ => trivial
  · exact filled_of_isRemark (p.isRemark r hr).1
  · exact filled_of_isRemark (p.isAfter r hr)

/-- Written and read again, parts are written as before if and only if they are filled. -/
theorem text_relaid_iff (options : Options) {lineFeeds : Options}
    (hindent : PlainIndent lineFeeds) (hfeed : lineFeeds.newline = ['\n']) {p : Parts}
    (hread : EachOfAll AsRead p.trees) :
    (p.relaid hindent).text options = p.text options ↔ FilledAll false p.nodes := by
  have hroot : p.root ∈ p.nodes :=
    List.mem_append_right _ (List.mem_append_right _ List.mem_cons_self)
  have hentries := entries_root_relaid options hindent hfeed hread
  constructor
  · intro heq
    have hextent := extent_eq_of_joinWith_eq (entries_nodes_ne_nil options (p.relaid hindent))
      (entries_nodes_ne_nil options p) heq
    simp only [nodes, trees, entriesOfAll_append, entriesOfAll, extent_append, hentries] at hextent
    have hsame : extent options (entriesOfAll .xml options 1 (outline false p.root)) =
        extent options (entries .xml options 1 p.root) :=
      Nat.add_right_cancel (Nat.add_left_cancel (Nat.add_left_cancel hextent))
    exact p.filledAll_nodes ((extent_outline 1 p.root p.isRoot.1).2 hsame)
  · intro hfilled
    rw [entriesOfAll_outline 1 p.root p.isRoot.1 (filledAll_iff.1 hfilled _ hroot)] at hentries
    simp only [text, nodes, trees, entriesOfAll_append, entriesOfAll, hentries]
    rfl

end Parts

end Markup

end PrettyPayload
