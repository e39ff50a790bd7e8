import PrettyPayload.Proofs.Markup.Outline
import PrettyPayload.Proofs.Markup.Source

/-!
# What the entries depend on

The entries of a tree depend on its outline alone, but for one case: in preformatted content, an
element that holds an empty text is written with two tags, and an element that holds nothing with
one. `Filled` rules that out. A tree with its texts joined holds no empty text.
-/

namespace PrettyPayload

namespace Markup

open PrettyPayload.Tree

/-! ## Definitions -/

mutual

/-- In preformatted content, no element holds nothing but empty texts. -/
def Filled (kept : Bool) : Tree Node → Prop
  | .node v ts =>
    match v with
    | .element e =>
      (kept = true → outlineAll true ts = [] → ts = []) ∧
        FilledAll (kept || isPreformatted .xml e) ts
    | _ => FilledAll kept ts

def FilledAll (kept : Bool) : List (Tree Node) → Prop
  | [] => True
  | t :: ts => Filled kept t ∧ FilledAll kept ts

end

/-- A node of an outline: a text is reduced to its segments. -/
def Node.essential : Node → Node
  | .text t => .text (essence false t)
  | v => v

variable {options : Options} {kept : Bool}

theorem filledAll_iff {ts : List (Tree Node)} : FilledAll kept ts ↔ ∀ t ∈ ts, Filled kept t := by
  induction ts with
  | nil => simp [FilledAll]
  | cons t ts ih => rw [FilledAll, ih, List.forall_mem_cons]

/-! ## Joined texts -/

theorem outline_ne_nil {t : Tree Node} (h : t.value.isText = false) : outline kept t ≠ [] := by
  obtain ⟨v, ts⟩ := t
  cases v with
  | text t => cases h
  | _ => exact List.cons_ne_nil _ _

theorem mergeAfter_eq_nil_of_outlineAll (pending : Text) (ts : List (Tree Node))
    (h : outlineAll true (mergeAfter pending ts) = []) : mergeAfter pending ts = [] := by
  induction ts generalizing pending with
  | nil =>
    rw [mergeAfter] at h ⊢
    unfold textNodes at h ⊢
    split at h
    next => rfl
    next hne =>
      rw [outlineAll, outline, textOutline, essence, if_pos rfl, if_neg hne] at h
      cases h
  | cons t ts ih =>
    cases ht : t.value.isText with
    | true =>
      obtain ⟨s, hs⟩ := exists_of_isText ht
      rw [mergeAfter, hs] at h ⊢
      exact ih _ h
    | false =>
      rw [mergeAfter_of_isText_eq_false ht, outlineAll_append, outlineAll,
        List.append_eq_nil_iff, List.append_eq_nil_iff] at h
      refine absurd h.2.1 (outline_ne_nil ?_)
      rw [value_merge]
      exact ht

theorem filledAll_textNodes (kept : Bool) (pending : Text) :
    FilledAll kept (textNodes pending) := by
  unfold textNodes
  split
  next => trivial
  next => exact ⟨trivial, trivial⟩

mutual

/-- A tree with its texts joined holds no empty text. -/
theorem filled_merge (kept : Bool) : (t : Tree Node) → Filled kept (merge t)
  | .node v ts => by
    cases v with
    | element e =>
      exact ⟨fun _ => mergeAfter_eq_nil_of_outlineAll [] ts, filledAll_mergeAfter _ [] ts⟩
    | _ => exact filledAll_mergeAfter kept [] ts

theorem filledAll_mergeAfter (kept : Bool) (pending : Text) :
    (ts : List (Tree Node)) → FilledAll kept (mergeAfter pending ts)
  | [] => filledAll_textNodes kept pending
  | t :: ts => by
    have ih := filledAll_iff.1 (filledAll_mergeAfter kept [] ts)
    cases ht : t.value.isText with
    | true =>
      obtain ⟨s, hs⟩ := exists_of_isText ht
      rw [mergeAfter, hs]
      exact filledAll_mergeAfter kept (pending ++ s) ts
    | false =>
      rw [mergeAfter_of_isText_eq_false ht, filledAll_iff, List.forall_mem_append,
        List.forall_mem_cons]
      exact ⟨filledAll_iff.1 (filledAll_textNodes kept pending), filled_merge kept t, ih⟩

end

/-! ## Preformatted content -/

mutual

/-- Preformatted content is written like its outline. -/
theorem verbatimAll_outline :
    (t : Tree Node) → t.Each WritableAt → Filled true t →
      verbatimAll .xml (outline true t) = verbatim .xml t
  | .node v ts, h, hfilled => by
    cases v with
    | text t =>
      obtain rfl := h.1.leaf rfl
      rw [outline, textOutline, essence, if_pos rfl]
      split
      next hnil => rw [hnil]; rfl
      next => rw [verbatimAll, verbatimAll, List.append_nil]
    | element e =>
      have ih := verbatimAll_outlineAll ts h.2 hfilled.2
      rw [outline, verbatimAll, verbatimAll, List.append_nil, Bool.true_or]
      by_cases hnil : ts = []
      · rw [hnil, outlineAll]
      · rw [verbatim_element_of_ne_nil e (fun houtline => hnil (hfilled.1 rfl houtline)), ih,
          verbatim_element_of_ne_nil e hnil]
    | document => exact absurd h.1.node id
    | doctype t => exact absurd h.1.node id
    | data t => exact absurd h.1.node id
    | css t => exact absurd h.1.node id
    | _ =>
      obtain rfl := h.1.leaf rfl
      exact List.append_nil _

theorem verbatimAll_outlineAll :
    (ts : List (Tree Node)) → EachOfAll WritableAt ts → FilledAll true ts →
      verbatimAll .xml (outlineAll true ts) = verbatimAll .xml ts
  | [], _, _ => rfl
  | t :: ts, h, hfilled => by
    rw [outlineAll, verbatimAll_append, verbatimAll_outline t h.1 hfilled.1,
      verbatimAll_outlineAll ts h.2 hfilled.2, verbatimAll]

end

/-! ## Indented content -/

theorem isBlankNode_essential (v : Node) : isBlankNode v.essential = isBlankNode v := by
  cases v with
  | text t =>
    rw [Bool.eq_iff_iff]
    change (essence false t).all Text.isAsciiBlank = true ↔ t.all Text.isAsciiBlank = true
    rw [← segments_eq_nil_iff, ← segments_eq_nil_iff, segments_essence]
  | _ => rfl

/-- The nodes of an outline are those that are not blank, each reduced to what counts of it. -/
theorem map_value_outlineAll {ts : List (Tree Node)} (h : EachOfAll WritableAt ts) :
    (outlineAll false ts).map value =
      ((ts.map value).filter fun v => !isBlankNode v).map Node.essential := by
  induction ts with
  | nil => rfl
  | cons t ts ih =>
    rw [outlineAll, List.map_append, ih h.2, List.map_cons, List.filter_cons]
    cases hblank : isBlankNode t.value with
    | true => simp [outline_of_isBlankNode h.1 hblank]
    | false =>
      obtain ⟨v, us⟩ := t
      cases v with
      | text t =>
        have hne : essence false t ≠ [] := by
          rw [Ne, essence_eq_nil_iff, segments_eq_nil_iff]
          exact fun hall => absurd (hall.symm.trans hblank) Bool.noConfusion
        simp [outline, textOutline, hne, Node.essential]
      | _ => simp [outline, Node.essential]

theorem filter_outlineAll {ts : List (Tree Node)} (h : EachOfAll WritableAt ts) :
    ((outlineAll false ts).map value).filter (fun v => !isBlankNode v) =
      ((ts.map value).filter fun v => !isBlankNode v).map Node.essential := by
  rw [map_value_outlineAll h, List.filter_map]
  simp only [Function.comp_def, isBlankNode_essential, List.filter_filter, Bool.and_self]

theorem all_isBlankNode_outlineAll {ts : List (Tree Node)} (h : EachOfAll WritableAt ts) :
    ((outlineAll false ts).map value).all isBlankNode = (ts.map value).all isBlankNode := by
  have hfilter := filter_outlineAll h
  have hiff : ∀ vs : List Node, vs.all isBlankNode = true ↔
      vs.filter (fun v => !isBlankNode v) = [] := by simp [List.filter_eq_nil_iff]
  rw [Bool.eq_iff_iff, hiff, hiff, hfilter, List.map_eq_nil_iff]

theorem onlyLine?_outlineAll {ts : List (Tree Node)} (h : EachOfAll WritableAt ts) :
    onlyLine? options ((outlineAll false ts).map value) = onlyLine? options (ts.map value) := by
  rw [onlyLine?, filter_outlineAll h, onlyLine?]
  cases (ts.map value).filter fun v => !isBlankNode v with
  | nil => rfl
  | cons v vs =>
    cases vs with
    | nil =>
      cases v with
      | text t => simp only [List.map_cons, List.map_nil, Node.essential, segments_essence]
      | _ => rfl
    | cons w vs => cases v <;> rfl

mutual

theorem entriesOfAll_outline (ancestors : Nat) :
    (t : Tree Node) → t.Each WritableAt → Filled false t →
      entriesOfAll .xml options ancestors (outline false t) = entries .xml options ancestors t
  | .node v ts, h, hfilled => by
    cases v with
    | text t =>
      rw [outline, textOutline, entries]
      split
      next hnil => rw [essence_eq_nil_iff.1 hnil, entriesOfAll, List.map_nil]
      next => rw [entriesOfAll, entriesOfAll, entries, List.append_nil, segments_essence]
    | element e =>
      rw [outline, entriesOfAll, entriesOfAll, List.append_nil, entries, entries]
      cases hpre : isPreformatted .xml e with
      | true =>
        have hkept := hfilled.2
        rw [hpre] at hkept
        simp only [Bool.or_true, verbatimAll_outlineAll ts h.2 hkept]
        rfl
      | false =>
        have hkept := hfilled.2
        rw [hpre] at hkept
        simp only [Bool.or_false, all_isBlankNode_outlineAll h.2, onlyLine?_outlineAll h.2,
          entriesOfAll_outlineAll (ancestors + 1) ts h.2 hkept]
        rfl
    | document => exact absurd h.1.node id
    | doctype t => exact absurd h.1.node id
    | data t => exact absurd h.1.node id
    | css t => exact absurd h.1.node id
    | _ =>
      obtain rfl := h.1.leaf rfl
      exact List.append_nil _

theorem entriesOfAll_outlineAll (ancestors : Nat) :
    (ts : List (Tree Node)) → EachOfAll WritableAt ts → FilledAll false ts →
      entriesOfAll .xml options ancestors (outlineAll false ts) =
        entriesOfAll .xml options ancestors ts
  | [], _, _ => rfl
  | t :: ts, h, hfilled => by
    rw [outlineAll, entriesOfAll_append, entriesOfAll_outline ancestors t h.1 hfilled.1,
      entriesOfAll_outlineAll ancestors ts h.2 hfilled.2, entriesOfAll]

end

/-! ## Documents -/

theorem Document.serialize_eq_text {d : Document} {p : Parts} (options : Options)
    (hflavor : d.flavor = .xml) (h : d.tree.map Prod.snd = .node .document p.nodes) :
    d.serialize options = p.text options := by
  rw [d.serialize_eq, hflavor, h]
  rfl

namespace Parts

theorem withoutReturns_text (hindent : PlainIndent options) {p : Parts}
    (hread : EachOfAll AsRead p.trees) (hdeclaration : ∀ w ∈ p.declaration, '\r' ∉ w) :
    Text.withoutReturns (p.text options) = p.text options.withLineFeeds := by
  have hnodes : ∀ line ∈ entriesOfAll .xml options 1 p.nodes, '\r' ∉ line := by
    rw [nodes, entriesOfAll_append, List.forall_mem_append]
    refine ⟨?_, not_mem_entriesOfAll hindent 1 p.trees hread⟩
    cases hw : p.declaration with
    | none => exact List.forall_mem_nil _
    | some w =>
      exact List.forall_mem_singleton.2
        (not_mem_instructionText (by decide) (hdeclaration w hw))
  rw [text, withoutReturns_joinWith options hnodes, text, entriesOfAll_withLineFeeds]
  rfl

theorem outlineAll_relaid (hindent : PlainIndent options) (hfeed : options.newline = ['\n'])
    {p : Parts} (hread : EachOfAll AsRead p.trees) :
    outlineAll false (p.relaid hindent).nodes = outlineAll false p.nodes := by
  have hroot : p.root.Each AsRead :=
    eachOfAll_iff.1 hread _ (List.mem_append_right _ List.mem_cons_self)
  simp only [nodes, trees, relaid, outlineAll_append, outlineAll,
    outline_merge_lay hindent hfeed 0 p.root hroot (isText_of_isRoot p.isRoot)]

/-- Written and read again, the root element is written like its outline. -/
theorem entries_root_relaid (options : Options) {lineFeeds : Options}
    (hindent : PlainIndent lineFeeds) (hfeed : lineFeeds.newline = ['\n']) {p : Parts}
    (hread : EachOfAll AsRead p.trees) :
    entries .xml options 1 (p.relaid hindent).root =
      entriesOfAll .xml options 1 (outline false p.root) := by
  have hroot : p.root.Each AsRead :=
    eachOfAll_iff.1 hread _ (List.mem_append_right _ List.mem_cons_self)
  rw [← entriesOfAll_outline 1 _ (p.relaid hindent).isRoot.1 (filled_merge false _), relaid,
    outline_merge_lay hindent hfeed 0 p.root hroot (isText_of_isRoot p.isRoot)]

end Parts

end Markup

end PrettyPayload
