import PrettyPayload.Proofs.Markup.Built
import PrettyPayload.Proofs.Markup.Returnless

/-!
# Outlines

The outline of a tree is what counts of it: all of its nodes but for its texts, of which the
segments count, and in preformatted content every character. The layout of a document and the
joining of its texts leave the outline as it is.
-/

namespace PrettyPayload

namespace Markup

open PrettyPayload.Tree Xml

/-! ## Definitions -/

/-- What counts of a text: all of it where it is kept, and otherwise its segments. -/
def essence (kept : Bool) (t : Text) : Text :=
  if kept then t else Text.joinWith ['\n'] (segments t)

def textOutline (kept : Bool) (t : Text) : List (Tree Node) :=
  if essence kept t = [] then [] else [.node (.text (essence kept t)) []]

mutual

def outline (kept : Bool) : Tree Node → List (Tree Node)
  | .node v ts =>
    match v with
    | .text t => textOutline kept t
    | .element e => [.node v (outlineAll (kept || isPreformatted .xml e) ts)]
    | _ => [.node v (outlineAll kept ts)]

def outlineAll (kept : Bool) : List (Tree Node) → List (Tree Node)
  | [] => []
  | t :: ts => outline kept t ++ outlineAll kept ts

end

variable {options : Options} {kept : Bool} {s t pending : Text}

theorem outlineAll_append (kept : Bool) (ts us : List (Tree Node)) :
    outlineAll kept (ts ++ us) = outlineAll kept ts ++ outlineAll kept us := by
  induction ts with
  | nil => rfl
  | cons t ts ih => rw [List.cons_append, outlineAll, outlineAll, ih, List.append_assoc]

/-! ## Texts -/

theorem segments_essence (t : Text) : segments (essence false t) = segments t :=
  segments_joinWith fun _ => isSegment_of_mem

theorem essence_eq_nil_iff : essence false t = [] ↔ segments t = [] := by
  constructor
  · intro h
    rw [← segments_essence, h]
    rfl
  · intro h
    rw [essence, h]
    rfl

theorem textOutline_nil (kept : Bool) : textOutline kept [] = [] := by
  cases kept <;> rfl

theorem textOutline_congr (h : segments s = segments t) :
    textOutline false s = textOutline false t := by
  have hessence : essence false s = essence false t := congrArg (Text.joinWith ['\n']) h
  rw [textOutline, hessence, textOutline]

theorem textOutline_of_segments (h : segments t = []) : textOutline false t = [] :=
  if_pos (essence_eq_nil_iff.2 h)

theorem textNodes_eq (h : '\r' ∉ t) :
    textNodes t = if t = [] then [] else [.node (.text t) []] := by
  rw [textNodes, settled_eq_self h]
  cases t <;> rfl

theorem outlineAll_textNodes (kept : Bool) (h : '\r' ∉ t) :
    outlineAll kept (textNodes t) = textOutline kept t := by
  rw [textNodes_eq h]
  split
  next hnil => rw [hnil, textOutline_nil, outlineAll]
  next => rw [outlineAll, outlineAll, outline, List.append_nil]

/-! ## Joined texts -/

def NoTextBehind (pending : Text) (ts : List (Tree Node)) : Prop :=
  pending ≠ [] → ∀ t, ts.head? = some t → t.value.isText = false

mutual

/-- Where no two texts stand side by side, joining texts leaves the outline as it is. -/
theorem outline_merge (kept : Bool) :
    (t : Tree Node) → t.Each AsRead → t.value.isText = false →
      outline kept (merge t) = outline kept t
  | .node v ts, h, ht => by
    have ih (kept : Bool) := outlineAll_mergeAfter kept [] nofun ts h.2 h.1.apart fun hne =>
      absurd rfl hne
    cases v with
    | text t => cases ht
    | _ => simp only [merge, outline, ih, textOutline_nil, List.nil_append]

theorem outlineAll_mergeAfter (kept : Bool) (pending : Text) (hpending : '\r' ∉ pending) :
    (ts : List (Tree Node)) → EachOfAll AsRead ts → Apart Node.isText ts →
      NoTextBehind pending ts →
        outlineAll kept (mergeAfter pending ts) = textOutline kept pending ++ outlineAll kept ts
  | [], _, _, _ => by
    rw [mergeAfter, outlineAll_textNodes kept hpending, outlineAll, List.append_nil]
  | .node v us :: ts, h, hapart, hbehind => by
    cases hv : v.isText with
    | true =>
      obtain ⟨t, rfl⟩ := exists_of_isText hv
      have hnil : pending = [] := by
        by_cases hnil : pending = []
        · exact hnil
        · exact absurd (hbehind hnil _ rfl) Bool.noConfusion
      rw [hnil, textOutline_nil, mergeAfter]
      exact outlineAll_mergeAfter kept t (h.1.1.returnless t rfl) ts h.2 hapart.2 fun _ =>
        hapart.1 rfl
    | false =>
      have ih := outlineAll_mergeAfter kept [] nofun ts h.2 hapart.2 fun hne => absurd rfl hne
      rw [mergeAfter_of_isText_eq_false (t := .node v us) hv, outlineAll_append,
        outlineAll_textNodes kept hpending, outlineAll,
        outline_merge kept (.node v us) h.1 hv, ih, textOutline_nil, List.nil_append, outlineAll]

end

/-! ## Blank texts -/

theorem outline_of_isBlankNode {t : Tree Node} (h : t.Each WritableAt)
    (hblank : isBlankNode t.value = true) : outline false t = [] := by
  obtain ⟨v, ts⟩ := t
  cases v with
  | text t => exact textOutline_of_segments (segments_eq_nil_iff.2 hblank)
  | data t => exact absurd h.1.node id
  | _ => cases hblank

theorem outlineAll_filter {ts : List (Tree Node)} (h : EachOfAll WritableAt ts) :
    outlineAll false (ts.filter fun t => !isBlankNode t.value) = outlineAll false ts := by
  induction ts with
  | nil => rfl
  | cons t ts ih =>
    rw [outlineAll, ← ih h.2, List.filter_cons]
    cases hblank : isBlankNode t.value with
    | true => simp [outline_of_isBlankNode h.1 hblank]
    | false => simp [outlineAll]

theorem outlineAll_of_all_isBlankNode {ts : List (Tree Node)} (h : EachOfAll WritableAt ts)
    (hblank : (ts.map value).all isBlankNode = true) : outlineAll false ts = [] := by
  have hfilter : ts.filter (fun t => !isBlankNode t.value) = [] := by
    simpa [List.filter_eq_nil_iff] using hblank
  rw [← outlineAll_filter h, hfilter, outlineAll]

theorem outlineAll_of_onlyLine? {ts : List (Tree Node)} {line : Text}
    (h : EachOfAll WritableAt ts) (honly : onlyLine? options (ts.map value) = some line) :
    outlineAll false ts = textOutline false line := by
  obtain ⟨t, us, hfilter, hsegments⟩ := onlyLine?_eq_some honly
  have hline := segments_of_isSegment (isSegment_of_mem (hsegments ▸ List.mem_cons_self))
  rw [← outlineAll_filter h, hfilter, outlineAll, outlineAll, outline, List.append_nil]
  exact textOutline_congr (hsegments.trans hline.symm)

/-! ## Layout -/

theorem blank_of_indent (hindent : PlainIndent options) (depth : Nat) :
    ∀ c ∈ Text.times depth options.indent, Text.isAsciiBlank c = true := by
  refine Text.forall_mem_times depth ?_
  intro c hc
  rcases hindent c hc with rfl | rfl <;> decide

theorem segments_append_lineGap (hindent : PlainIndent options)
    (hfeed : options.newline = ['\n']) (depth : Nat) (t : Text) :
    segments (t ++ lineGap options depth) = segments t := by
  have hnil : segments (Text.times depth options.indent) = [] :=
    segments_eq_nil_iff.2 (List.all_eq_true.2 (blank_of_indent hindent depth))
  rw [lineGap, hfeed, List.singleton_append, segments_append_lineFeed, hnil, List.append_nil]

theorem segments_append_spreadText (hindent : PlainIndent options)
    (hfeed : options.newline = ['\n']) (depth : Nat) (s t : Text) :
    segments (s ++ spreadText options depth t) = segments s ++ segments t := by
  rw [spreadText, lineGap, hfeed]
  exact segments_flatMap (blank_of_indent hindent depth) (fun _ => isSegment_of_mem) s

theorem not_mem_lineGap (hindent : PlainIndent options) (hfeed : options.newline = ['\n'])
    (depth : Nat) : '\r' ∉ lineGap options depth := by
  rw [lineGap, hfeed]
  exact List.not_mem_append (by decide) (not_mem_times hindent depth)

theorem not_mem_spreadText (hindent : PlainIndent options) (hfeed : options.newline = ['\n'])
    (depth : Nat) (h : '\r' ∉ t) : '\r' ∉ spreadText options depth t := by
  intro hmem
  obtain ⟨line, hline, hmem⟩ := List.mem_flatMap.1 hmem
  rcases List.mem_append.1 hmem with hmem | hmem
  · exact not_mem_lineGap hindent hfeed depth hmem
  · exact h (mem_of_mem_segments hline hmem)

mutual

theorem outline_merge_lay (hindent : PlainIndent options) (hfeed : options.newline = ['\n'])
    (depth : Nat) :
    (t : Tree Node) → t.Each AsRead → t.value.isText = false →
      outline false (merge (lay options depth t)) = outline false t
  | .node v ts, h, ht => by
    have hwritable := EachOfAll.mono (fun _ _ h => h.toWritableAt) ts h.2
    cases v with
    | text t => cases ht
    | element e =>
      rw [lay]
      split
      next hpre =>
        cases ts with
        | nil =>
          rw [List.isEmpty_nil, if_pos rfl, merge, outline, outline, hpre]
          rfl
        | cons t ts =>
          rw [List.isEmpty_cons, if_neg Bool.false_ne_true]
          exact outline_merge false _ h ht
      next hpre =>
        have hkept : (false || isPreformatted .xml e) = false := by simpa using hpre
        rw [outline, hkept]
        split
        next hblank =>
          rw [outlineAll_of_all_isBlankNode hwritable hblank, merge, outline, hkept]
          rfl
        next =>
          split
          next line honly =>
            have hreturn : '\r' ∉ line := by
              intro hmem
              obtain ⟨t, us, hu, hmem⟩ := mem_of_mem_onlyLine honly hmem
              exact (eachOfAll_iff.1 h.2 _ hu).1.returnless t rfl hmem
            rw [merge, outline, hkept, outlineAll_of_onlyLine? hwritable honly, mergeAfter]
            exact congrArg (fun us => [Tree.node (Node.element e) us])
              (outlineAll_textNodes false hreturn)
          next =>
            have ih := outlineAll_mergeAfter_spreadAll hindent hfeed (depth + 1) depth []
              nofun ts h.2 h.1.apart fun hne => absurd rfl hne
            rw [merge, outline, hkept, ih, textOutline_nil, List.nil_append]
    | comment t => exact outline_merge false _ h ht
    | instruction target content => exact outline_merge false _ h ht
    | document => exact absurd h.1.node id
    | doctype t => exact absurd h.1.node id
    | data t => exact absurd h.1.node id
    | css t => exact absurd h.1.node id

/-- The layout between trees does not count. The pending characters may end with layout already. -/
theorem outlineAll_mergeAfter_spreadAll (hindent : PlainIndent options)
    (hfeed : options.newline = ['\n']) (depth outer : Nat) (pending : Text)
    (hpending : '\r' ∉ pending) :
    (ts : List (Tree Node)) → EachOfAll AsRead ts → Apart Node.isText ts →
      NoTextBehind (essence false pending) ts →
        outlineAll false (mergeAfter pending
            (spreadAll options depth ts ++ [.node (.text (lineGap options outer)) []])) =
          textOutline false pending ++ outlineAll false ts
  | [], _, _, _ => by
    have hgap := List.not_mem_append hpending (not_mem_lineGap hindent hfeed outer)
    rw [spreadAll, List.nil_append, outlineAll, List.append_nil,
      ← textOutline_congr (segments_append_lineGap hindent hfeed outer pending)]
    exact outlineAll_textNodes false hgap
  | .node v us :: ts, h, hapart, hbehind => by
    cases hv : v.isText with
    | true =>
      obtain ⟨t, rfl⟩ := exists_of_isText hv
      have hnil : segments pending = [] := by
        rw [← essence_eq_nil_iff]
        by_cases hnil : essence false pending = []
        · exact hnil
        · exact absurd (hbehind hnil _ rfl) Bool.noConfusion
      have hsegments : segments (pending ++ spreadText options depth t) = segments t := by
        rw [segments_append_spreadText hindent hfeed, hnil, List.nil_append]
      have ih := outlineAll_mergeAfter_spreadAll hindent hfeed depth outer
        (pending ++ spreadText options depth t)
        (List.not_mem_append hpending
          (not_mem_spreadText hindent hfeed depth (h.1.1.returnless t rfl)))
        ts h.2 hapart.2 fun _ => hapart.1 rfl
      rw [textOutline_congr hsegments] at ih
      rw [textOutline_of_segments hnil, List.nil_append]
      exact ih
    | false =>
      have hgap := List.not_mem_append hpending (not_mem_lineGap hindent hfeed depth)
      have hlay : (lay options depth (.node v us)).value.isText = false := by
        rw [value_lay]
        exact hv
      have ih := outlineAll_mergeAfter_spreadAll hindent hfeed depth outer [] nofun ts h.2
        hapart.2 fun hne => absurd rfl hne
      rw [spreadAll_of_isText_eq_false (t := .node v us) hv, List.cons_append, List.cons_append,
        mergeAfter]
      dsimp only [value_node]
      rw [mergeAfter_of_isText_eq_false hlay, outlineAll_append, outlineAll_textNodes false hgap,
        textOutline_congr (segments_append_lineGap hindent hfeed depth pending), outlineAll, ih,
        outline_merge_lay hindent hfeed depth (.node v us) h.1 hv, textOutline_nil,
        List.nil_append, outlineAll]

end

end Markup

end PrettyPayload
