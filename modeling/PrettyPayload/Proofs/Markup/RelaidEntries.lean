import PrettyPayload.Proofs.Markup.LaidText
import PrettyPayload.Proofs.Markup.Relaid
import PrettyPayload.Proofs.Markup.Returnless

/-!
# The entries of a page read again

A tree with its layout is laid out like the tree itself: its texts have the same segments, so that
each of its elements is written in the same way (`entries_restyled_relaid`), and its styles are read
again.
-/

namespace PrettyPayload

namespace Markup

open Html
open PrettyPayload.Tree

variable {options : Options} {pending t : Text} {ts : List (Tree Node)}

theorem PlainIndent.isAsciiBlank (h : PlainIndent options) :
    ∀ c ∈ options.indent, Text.isAsciiBlank c = true := by
  intro c hc
  rcases h c hc with rfl | rfl <;> decide

/-! ## What counts -/

theorem value_relaid (depth : Nat) (t : Tree Node) :
    (relaid options depth t).value = t.value.laidOut := by
  obtain ⟨v, ts⟩ := t
  cases v <;> rfl

theorem counted_append (vs ws : List Node) : counted (vs ++ ws) = counted vs ++ counted ws := by
  rw [counted, List.filter_append, List.map_append, counted, counted]

theorem counted_cons (v : Node) (vs : List Node) : counted (v :: vs) = counted [v] ++ counted vs :=
  counted_append [v] vs

theorem counted_laidOut (v : Node) : counted [v.laidOut] = counted [v] := counted_map_laidOut [v]

theorem counted_text (t : Text) :
    counted [.text t] = if segments t = [] then [] else [some (segments t)] := by
  rw [counted, List.filter_singleton]
  by_cases hnil : segments t = []
  · have hblank : isBlankNode (.text t) = true := segments_eq_nil_iff.1 hnil
    rw [if_pos hnil, hblank]
    rfl
  · have hblank : isBlankNode (.text t) = false :=
      Bool.eq_false_iff.2 fun h => hnil (segments_eq_nil_iff.2 h)
    rw [if_neg hnil, hblank]
    rfl

theorem counted_textTrees (t : Text) : counted ((textTrees t).map value) = counted [.text t] := by
  rw [textTrees]
  split
  next hnil =>
    rw [hnil]
    rfl
  next => rfl

theorem counted_text_congr {s t : Text} (h : segments s = segments t) :
    counted [.text s] = counted [.text t] := by
  rw [counted_text, counted_text, h]

theorem counted_text_of_segments (h : segments t = []) : counted [.text t] = [] := by
  rw [counted_text, if_pos h]

theorem counted_text_nil : counted [.text []] = [] := counted_text_of_segments rfl

theorem counted_of_isSegment (h : IsSegment t) : counted [.text t] = [some [t]] := by
  rw [counted_text, segments_of_isSegment h, if_neg (List.cons_ne_nil _ _)]

theorem exists_of_mem_counted {vs : List Node} {lines : List Text} (h : some lines ∈ counted vs) :
    ∃ s, .text s ∈ vs ∧ segments s = lines := by
  obtain ⟨v, hv, hsegments⟩ := List.mem_map.1 h
  cases v with
  | text s => exact ⟨s, (List.mem_filter.1 hv).1, Option.some.inj hsegments⟩
  | _ => cases hsegments

theorem isSegment_of_counted {vs : List Node} (h : counted vs = [some [t]]) : IsSegment t := by
  obtain ⟨s, -, hs⟩ := exists_of_mem_counted (h ▸ List.mem_cons_self)
  exact isSegment_of_mem (hs ▸ List.mem_cons_self)

theorem counted_relaidAfter (hindent : PlainIndent options) (hfeed : options.newline = ['\n'])
    (depth : Nat) {last : Text} (hlast : ∀ t, segments (t ++ last) = segments t)
    (hapart : Apart Node.isText ts)
    (hbehind : segments pending ≠ [] → ∀ t, ts.head? = some t → t.value.isText = false) :
    counted ((relaidAfter options depth last pending ts).map value) =
      counted (.text pending :: ts.map value) := by
  induction ts generalizing pending with
  | nil => rw [relaidAfter, counted_textTrees, counted_text_congr (hlast pending), List.map_nil]
  | cons t ts ih =>
    cases ht : t.value.isText with
    | true =>
      obtain ⟨s, hs⟩ := exists_of_isText ht
      have hnil : segments pending = [] := by
        by_contra hne
        cases ht.symm.trans (hbehind hne t rfl)
      have hsegments : segments (pending ++ spreadText options depth s) = segments s := by
        rw [segments_append_spreadText hindent hfeed, hnil, List.nil_append]
      rw [relaidAfter, hs]
      dsimp only
      rw [ih hapart.2 fun _ => hapart.1 ht, List.map_cons, hs, counted_cons (.text pending),
        counted_text_of_segments hnil, List.nil_append, counted_cons, counted_text_congr hsegments,
        ← counted_cons]
    | false =>
      have hrest := @ih [] hapart.2 fun hne => absurd rfl hne
      have hpending := counted_text_congr (segments_append_lineGap hindent hfeed depth pending)
      rw [relaidAfter_of_isText_eq_false ht, List.map_append, counted_append, counted_textTrees,
        hpending, List.map_cons, value_relaid, counted_cons t.value.laidOut, counted_laidOut, hrest,
        counted_cons (.text []), counted_text_nil, List.nil_append, List.map_cons,
        counted_cons (.text pending) (t.value :: _), counted_cons t.value (ts.map value)]

/-! ## Entries -/

theorem restyledAll_append (indent : Text) (ancestors : Nat) (ts us : List (Tree Node)) :
    restyledAll indent ancestors (ts ++ us) =
      restyledAll indent ancestors ts ++ restyledAll indent ancestors us := by
  simp only [restyledAll_eq_map, List.map_append]

theorem entriesOfAll_textTrees (options : Options) (depth : Nat) (t : Text) :
    entriesOfAll .html options (depth + 1)
        (restyledAll options.indent (depth + 1) (textTrees t)) =
      (segments t).map fun line => Text.times depth options.indent ++ escapeText .html line := by
  rw [textTrees]
  split
  next hnil =>
    rw [hnil]
    rfl
  next => exact List.append_nil _

theorem layoutOf_relaidContent (hindent : PlainIndent options) (hfeed : options.newline = ['\n'])
    (inlineSingleText : Bool) (depth : Nat) (e : Element) (hapart : Apart Node.isText ts) :
    layoutOf .html inlineSingleText e ((relaidContent options depth
        (layoutOf .html inlineSingleText e (ts.map value)) ts).map value) =
      layoutOf .html inlineSingleText e (ts.map value) := by
  have hlaid := laid_layoutOf inlineSingleText e (ts.map value)
  generalize hlayout : layoutOf .html inlineSingleText e (ts.map value) = layout at hlaid
  cases hlaid with
  | void hvoid => rw [layoutOf_html, if_pos hvoid]
  | verbatim hvoid hpre => simp [layoutOf_html, hvoid, hpre]
  | stylesheet hvoid hpre hstyle => simp [layoutOf_html, hvoid, hpre, hstyle]
  | empty hvoid hpre hstyle hcounted =>
    refine (layoutOf_congr ?_ inlineSingleText e).trans hlayout
    rw [hcounted]
    rfl
  | singleLine hvoid hpre hstyle hcounted =>
    refine (layoutOf_congr ?_ inlineSingleText e).trans hlayout
    rw [hcounted]
    exact counted_of_isSegment (isSegment_of_counted hcounted)
  | block hvoid hpre hstyle hcounted =>
    refine (layoutOf_congr ?_ inlineSingleText e).trans hlayout
    rw [relaidContent, counted_relaidAfter hindent hfeed (depth + 1)
      (segments_append_lineGap hindent hfeed depth) hapart fun hne => absurd rfl hne, counted_cons,
      counted_text_nil, List.nil_append]

mutual

theorem entries_restyled_relaid (hindent : PlainIndent options) (depth : Nat) :
    (t : Tree Node) → t.Each Formed → t.Each (Durable options.indent) →
      entries .html options (depth + 1)
          (restyled options.indent (depth + 1) (relaid options.withLineFeeds depth t)) =
        entries .html options (depth + 1) (restyled options.indent (depth + 1) t)
  | .node v ts, hformed, h => by
    have hfeed : options.withLineFeeds.newline = ['\n'] := rfl
    have hindent' : PlainIndent options.withLineFeeds := hindent
    cases v with
    | element e =>
      have hlaid := laid_layoutOf options.inlineSingleText e (ts.map value)
      have hlayout := layoutOf_relaidContent hindent' hfeed options.inlineSingleText depth e
        hformed.1.apart
      have hsame (us : List (Tree Node)) : restyledContent options.indent (depth + 1) e.laidOut us =
          restyledContent options.indent (depth + 1) e us := by
        rw [restyledContent, Element.isStyle_laidOut, restyledContent]
      have hinline : options.withLineFeeds.inlineSingleText = options.inlineSingleText := rfl
      rw [relaid_element, restyled_element, restyled_element, (h.1.attributes e rfl).again.2, hsame,
        entries_html, entries_html, layoutOf_restyledContent, layoutOf_restyledContent, hinline,
        hlayout]
      generalize layoutOf .html options.inlineSingleText e (ts.map value) = layout at hlaid
      cases hlaid with
      | void hvoid => rfl
      | verbatim hvoid hpre =>
        have hcontent := restyledAll_inlaidAll hindent (depth + 2) ts hformed.2 h.2
        simp only [restyledContent_of_isStyle_eq_false (isStyle_of_isPreformatted hpre)]
        exact congrArg (fun us => [Text.times depth options.indent ++
          (startTag .html e.laidOut false ++ leadFeed e.laidOut us ++ verbatimAll .html us ++
            endTag e.laidOut)]) hcontent
      | stylesheet hvoid hpre hstyle =>
        obtain ⟨sheet, hsheet⟩ := h.1.sheet hstyle
        have htext : sheetText options.indent (depth + 1) ((sheetContent options.indent (depth + 1)
            (lineGap options.withLineFeeds depth) (ts.map value)).map value) =
              sheetText options.indent (depth + 1) (ts.map value) :=
          hsheet.sheetText_again hindent rfl (hformed.1.plain hstyle).1
            (blank_of_lineGap hindent'.isAsciiBlank depth) _
        simp only [restyledContent_of_isStyle hstyle, relaidContent]
        rw [← htext]
        rfl
      | empty hvoid hpre hstyle hcounted => rfl
      | singleLine hvoid hpre hstyle hcounted => rfl
      | block hvoid hpre hstyle hcounted =>
        have ih := entriesOfAll_restyledAll_relaidAfter hindent (depth + 1)
          (segments_append_lineGap hindent' hfeed depth) [] ts hformed.2 h.2
        simp only [restyledContent_of_isStyle_eq_false hstyle, relaidContent]
        rw [ih]
        rfl
    | text t | comment t | data t => rfl
    | _ => exact absurd hformed.1.content id

theorem entriesOfAll_restyledAll_relaidAfter (hindent : PlainIndent options) (depth : Nat)
    {last : Text} (hlast : ∀ t, segments (t ++ last) = segments t) (pending : Text) :
    (ts : List (Tree Node)) → EachOfAll Formed ts → EachOfAll (Durable options.indent) ts →
      entriesOfAll .html options (depth + 1) (restyledAll options.indent (depth + 1)
          (relaidAfter options.withLineFeeds depth last pending ts)) =
        ((segments pending).map fun line =>
            Text.times depth options.indent ++ escapeText .html line) ++
          entriesOfAll .html options (depth + 1) (restyledAll options.indent (depth + 1) ts)
  | [], _, _ => by
    rw [relaidAfter, entriesOfAll_textTrees, hlast, restyledAll, entriesOfAll, List.append_nil]
  | .node v us :: ts, hformed, h => by
    have hfeed : options.withLineFeeds.newline = ['\n'] := rfl
    have hindent' : PlainIndent options.withLineFeeds := hindent
    cases hv : v.isText with
    | true =>
      obtain ⟨t, rfl⟩ := exists_of_isText hv
      have ih := entriesOfAll_restyledAll_relaidAfter hindent depth hlast
        (pending ++ spreadText options.withLineFeeds depth t) ts hformed.2 h.2
      rw [segments_append_spreadText hindent' hfeed, List.map_append, List.append_assoc] at ih
      obtain rfl := hformed.1.1.leaf rfl
      rw [relaidAfter]
      exact ih
    | false =>
      have ih := entriesOfAll_restyledAll_relaidAfter hindent depth hlast [] ts hformed.2 h.2
      rw [relaidAfter_of_isText_eq_false (t := .node v us) hv, restyledAll_append,
        entriesOfAll_append, entriesOfAll_textTrees, segments_append_lineGap hindent' hfeed,
        restyledAll, entriesOfAll, entries_restyled_relaid hindent depth (.node v us) hformed.1 h.1,
        ih, restyledAll, entriesOfAll]
      rfl

end

/-! ## Styles -/

theorem isStyle_of_isVoid {e : Element} (h : isVoid .html e = true) : e.isStyle = false := by
  have hlist : ∀ n ∈ voidElements, Text.equalsIgnoringCase "style".toList n = false := by decide
  exact hlist _ (List.contains_iff_mem.1 (Bool.and_eq_true_iff.1 h).2)

theorem styleRead_textTrees (t : Text) : EachOfAll StyleRead (textTrees t) := by
  rw [textTrees]
  split
  · trivial
  · exact ⟨⟨styleRead_of_element?_eq_none rfl [], trivial⟩, trivial⟩

mutual

theorem styleRead_relaid (hindent : PlainIndent options) (depth : Nat) :
    (t : Tree Node) → t.Each Formed → t.Each (Durable options.indent) →
      (relaid options depth t).Each StyleRead
  | .node v ts, hformed, h => by
    cases v with
    | element e =>
      have hlaid := laid_layoutOf options.inlineSingleText e (ts.map value)
      rw [relaid_element]
      generalize layoutOf .html options.inlineSingleText e (ts.map value) = layout at hlaid
      refine ⟨⟨fun hstyle => ?_, ?_⟩, ?_⟩
      · rw [isStyle_element, Element.isStyle_laidOut] at hstyle
        cases hlaid with
        | stylesheet hvoid hpre =>
          obtain ⟨sheet, hsheet⟩ := h.1.sheet hstyle
          exact ⟨sheet, (hsheet.again hindent rfl (hformed.1.plain hstyle).1
            (blank_of_lineGap hindent.isAsciiBlank depth)).read⟩
        | void hvoid => cases hstyle.symm.trans (isStyle_of_isVoid hvoid)
        | verbatim hvoid hpre => cases hstyle.symm.trans (isStyle_of_isPreformatted hpre)
        | empty hvoid hpre hstyle' | singleLine hvoid hpre hstyle' | block hvoid hpre hstyle' =>
          cases hstyle.symm.trans hstyle'
      · rintro _ value ⟨rfl⟩ hvalue
        exact (h.1.attributes e rfl).again.1.exists_declarations hvalue
      · cases hlaid with
        | void | empty => trivial
        | singleLine => exact ⟨⟨styleRead_of_element?_eq_none rfl [], trivial⟩, trivial⟩
        | verbatim => exact styleReadAll_inlaidAll hindent (depth + 2) ts hformed.2 h.2
        | stylesheet => exact styleRead_sheetContent _ _ _ _
        | block =>
          exact styleReadAll_relaidAfter hindent (depth + 1) (lineGap options depth) [] ts hformed.2
            h.2
    | text t | comment t | data t =>
      obtain rfl := hformed.1.leaf rfl
      exact ⟨styleRead_of_element?_eq_none rfl [], trivial⟩
    | _ => exact absurd hformed.1.content id

theorem styleReadAll_relaidAfter (hindent : PlainIndent options) (depth : Nat)
    (last pending : Text) :
    (ts : List (Tree Node)) → EachOfAll Formed ts → EachOfAll (Durable options.indent) ts →
      EachOfAll StyleRead (relaidAfter options depth last pending ts)
  | [], _, _ => styleRead_textTrees _
  | .node v us :: ts, hformed, h => by
    cases hv : v.isText with
    | true =>
      obtain ⟨t, rfl⟩ := exists_of_isText hv
      exact styleReadAll_relaidAfter hindent depth last (pending ++ spreadText options depth t) ts
        hformed.2 h.2
    | false =>
      rw [relaidAfter_of_isText_eq_false (t := .node v us) hv, eachOfAll_iff,
        List.forall_mem_append, List.forall_mem_cons]
      exact ⟨eachOfAll_iff.1 (styleRead_textTrees _),
        styleRead_relaid hindent depth (.node v us) hformed.1 h.1,
        eachOfAll_iff.1 (styleReadAll_relaidAfter hindent depth last [] ts hformed.2 h.2)⟩

end

end Markup

end PrettyPayload
