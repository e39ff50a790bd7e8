import PrettyPayload.Proofs.Markup.Inlaid
import PrettyPayload.Proofs.Markup.Outline

/-!
# The layout of a page read again

What the layout of a page puts between its tags is text like any other when the page is read again.
`relaid` puts it into the tree, and what is written of the tree with its layout is what is written
of a page with the styles of the tree (`flatMap_entries_restyled`).
-/

namespace PrettyPayload

namespace Markup

open Html
open PrettyPayload.Tree

/-! ## Layouts -/

def Node.segments? : Node → Option (List Text)
  | .text t => some (segments t)
  | _ => none

/-- What the layout of an element depends on of its children: of those that are not blank, whether
they are texts, and with which segments. -/
def counted (vs : List Node) : List (Option (List Text)) :=
  (vs.filter fun v => !isBlankNode v).map Node.segments?

/-- The only segment of the only child that counts, if there is just that. -/
def onlySegment? : List (Option (List Text)) → Option Text
  | [some [t]] => some t
  | _ => none

/-- The way to write an element of HTML, case by case. -/
inductive Laid (inlineSingleText : Bool) (e : Element) (vs : List Node) : Layout → Prop
  | void (hvoid : isVoid .html e = true) : Laid inlineSingleText e vs .void
  | verbatim (hvoid : isVoid .html e = false) (hpre : isPreformatted .html e = true) :
    Laid inlineSingleText e vs .verbatim
  | stylesheet (hvoid : isVoid .html e = false) (hpre : isPreformatted .html e = false)
    (hstyle : e.isStyle = true) : Laid inlineSingleText e vs .stylesheet
  | empty (hvoid : isVoid .html e = false) (hpre : isPreformatted .html e = false)
    (hstyle : e.isStyle = false) (hcounted : counted vs = []) : Laid inlineSingleText e vs .empty
  | singleLine {t : Text} (hvoid : isVoid .html e = false) (hpre : isPreformatted .html e = false)
    (hstyle : e.isStyle = false) (hcounted : counted vs = [some [t]]) :
    Laid inlineSingleText e vs (.singleLine t)
  | block (hvoid : isVoid .html e = false) (hpre : isPreformatted .html e = false)
    (hstyle : e.isStyle = false) (hcounted : counted vs ≠ []) : Laid inlineSingleText e vs .block

variable {options : Options} {inlineSingleText : Bool} {e : Element} {vs ws : List Node}

theorem counted_map_laidOut (vs : List Node) : counted (vs.map Node.laidOut) = counted vs := by
  have hsegments : ∀ v : Node, v.laidOut.segments? = v.segments? := fun v => by cases v <;> rfl
  rw [counted, List.filter_map, List.map_map, counted]
  simp only [Function.comp_def, isBlankNode_laidOut, hsegments]

theorem singleSegment?_eq (vs : List Node) :
    singleSegment? vs = onlySegment? (vs.map Node.segments?) := by
  unfold singleSegment?
  split
  next t =>
    rw [List.map_singleton, Node.segments?]
    unfold onlySegment?
    split
    next h => rw [h]
    next h =>
      split
      next h' => exact absurd (Option.some.inj (List.cons.inj h').1) (h _)
      next => rfl
  next h =>
    unfold onlySegment?
    split
    next t heq =>
      obtain ⟨v, hvs, hv⟩ := List.map_eq_singleton_iff.1 heq
      cases v with
      | text s => exact absurd hvs (h s)
      | _ => cases hv
    next => rfl

theorem layoutOf_html (inlineSingleText : Bool) (e : Element) (vs : List Node) :
    layoutOf .html inlineSingleText e vs =
      if isVoid .html e then .void
      else if isPreformatted .html e then .verbatim
      else if e.isStyle then .stylesheet
      else if counted vs = [] then .empty
      else
        match if inlineSingleText then onlySegment? (counted vs) else none with
        | some t => .singleLine t
        | none => .block := by
  rw [layoutOf, counted]
  simp only [true_and, List.map_eq_nil_iff]
  cases vs.filter fun v => !isBlankNode v with
  | nil => rfl
  | cons v us =>
    rw [if_neg (List.cons_ne_nil v us)]
    exact singleSegment?_eq (v :: us) ▸ rfl

theorem layoutOf_congr (h : counted vs = counted ws) (inlineSingleText : Bool) (e : Element) :
    layoutOf .html inlineSingleText e vs = layoutOf .html inlineSingleText e ws := by
  rw [layoutOf_html, layoutOf_html, h]

theorem layoutOf_laidOut (inlineSingleText : Bool) (e : Element) (vs : List Node) :
    layoutOf .html inlineSingleText e.laidOut vs = layoutOf .html inlineSingleText e vs := by
  simp only [layoutOf_html, isVoid_laidOut, isPreformatted_laidOut, Element.isStyle_laidOut]

theorem laid_layoutOf (inlineSingleText : Bool) (e : Element) (vs : List Node) :
    Laid inlineSingleText e vs (layoutOf .html inlineSingleText e vs) := by
  rw [layoutOf_html]
  split
  next hvoid => exact .void hvoid
  next hvoid =>
    rw [Bool.not_eq_true] at hvoid
    split
    next hpre => exact .verbatim hvoid hpre
    next hpre =>
      rw [Bool.not_eq_true] at hpre
      split
      next hstyle => exact .stylesheet hvoid hpre hstyle
      next hstyle =>
        rw [Bool.not_eq_true] at hstyle
        split
        next hcounted => exact .empty hvoid hpre hstyle hcounted
        next hcounted =>
          split
          next t hline =>
            refine .singleLine hvoid hpre hstyle ?_
            split at hline
            next =>
              unfold onlySegment? at hline
              split at hline
              next heq => exact heq.trans (by rw [Option.some.inj hline])
              next => cases hline
            next => cases hline
          next => exact .block hvoid hpre hstyle hcounted

/-! ## Entries -/

theorem entries_html (options : Options) (ancestors : Nat) (e : Element) (ts : List (Tree Node)) :
    entries .html options ancestors (.node (.element e) ts) =
      let indented (t : Text) : Text := Text.times (ancestors - 1) options.indent ++ t
      let start := startTag .html e false
      match layoutOf .html options.inlineSingleText e (ts.map value) with
      | .void => [indented start]
      | .verbatim => [indented (start ++ leadFeed e ts ++ verbatimAll .html ts ++ endTag e)]
      | .stylesheet =>
        if stylesheetOf (ts.map value) = [] then [indented (start ++ endTag e)]
        else
          [indented
              (start ++ Text.replaceChar '\n' options.newline (stylesheetOf (ts.map value))),
            indented (endTag e)]
      | .singleLine t => [indented (start ++ escapeText .html t ++ endTag e)]
      | .block =>
        indented start :: entriesOfAll .html options (ancestors + 1) ts ++ [indented (endTag e)]
      | _ => [indented (start ++ endTag e)] := by
  rw [entries, layoutOf_eq, leadFeed]
  dsimp only
  split
  next => rfl
  next =>
    split
    next => rfl
    next =>
      split
      next => rfl
      next =>
        split
        next => rfl
        next => cases onlyLine? options (ts.map value) <;> rfl

theorem entries_restyled_text (options : Options) (depth : Nat) (t : Text) :
    entries .html options (depth + 1) (restyled options.indent (depth + 1) (.node (.text t) [])) =
      (segments t).map fun line => Text.times depth options.indent ++ escapeText .html line := rfl

/-! ## Trees with their layout -/

section

variable (options : Options)

def textTrees (t : Text) : List (Tree Node) := if t = [] then [] else [.node (.text t) []]

mutual

/-- A tree other than a text, as it is read again from its entries at some depth. -/
def relaid (depth : Nat) : Tree Node → Tree Node
  | .node v ts =>
    match v with
    | .element e =>
      .node (.element e.laidOut)
        (match layoutOf .html options.inlineSingleText e (ts.map value) with
        | .verbatim => inlaidAll options.indent (depth + 2) ts
        | .stylesheet =>
          sheetContent options.indent (depth + 1) (lineGap options depth) (ts.map value)
        | .singleLine t => [.node (.text t) []]
        | .block => relaidAfter (depth + 1) (lineGap options depth) [] ts
        | _ => [])
    | _ => .node v ts

/-- Several trees on lines of their own, as they are read again: the texts between two others are
one text with what stands in front of the next line, and the last one ends with `last`. -/
def relaidAfter (depth : Nat) (last pending : Text) : List (Tree Node) → List (Tree Node)
  | [] => textTrees (pending ++ last)
  | t :: ts =>
    match t.value with
    | .text s => relaidAfter depth last (pending ++ spreadText options depth s) ts
    | _ =>
      textTrees (pending ++ lineGap options depth) ++
        relaid depth t :: relaidAfter depth last [] ts

end

/-- The content of an element that is written in some way, as it is read again. -/
def relaidContent (depth : Nat) (layout : Layout) (ts : List (Tree Node)) : List (Tree Node) :=
  match layout with
  | .verbatim => inlaidAll options.indent (depth + 2) ts
  | .stylesheet => sheetContent options.indent (depth + 1) (lineGap options depth) (ts.map value)
  | .singleLine t => [.node (.text t) []]
  | .block => relaidAfter options (depth + 1) (lineGap options depth) [] ts
  | _ => []

end

theorem relaid_element (options : Options) (depth : Nat) (e : Element) (ts : List (Tree Node)) :
    relaid options depth (.node (.element e) ts) =
      .node (.element e.laidOut) (relaidContent options depth
        (layoutOf .html options.inlineSingleText e (ts.map value)) ts) := rfl

theorem relaidAfter_of_isText_eq_false {t : Tree Node} {ts : List (Tree Node)} {depth : Nat}
    {last pending : Text} (h : t.value.isText = false) :
    relaidAfter options depth last pending (t :: ts) =
      textTrees (pending ++ lineGap options depth) ++
        relaid options depth t :: relaidAfter options depth last [] ts := by
  rw [relaidAfter]
  split
  next hv =>
    rw [hv] at h
    cases h
  next => rfl

theorem writtenAll_append (ts us : List (Tree Node)) :
    writtenAll (ts ++ us) = writtenAll ts ++ writtenAll us := by
  induction ts with
  | nil => rfl
  | cons t ts ih => rw [List.cons_append, writtenAll, ih, writtenAll, List.append_assoc]

theorem writtenAll_textTrees (t : Text) : writtenAll (textTrees t) = escapeText .html t := by
  rw [textTrees]
  split
  next hnil =>
    rw [hnil]
    rfl
  next => exact List.append_nil _

/-! ## What is written -/

theorem leadFeed_of_isPreformatted_eq_false (h : isPreformatted .html e = false)
    (ts : List (Tree Node)) : leadFeed e ts = [] := by
  have hsub : ∀ n ∈ lineFeedElements, preformattedElements.contains n = true := by decide
  refine leadFeed_eq_nil ?_ ts
  rw [Bool.eq_false_iff, Ne, List.contains_iff_mem]
  intro hmem
  cases h.symm.trans (hsub _ hmem)

theorem isStyle_of_isPreformatted (h : isPreformatted .html e = true) : e.isStyle = false := by
  have hlist : ∀ n ∈ preformattedElements, Text.equalsIgnoringCase "style".toList n = false := by
    decide
  exact hlist _ (List.contains_iff_mem.1 h)

def restyledContent (indent : Text) (ancestors : Nat) (e : Element) (ts : List (Tree Node)) :
    List (Tree Node) :=
  if e.isStyle then [.node (.css (sheetText indent ancestors (ts.map value))) []]
  else restyledAll indent (ancestors + 1) ts

theorem restyled_element (indent : Text) (ancestors : Nat) (e : Element) (ts : List (Tree Node)) :
    restyled indent ancestors (.node (.element e) ts) =
      .node (.element e.laidOut) (restyledContent indent ancestors e ts) := rfl

theorem restyledContent_of_isStyle (h : e.isStyle = true) (indent : Text) (ancestors : Nat)
    (ts : List (Tree Node)) : restyledContent indent ancestors e ts =
      [.node (.css (sheetText indent ancestors (ts.map value))) []] := if_pos h

theorem restyledContent_of_isStyle_eq_false (h : e.isStyle = false) (indent : Text)
    (ancestors : Nat) (ts : List (Tree Node)) :
    restyledContent indent ancestors e ts = restyledAll indent (ancestors + 1) ts :=
  if_neg (h ▸ Bool.false_ne_true)

theorem layoutOf_restyledContent (inlineSingleText : Bool) (indent : Text) (ancestors : Nat)
    (e : Element) (ts : List (Tree Node)) :
    layoutOf .html inlineSingleText e.laidOut ((restyledContent indent ancestors e ts).map value) =
      layoutOf .html inlineSingleText e (ts.map value) := by
  rw [layoutOf_laidOut, restyledContent]
  split
  next hstyle => simp only [layoutOf_html, hstyle, if_true]
  next =>
    refine layoutOf_congr ?_ _ _
    rw [map_value_restyledAll, counted_map_laidOut]

mutual

/-- The entries of a tree with its styles laid out, each behind a line feed, are what is written of
the tree with its layout. -/
theorem flatMap_entries_restyled (hindent : PlainIndent options) (hfeed : options.newline = ['\n'])
    (depth : Nat) :
    (t : Tree Node) → t.Each Formed → t.Each (Durable options.indent) → t.value.isText = false →
      t.value.isData = false →
      (entries .html options (depth + 1) (restyled options.indent (depth + 1) t)).flatMap
          (options.newline ++ ·) =
        lineGap options depth ++ written (relaid options depth t)
  | .node v ts, hformed, h, htext, hdata => by
    cases v with
    | element e =>
      have hlaid := laid_layoutOf options.inlineSingleText e (ts.map value)
      rw [restyled_element, entries_html, layoutOf_restyledContent, relaid_element, written]
      generalize layoutOf .html options.inlineSingleText e (ts.map value) = layout at hlaid
      cases hlaid with
      | void hvoid => simp [relaidContent, hvoid, lineGap, leadFeed, leadingLineFeed, writtenAll]
      | verbatim hvoid hpre =>
        have hcontent := verbatimAll_restyledAll hindent (depth + 2) ts hformed.2 h.2
          (h.1.feedless e rfl hpre)
        have hlead : leadFeed e.laidOut (restyledAll options.indent (depth + 2) ts) =
            leadFeed e.laidOut (inlaidAll options.indent (depth + 2) ts) := by
          rw [leadFeed, leadFeed, map_value_restyledAll, map_value_inlaidAll]
        rw [restyledContent_of_isStyle_eq_false (isStyle_of_isPreformatted hpre)]
        simp [relaidContent, hvoid, hlead, hcontent, lineGap]
      | stylesheet hvoid hpre hstyle =>
        have hliteral : stylesheetOf ([Tree.node (Node.css (sheetText options.indent (depth + 1)
            (ts.map value))) []].map value) =
              sheetLiteral options.indent (depth + 1) (ts.map value) := rfl
        have hlead := leadFeed_of_isStyle (e.isStyle_laidOut.trans hstyle)
        rw [restyledContent_of_isStyle hstyle]
        simp only [relaidContent, hliteral, hfeed, hlead, writtenAll_sheetContent,
          Text.replaceChar_self]
        split <;> simp [hvoid, lineGap, hfeed]
      | empty hvoid hpre hstyle hcounted =>
        simp [relaidContent, hvoid, lineGap, leadFeed, leadingLineFeed, writtenAll]
      | singleLine hvoid hpre hstyle hcounted =>
        have hlead := leadFeed_of_isPreformatted_eq_false ((isPreformatted_laidOut e).trans hpre)
        simp [relaidContent, hvoid, hlead, lineGap, writtenAll, written]
      | block hvoid hpre hstyle hcounted =>
        have ih := flatMap_entriesOfAll_restyledAll hindent hfeed (depth + 1)
          (lineGap options depth) [] ts hformed.2 h.2 (hformed.1.escaped e rfl hpre hstyle)
        have hlead := leadFeed_of_isPreformatted_eq_false ((isPreformatted_laidOut e).trans hpre)
        rw [escapeText_nil, List.nil_append, escapeText_lineGap hindent] at ih
        simp only [restyledContent_of_isStyle_eq_false hstyle, relaidContent, ih, hlead]
        simp [hvoid, lineGap]
    | comment t =>
      obtain rfl := hformed.1.leaf rfl
      simp [restyled, Node.laidOut, Node.isStyle, Node.element?, restyledAll, entries, lineGap,
        relaid, written]
    | text t => cases htext
    | data t => cases hdata
    | _ => exact absurd hformed.1.content id

/-- The entries of several trees, each behind a line feed, are what is written of the trees with the
layout between them. -/
theorem flatMap_entriesOfAll_restyledAll (hindent : PlainIndent options)
    (hfeed : options.newline = ['\n']) (depth : Nat) (last pending : Text) :
    (ts : List (Tree Node)) → EachOfAll Formed ts → EachOfAll (Durable options.indent) ts →
      (∀ t ∈ ts, t.value.isData = false) →
      writtenAll (relaidAfter options depth last pending ts) =
        escapeText .html pending ++
          (entriesOfAll .html options (depth + 1)
            (restyledAll options.indent (depth + 1) ts)).flatMap (options.newline ++ ·) ++
          escapeText .html last
  | [], _, _, _ => by
    rw [relaidAfter, writtenAll_textTrees, escapeText_append]
    simp [restyledAll, entriesOfAll]
  | .node v us :: ts, hformed, h, hdata => by
    rw [List.forall_mem_cons] at hdata
    cases hv : v.isText with
    | true =>
      obtain ⟨t, rfl⟩ := exists_of_isText hv
      have ih := flatMap_entriesOfAll_restyledAll hindent hfeed depth last
        (pending ++ spreadText options depth t) ts hformed.2 h.2 hdata.2
      obtain rfl := hformed.1.1.leaf rfl
      rw [relaidAfter]
      dsimp only [value_node]
      rw [ih, restyledAll, entriesOfAll, List.flatMap_append, entries_restyled_text,
        flatMap_segments hindent, escapeText_append]
      simp only [List.append_assoc]
    | false =>
      have ih := flatMap_entriesOfAll_restyledAll hindent hfeed depth last [] ts hformed.2 h.2
        hdata.2
      have hfirst := flatMap_entries_restyled hindent hfeed depth (.node v us) hformed.1 h.1 hv
        hdata.1
      rw [relaidAfter_of_isText_eq_false (t := .node v us) hv, writtenAll_append,
        writtenAll_textTrees, writtenAll, ih, restyledAll, entriesOfAll, List.flatMap_append,
        hfirst,
        escapeText_append, escapeText_lineGap hindent]
      simp only [escapeText_nil, List.nil_append, List.append_assoc]

end

end Markup

end PrettyPayload
