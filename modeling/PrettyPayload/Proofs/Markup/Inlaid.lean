import PrettyPayload.Proofs.Markup.Formed

/-!
# Preformatted content read again

In preformatted content a tree is written as it is, but for its styles. `inlaid` is the tree that is
read from that: it holds the stylesheets as they were written. It nests where the tree does, and its
styles are laid out in the same way again.
-/

namespace PrettyPayload

namespace Markup

open Html
open PrettyPayload.Tree

variable {indent : Text}

/-! ## Definitions -/

mutual

/-- A tree in preformatted content, with a number of ancestors, as it is read again. -/
def inlaid (indent : Text) (ancestors : Nat) : Tree Node → Tree Node
  | .node v ts =>
    .node v.laidOut
      (if v.isStyle then sheetContent indent ancestors ['\n'] (ts.map value)
      else inlaidAll indent (ancestors + 1) ts)

def inlaidAll (indent : Text) (ancestors : Nat) : List (Tree Node) → List (Tree Node)
  | [] => []
  | t :: ts => inlaid indent ancestors t :: inlaidAll indent ancestors ts

end

/-! ## Nodes -/

theorem map_value_restyledAll (indent : Text) (ancestors : Nat) (ts : List (Tree Node)) :
    (restyledAll indent ancestors ts).map value = (ts.map value).map Node.laidOut := by
  induction ts with
  | nil => rfl
  | cons t ts ih =>
    obtain ⟨v, us⟩ := t
    rw [restyledAll, List.map_cons, ih]
    rfl

theorem map_value_inlaidAll (indent : Text) (ancestors : Nat) (ts : List (Tree Node)) :
    (inlaidAll indent ancestors ts).map value = (ts.map value).map Node.laidOut := by
  induction ts with
  | nil => rfl
  | cons t ts ih =>
    obtain ⟨v, us⟩ := t
    rw [inlaidAll, List.map_cons, ih]
    rfl

theorem isText_inlaid (indent : Text) (ancestors : Nat) (t : Tree Node) :
    (inlaid indent ancestors t).value.isText = t.value.isText := by
  obtain ⟨v, ts⟩ := t
  cases v <;> rfl

theorem any_isText_inlaidAll (indent : Text) (ancestors : Nat) (ts : List (Tree Node)) :
    ((inlaidAll indent ancestors ts).head?).any (fun u => u.value.isText) =
      (ts.head?).any fun u => u.value.isText := by
  cases ts with
  | nil => rfl
  | cons t ts => exact isText_inlaid indent ancestors t

theorem leadingLineFeed_laidOut (e : Element) (vs : List Node) :
    leadingLineFeed .html e.laidOut (vs.map Node.laidOut) = leadingLineFeed .html e vs := by
  rw [leadingLineFeed, leadingLineFeed, Element.name_laidOut]
  cases vs <;> simp

theorem name_tagOf_laidOut (e : Element) : (tagOf e.laidOut).name = (tagOf e).name := by
  rw [tagOf, Element.name_laidOut]
  rfl

theorem Durable.laidOut_laidOut {v : Node} {ts : List (Tree Node)} (h : Durable indent v ts) :
    v.laidOut.laidOut = v.laidOut := by
  cases v with
  | element e => exact congrArg Node.element (h.attributes e rfl).again.2
  | _ => rfl

theorem leadFeed_of_isStyle {e : Element} (h : e.isStyle = true) (ts : List (Tree Node)) :
    leadFeed e ts = [] := by
  refine leadFeed_eq_nil ?_ ts
  have hlist : ∀ n ∈ lineFeedElements, Text.equalsIgnoringCase "style".toList n = false := by decide
  rw [Bool.eq_false_iff, Ne, List.contains_iff_mem]
  intro hmem
  cases h.symm.trans (hlist _ hmem)

theorem writtenAll_sheetContent (ancestors : Nat) (back : Text) (children : List Node) :
    writtenAll (sheetContent indent ancestors back children) =
      if sheetLiteral indent ancestors children = [] then []
      else sheetLiteral indent ancestors children ++ back := by
  rw [sheetContent]
  split
  · rfl
  · exact List.append_nil _

theorem styleRead_sheetContent (indent : Text) (ancestors : Nat) (back : Text)
    (children : List Node) :
    EachOfAll StyleRead (sheetContent indent ancestors back children) := by
  rw [sheetContent]
  split
  · trivial
  · exact ⟨⟨styleRead_of_element?_eq_none rfl [], trivial⟩, trivial⟩

/-- The content of a style element, as it is written, is read as one text or none. -/
theorem holdsRaw_sheetContent (hindent : ∀ c ∈ indent, c = ' ' ∨ c = '\t') {children : List Node}
    {sheet : Css.Stylesheet} (hsheet : DurableSheet indent (textOf children) sheet)
    (hplain : IsPlainText (textOf children)) (ancestors : Nat) {back : Text}
    (hback : ∀ c ∈ back, Text.isAsciiBlank c = true) (hreturn : '\r' ∉ back) :
    holdsRaw (.rawtext "style") (sheetContent indent ancestors back children) = true := by
  rw [sheetContent]
  split
  next => rfl
  next hne =>
    exact decide_eq_true ⟨List.append_ne_nil_of_left_ne_nil hne _,
      hsheet.isRawText_literal hindent rfl hplain hback hreturn _⟩

/-! ## Styles of preformatted content -/

mutual

/-- Read again, preformatted content has the same styles. -/
theorem restyled_inlaid (hindent : ∀ c ∈ indent, c = ' ' ∨ c = '\t') (ancestors : Nat) :
    (t : Tree Node) → t.Each Formed → t.Each (Durable indent) →
      restyled indent ancestors (inlaid indent ancestors t) = restyled indent ancestors t
  | .node v ts, hformed, h => by
    rw [inlaid, restyled, restyled, h.1.laidOut_laidOut, Node.isStyle_laidOut]
    split
    next hstyle =>
      obtain ⟨sheet, hsheet⟩ := h.1.sheet hstyle
      rw [hsheet.sheetText_again hindent rfl (hformed.1.plain hstyle).1
        (List.forall_mem_singleton.2 (by decide))]
    next => rw [restyledAll_inlaidAll hindent (ancestors + 1) ts hformed.2 h.2]

theorem restyledAll_inlaidAll (hindent : ∀ c ∈ indent, c = ' ' ∨ c = '\t') (ancestors : Nat) :
    (ts : List (Tree Node)) → EachOfAll Formed ts → EachOfAll (Durable indent) ts →
      restyledAll indent ancestors (inlaidAll indent ancestors ts) = restyledAll indent ancestors ts
  | [], _, _ => rfl
  | t :: ts, hformed, h => by
    rw [inlaidAll, restyledAll, restyled_inlaid hindent ancestors t hformed.1 h.1,
      restyledAll_inlaidAll hindent ancestors ts hformed.2 h.2, restyledAll]

end

mutual

/-- The styles of preformatted content are read again. -/
theorem styleRead_inlaid (hindent : ∀ c ∈ indent, c = ' ' ∨ c = '\t') (ancestors : Nat) :
    (t : Tree Node) → t.Each Formed → t.Each (Durable indent) →
      (inlaid indent ancestors t).Each StyleRead
  | .node v ts, hformed, h => by
    rw [inlaid]
    refine ⟨⟨fun hstyle => ?_, ?_⟩, ?_⟩
    · rw [Node.isStyle_laidOut] at hstyle
      obtain ⟨sheet, hsheet⟩ := h.1.sheet hstyle
      rw [if_pos hstyle]
      exact ⟨sheet, (hsheet.again hindent rfl (hformed.1.plain hstyle).1
        (List.forall_mem_singleton.2 (by decide))).read⟩
    · intro e' value he' hvalue
      cases v with
      | element e =>
        obtain rfl := Node.element.inj he'
        exact (h.1.attributes e rfl).again.1.exists_declarations hvalue
      | _ => cases he'
    · split
      next => exact styleRead_sheetContent indent ancestors _ _
      next => exact styleReadAll_inlaidAll hindent (ancestors + 1) ts hformed.2 h.2

theorem styleReadAll_inlaidAll (hindent : ∀ c ∈ indent, c = ' ' ∨ c = '\t') (ancestors : Nat) :
    (ts : List (Tree Node)) → EachOfAll Formed ts → EachOfAll (Durable indent) ts →
      EachOfAll StyleRead (inlaidAll indent ancestors ts)
  | [], _, _ => trivial
  | t :: ts, hformed, h =>
    ⟨styleRead_inlaid hindent ancestors t hformed.1 h.1,
      styleReadAll_inlaidAll hindent ancestors ts hformed.2 h.2⟩

end

/-! ## What is written -/

mutual

/-- Preformatted content is written as what is read again from it. -/
theorem verbatim_restyled (hindent : ∀ c ∈ indent, c = ' ' ∨ c = '\t') (ancestors : Nat) :
    (t : Tree Node) → t.Each Formed → t.Each (Durable indent) → t.Each Feedless →
      verbatim .html (restyled indent ancestors t) = written (inlaid indent ancestors t)
  | .node v ts, hformed, h, hfeed => by
    cases v with
    | element e =>
      have ih := verbatimAll_restyledAll hindent (ancestors + 1) ts hformed.2 h.2 hfeed.2
      rw [restyled, inlaid, Node.laidOut, verbatim, written, isStyle_element,
        if_neg (fun hxml => by cases hxml.1)]
      congr 2
      split
      next hstyle =>
        obtain ⟨sheet, hsheet⟩ := h.1.sheet hstyle
        have htext : sheetText indent ancestors (ts.map value) = _ :=
          hsheet.sheetText_eq_literal hindent rfl (hformed.1.plain hstyle).1
        rw [leadFeed_of_isStyle (e.isStyle_laidOut.trans hstyle), List.nil_append,
          writtenAll_sheetContent, ← htext]
        simp [verbatimAll, verbatim]
      next =>
        rw [leadFeed, map_value_inlaidAll, leadingLineFeed_laidOut, ← leadFeed, hfeed.1 e rfl,
          List.nil_append, ih]
    | text t | comment t | data t =>
      obtain rfl := hformed.1.leaf rfl
      exact List.append_nil _
    | _ => exact absurd hformed.1.content id

theorem verbatimAll_restyledAll (hindent : ∀ c ∈ indent, c = ' ' ∨ c = '\t') (ancestors : Nat) :
    (ts : List (Tree Node)) → EachOfAll Formed ts → EachOfAll (Durable indent) ts →
      EachOfAll Feedless ts →
        verbatimAll .html (restyledAll indent ancestors ts) =
          writtenAll (inlaidAll indent ancestors ts)
  | [], _, _, _ => rfl
  | t :: ts, hformed, h, hfeed => by
    rw [restyledAll, verbatimAll, verbatim_restyled hindent ancestors t hformed.1 h.1 hfeed.1,
      verbatimAll_restyledAll hindent ancestors ts hformed.2 h.2 hfeed.2, inlaidAll, writtenAll]

end

/-! ## Nesting -/

theorem inlaidAll_of_holdsRaw {raw : Content} {ts : List (Tree Node)} (h : holdsRaw raw ts = true)
    (ancestors : Nat) : inlaidAll indent ancestors ts = ts := by
  rcases holdsRaw_cases h with rfl | ⟨t, -, -, ⟨-, rfl⟩ | ⟨-, rfl⟩⟩ <;> rfl

/-- The content of an element without markup, as it is read again. -/
theorem holdsRaw_inlaid (hindent : ∀ c ∈ indent, c = ' ' ∨ c = '\t') {e : Element} {raw : Content}
    {ts : List (Tree Node)} (he : IsTagName e.name = true)
    (hraw : rawContent? (tagOf e).name = some raw) (hts : holdsRaw raw ts = true)
    (hformed : Formed (.element e) ts) (h : Durable indent (.element e) ts) (ancestors : Nat) :
    holdsRaw raw (if e.isStyle then sheetContent indent ancestors ['\n'] (ts.map value)
      else inlaidAll indent (ancestors + 1) ts) = true := by
  split
  next hstyle =>
    obtain ⟨sheet, hsheet⟩ := h.sheet hstyle
    obtain rfl := Option.some.inj (hraw.symm.trans (rawContent?_of_isStyle he hstyle))
    exact holdsRaw_sheetContent hindent hsheet (hformed.plain hstyle) ancestors
      (List.forall_mem_singleton.2 (by decide)) (by decide)
  next =>
    rw [inlaidAll_of_holdsRaw hts]
    exact hts

mutual

/-- Read again, preformatted content nests where it did. -/
theorem nests_inlaid (hindent : ∀ c ∈ indent, c = ' ' ∨ c = '\t') (ancestors : Nat) :
    (t : Tree Node) → {path : List String} → nests path t = true → t.Each Formed →
      t.Each (Durable indent) → nests path (inlaid indent ancestors t) = true
  | .node v ts, path, hnests, hformed, h => by
    cases v with
    | element e =>
      rw [nests, Bool.and_eq_true, Bool.and_eq_true, decide_eq_true_eq] at hnests
      obtain ⟨⟨he, hfits⟩, hts⟩ := hnests
      rw [inlaid, Node.laidOut, nests, name_tagOf_laidOut, hfits,
        decide_eq_true ((h.1.attributes e rfl).isTag_laidOut he), isStyle_element]
      cases hraw : rawContent? (tagOf e).name with
      | some raw =>
        rw [hraw] at hts
        exact holdsRaw_inlaid hindent he.name hraw hts hformed.1 h.1 ancestors
      | none =>
        rw [hraw] at hts
        rw [isStyle_of_rawContent?_eq_none he.name hraw]
        dsimp only at hts ⊢
        split at hts
        next hvoid =>
          obtain rfl := List.isEmpty_iff.1 hts
          rw [if_pos hvoid]
          rfl
        next hvoid =>
          rw [if_neg hvoid]
          exact nestsAll_inlaidAll hindent (ancestors + 1) ts hts hformed.2 h.2
    | text t | comment t =>
      obtain rfl := hformed.1.leaf rfl
      exact hnests
    | _ => cases hnests

theorem nestsAll_inlaidAll (hindent : ∀ c ∈ indent, c = ' ' ∨ c = '\t') (ancestors : Nat) :
    (ts : List (Tree Node)) → {path : List String} → nestsAll path ts = true →
      EachOfAll Formed ts → EachOfAll (Durable indent) ts →
        nestsAll path (inlaidAll indent ancestors ts) = true
  | [], _, _, _, _ => rfl
  | t :: ts, path, hnests, hformed, h => by
    rw [nestsAll, Bool.and_eq_true, Bool.and_eq_true] at hnests
    have hfirst := nests_inlaid hindent ancestors t hnests.1.1 hformed.1 h.1
    have hrest := nestsAll_inlaidAll hindent ancestors ts hnests.2 hformed.2 h.2
    have hapart := hnests.1.2
    rw [inlaidAll, nestsAll, hfirst, hrest, isText_inlaid, any_isText_inlaidAll, hapart]
    rfl

end

end Markup

end PrettyPayload
