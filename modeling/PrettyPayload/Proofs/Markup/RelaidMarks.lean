import PrettyPayload.Proofs.Markup.LaidText
import PrettyPayload.Proofs.Markup.RelaidPage
import PrettyPayload.Proofs.Markup.StyleBlocks

/-!
# What counts of a page read again

A tree with its layout has the marks of the tree: its elements stay with their attributes, its
stylesheets are read as before, and the layout is made of blanks, which are in no word. Only a style
element that is left without any rule has no stylesheet any more.
-/

namespace PrettyPayload

namespace Markup

open Html
open PrettyPayload.Tree

variable {options : Options} {indent pending s t : Text} {ts : List (Tree Node)} {e : Element}

/-! ## Definitions -/

/-- The text of a style element, if it has one, has rules. -/
def Ruled (v : Node) (ts : List (Tree Node)) : Prop :=
  v.isStyle = true → ts ≠ [] →
    ∀ sheet, Css.parseStylesheet (textOf (ts.map value)) = .ok sheet → sheet.rules ≠ []

/-! ## Words -/

theorem wordsMark_congr (h : Text.words s = Text.words t) : wordsMark s = wordsMark t := by
  rw [wordsMark, h, wordsMark]

theorem words_append_lineGap (hindent : PlainIndent options) (depth : Nat) (t : Text) :
    Text.words (t ++ lineGap options depth) = Text.words t :=
  Text.wordsBy_append_of_all_right t fun c hc =>
    Css.isBlank_of_isAsciiBlank (blank_of_lineGap hindent.isAsciiBlank depth c hc)

theorem words_append_spreadText (hindent : PlainIndent options) (hfeed : options.newline = ['\n'])
    (depth : Nat) (s t : Text) :
    Text.words (s ++ spreadText options depth t) = Text.words s ++ Text.words t := by
  have hblank := Text.forall_mem_times depth fun c hc =>
    Css.isBlank_of_isAsciiBlank (hindent.isAsciiBlank c hc)
  have hlines (lines : List Text) : ∀ s : Text,
      Text.words (s ++ lines.flatMap (lineGap options depth ++ ·)) =
        Text.words s ++ lines.flatMap Text.words := by
    induction lines with
    | nil =>
      intro s
      rw [List.flatMap_nil, List.flatMap_nil, List.append_nil, List.append_nil]
    | cons line lines ih =>
      intro s
      rw [List.flatMap_cons, ← List.append_assoc, ih, lineGap, hfeed, List.append_assoc,
        List.singleton_append, Text.words, Text.wordsBy_append_cons (by decide),
        Text.wordsBy_append_of_all hblank, List.append_assoc]
      rfl
  rw [spreadText, hlines]
  exact congrArg (Text.words s ++ ·)
    (flatMap_wordsBy_segments (fun _ => Css.isBlank_of_isAsciiBlank) t)

theorem wordsMark_of_segments (h : segments t = []) : wordsMark t = [] := by
  have hwords := flatMap_wordsBy_segments (fun _ => Css.isBlank_of_isAsciiBlank) t
  rw [h] at hwords
  exact if_pos hwords.symm

theorem wordsMark_of_segment (h : segments s = [t]) : wordsMark s = wordsMark t := by
  refine wordsMark_congr ?_
  have hwords := flatMap_wordsBy_segments (fun _ => Css.isBlank_of_isAsciiBlank) s
  rw [h, List.flatMap_singleton] at hwords
  exact hwords.symm

/-! ## Marks -/

theorem marksOfAll_append (inStyle : Bool) (ts us : List (Tree Node)) :
    marksOfAll inStyle (ts ++ us) = marksOfAll inStyle ts ++ marksOfAll inStyle us := by
  induction ts with
  | nil => rfl
  | cons t ts ih => rw [List.cons_append, marksOfAll, ih, marksOfAll, List.append_assoc]

theorem marksOfAll_textTrees (t : Text) : marksOfAll false (textTrees t) = wordsMark t := by
  rw [textTrees]
  split
  next hnil =>
    rw [hnil]
    rfl
  next => exact List.append_nil _

theorem isStyle_eq (he : IsTagName e.name = true) :
    e.isStyle = decide (e.name = Document.styleName) := by
  have hname : (tagOf e).name = "style" ↔ e.name = Document.styleName := by
    rw [← toList_name e, Document.styleName, String.toList_inj]
  rw [Bool.eq_iff_iff, isStyle_iff he, hname, decide_eq_true_eq]

theorem marks_element (he : IsTagName e.name = true) (inStyle : Bool) (ts : List (Tree Node)) :
    marks inStyle (.node (.element e) ts) = e.mark :: marksOfAll e.isStyle ts := by
  rw [marks, isStyle_eq he]

/-- A style element that lasts and has rules, if it has a text, keeps its stylesheet. -/
theorem marksOfAll_sheetContent (hindent : ∀ c ∈ indent, c = ' ' ∨ c = '\t') {v : Node}
    (hstyle : v.isStyle = true) (hformed : Formed v ts) (h : Durable indent v ts)
    (hruled : Ruled v ts) (ancestors : Nat) {back : Text}
    (hback : ∀ c ∈ back, Text.isAsciiBlank c = true) :
    marksOfAll true (sheetContent indent ancestors back (ts.map value)) = marksOfAll true ts := by
  obtain ⟨sheet, hsheet⟩ := h.sheet hstyle
  have hreturn := (hformed.plain hstyle).1
  have hagain : Css.parseStylesheet (textOf ((sheetContent indent ancestors back
      (ts.map value)).map value)) = .ok sheet := (hsheet.again hindent rfl hreturn hback).read
  have hliteral := hsheet.sheetLiteral_eq hindent rfl hreturn ancestors
  rcases hformed.style hstyle with rfl | ⟨t, -, rfl⟩
  · have hempty : Css.parseStylesheet [] = .ok (.ofItems []) := by
      rw [Css.parseStylesheet, Css.stripComments, Css.stripCommentsAfter]
      exact congrArg (Except.map Css.Stylesheet.ofItems) (Css.readItems_nil true)
    obtain rfl := Except.ok.inj (hempty.symm.trans hsheet.read)
    rw [sheetContent, hliteral]
    rfl
  · have hrules := hruled hstyle (List.cons_ne_nil _ _) sheet hsheet.read
    have hne : sheetLiteral indent ancestors ([Tree.node (.data t) []].map value) ≠ [] := by
      rw [hliteral, if_neg fun hnil => hrules (Css.Stylesheet.pretty_eq_nil_iff.1 hnil)]
      exact List.cons_ne_nil _ _
    have hmark {u : Text} (hu : Css.parseStylesheet (textOf [.data u]) = .ok sheet) :
        marksOfAll true [.node (.data u) []] = [.sheet (sheet.pretty [' ', ' '])] := by
      rw [textOf, List.flatMap_singleton] at hu
      rw [marksOfAll, marks, if_pos rfl, sheetMark]
      dsimp only [Node.text?, Option.getD] at hu
      rw [hu]
      rfl
    rw [sheetContent, if_neg hne] at hagain ⊢
    rw [hmark hagain, hmark hsheet.read]

/-! ## Content that is not laid out -/

mutual

/-- Read again, preformatted content has the same marks. -/
theorem marks_inlaid (hindent : ∀ c ∈ indent, c = ' ' ∨ c = '\t') (inStyle : Bool)
    (ancestors : Nat) :
    (t : Tree Node) → t.Each Formed → t.Each (Durable indent) → t.Each Ruled →
      marks inStyle (inlaid indent ancestors t) = marks inStyle t
  | .node v ts, hformed, h, hruled => by
    cases v with
    | element e =>
      have he := hformed.1.name e rfl
      have he' : IsTagName e.laidOut.name = true := e.name_laidOut ▸ he
      rw [inlaid, Node.laidOut, marks_element he', marks_element he, e.isStyle_laidOut,
        (h.1.attributes e rfl).mark_laidOut, isStyle_element]
      cases hstyle : e.isStyle with
      | true =>
        have hback : ∀ c ∈ ['\n'], Text.isAsciiBlank c = true :=
          List.forall_mem_singleton.2 (by decide)
        have hsheet := marksOfAll_sheetContent (v := .element e) hindent hstyle hformed.1 h.1
          hruled.1 ancestors hback
        exact congrArg (e.mark :: ·) hsheet
      | false =>
        have ih := marksOfAll_inlaidAll hindent false (ancestors + 1) ts hformed.2 h.2 hruled.2
        exact congrArg (e.mark :: ·) ih
    | text t | comment t | data t =>
      obtain rfl := hformed.1.leaf rfl
      rfl
    | _ => exact absurd hformed.1.content id

theorem marksOfAll_inlaidAll (hindent : ∀ c ∈ indent, c = ' ' ∨ c = '\t') (inStyle : Bool)
    (ancestors : Nat) :
    (ts : List (Tree Node)) → EachOfAll Formed ts → EachOfAll (Durable indent) ts →
      EachOfAll Ruled ts →
        marksOfAll inStyle (inlaidAll indent ancestors ts) = marksOfAll inStyle ts
  | [], _, _, _ => rfl
  | t :: ts, hformed, h, hruled => by
    rw [inlaidAll, marksOfAll, marks_inlaid hindent inStyle ancestors t hformed.1 h.1 hruled.1,
      marksOfAll_inlaidAll hindent inStyle ancestors ts hformed.2 h.2 hruled.2, marksOfAll]

end

theorem marks_of_isBlankNode {v : Node} (h : isBlankNode v = true) (ts : List (Tree Node)) :
    marks false (.node v ts) = [] := by
  cases v with
  | text t => exact wordsMark_of_segments (segments_eq_nil_iff.2 h)
  | data t => exact wordsMark_of_segments (segments_eq_nil_iff.2 h)
  | _ => cases h

theorem counted_cons_of_isBlankNode {v : Node} (h : isBlankNode v = true) (vs : List Node) :
    counted (v :: vs) = counted vs := by
  rw [counted, List.filter_cons_of_neg (by simp [h]), counted]

theorem counted_cons_of_not_isBlankNode {v : Node} (h : isBlankNode v = false) (vs : List Node) :
    counted (v :: vs) = v.segments? :: counted vs := by
  rw [counted, List.filter_cons_of_pos (by simp [h]), List.map_cons, counted]

/-- Nothing counts of trees that nothing is written of. -/
theorem marksOfAll_of_counted_eq_nil (h : counted (ts.map value) = []) :
    marksOfAll false ts = [] := by
  induction ts with
  | nil => rfl
  | cons t ts ih =>
    obtain ⟨v, us⟩ := t
    cases hblank : isBlankNode v with
    | true =>
      rw [List.map_cons, value, counted_cons_of_isBlankNode hblank] at h
      rw [marksOfAll, marks_of_isBlankNode hblank, ih h]
      rfl
    | false =>
      rw [List.map_cons, value, counted_cons_of_not_isBlankNode hblank] at h
      cases h

/-- Of trees that one line is written of count the words of that line. -/
theorem marksOfAll_of_counted_eq_singleton (h : counted (ts.map value) = [some [t]]) :
    marksOfAll false ts = wordsMark t := by
  induction ts with
  | nil => cases h
  | cons u ts ih =>
    obtain ⟨v, us⟩ := u
    cases hblank : isBlankNode v with
    | true =>
      rw [List.map_cons, value, counted_cons_of_isBlankNode hblank] at h
      rw [marksOfAll, marks_of_isBlankNode hblank, ih h]
      rfl
    | false =>
      rw [List.map_cons, value, counted_cons_of_not_isBlankNode hblank] at h
      obtain ⟨hfirst, hrest⟩ := List.cons.inj h
      cases v with
      | text s =>
        rw [marksOfAll, marksOfAll_of_counted_eq_nil hrest, List.append_nil, marks,
          wordsMark_of_segment (Option.some.inj hfirst)]
      | _ => cases hfirst

/-! ## Trees with their layout -/

mutual

theorem marks_relaid (hindent : PlainIndent options) (hfeed : options.newline = ['\n'])
    (inStyle : Bool) (depth : Nat) :
    (t : Tree Node) → t.Each Formed → t.Each (Durable options.indent) → t.Each Ruled →
      marks inStyle (relaid options depth t) = marks inStyle t
  | .node v ts, hformed, h, hruled => by
    cases v with
    | element e =>
      have he := hformed.1.name e rfl
      have he' : IsTagName e.laidOut.name = true := e.name_laidOut ▸ he
      have hlaid := laid_layoutOf options.inlineSingleText e (ts.map value)
      rw [relaid_element, marks_element he', marks_element he, e.isStyle_laidOut,
        (h.1.attributes e rfl).mark_laidOut]
      generalize layoutOf .html options.inlineSingleText e (ts.map value) = layout at hlaid
      refine congrArg (e.mark :: ·) ?_
      cases hlaid with
      | void hvoid =>
        obtain rfl := hformed.1.void e rfl hvoid
        rfl
      | verbatim hvoid hpre =>
        rw [isStyle_of_isPreformatted hpre]
        exact marksOfAll_inlaidAll hindent false (depth + 2) ts hformed.2 h.2 hruled.2
      | stylesheet hvoid hpre hstyle =>
        rw [hstyle]
        exact marksOfAll_sheetContent (v := .element e) hindent hstyle hformed.1 h.1 hruled.1
          (depth + 1) (blank_of_lineGap hindent.isAsciiBlank depth)
      | empty hvoid hpre hstyle hcounted =>
        rw [hstyle, marksOfAll_of_counted_eq_nil hcounted]
        rfl
      | singleLine hvoid hpre hstyle hcounted =>
        rw [hstyle, marksOfAll_of_counted_eq_singleton hcounted]
        exact List.append_nil _
      | block hvoid hpre hstyle hcounted =>
        rw [hstyle]
        exact marksOfAll_relaidAfter hindent hfeed (depth + 1)
          (words_append_lineGap hindent depth) [] ts hformed.2 h.2 hruled.2 hformed.1.apart
            fun hne => absurd rfl hne
    | text t | comment t | data t =>
      obtain rfl := hformed.1.leaf rfl
      rfl
    | _ => exact absurd hformed.1.content id

theorem marksOfAll_relaidAfter (hindent : PlainIndent options) (hfeed : options.newline = ['\n'])
    (depth : Nat) {last : Text} (hlast : ∀ t, Text.words (t ++ last) = Text.words t)
    (pending : Text) :
    (ts : List (Tree Node)) → EachOfAll Formed ts → EachOfAll (Durable options.indent) ts →
      EachOfAll Ruled ts → Apart Node.isText ts →
      (Text.words pending ≠ [] → ∀ t, ts.head? = some t → t.value.isText = false) →
        marksOfAll false (relaidAfter options depth last pending ts) =
          wordsMark pending ++ marksOfAll false ts
  | [], _, _, _, _, _ => by
    rw [relaidAfter, marksOfAll_textTrees, wordsMark_congr (hlast pending), marksOfAll,
      List.append_nil]
  | .node v us :: ts, hformed, h, hruled, hapart, hbehind => by
    cases hv : v.isText with
    | true =>
      obtain ⟨t, rfl⟩ := exists_of_isText hv
      obtain rfl := hformed.1.1.leaf rfl
      have hnil : Text.words pending = [] := by
        by_contra hne
        cases hbehind hne _ rfl
      have hwords : Text.words (pending ++ spreadText options depth t) = Text.words t := by
        rw [words_append_spreadText hindent hfeed, hnil, List.nil_append]
      have ih := marksOfAll_relaidAfter hindent hfeed depth hlast
        (pending ++ spreadText options depth t) ts hformed.2 h.2 hruled.2 hapart.2
          fun _ => hapart.1 rfl
      rw [wordsMark_congr hwords] at ih
      rw [wordsMark, if_pos hnil]
      exact ih
    | false =>
      have ih := marksOfAll_relaidAfter hindent hfeed depth hlast [] ts hformed.2 h.2 hruled.2
        hapart.2 fun hne => absurd rfl hne
      rw [relaidAfter_of_isText_eq_false (t := .node v us) hv, marksOfAll_append,
        marksOfAll_textTrees, wordsMark_congr (words_append_lineGap hindent depth pending),
        marksOfAll, marks_relaid hindent hfeed false depth (.node v us) hformed.1 h.1 hruled.1, ih,
        marksOfAll]
      rfl

end

/-! ## Pages -/

theorem marksOfAll_dropFeed (h : StartsWithFeed ts) :
    marksOfAll false (dropFeed ts) = marksOfAll false ts := by
  rcases h with rfl | ⟨t, us, rfl⟩
  · rfl
  · have hwords : Text.words ('\n' :: t) = Text.words t :=
      Text.wordsBy_cons_of_blank (by decide) t
    rw [dropFeed, marksOfAll_append, marksOfAll_textTrees, marksOfAll, marks,
      wordsMark_congr hwords]

/-- The content of a page that is read again has the marks of what it is read from. -/
theorem marksOfAll_relaidPage {path : List String} (hindent : PlainIndent options)
    (hfeed : options.newline = ['\n']) (hnests : nestsAll path ts = true)
    (h : EachOfAll (Durable options.indent) ts) (hruled : EachOfAll Ruled ts) :
    marksOfAll false (relaidPage options ts) = marksOfAll false ts := by
  rw [relaidPage, marksOfAll_dropFeed (startsWithFeed_page hfeed ts)]
  exact marksOfAll_relaidAfter hindent hfeed 0 (fun t => by rw [List.append_nil]) [] ts
    (formedAll_of_nestsAll ts hnests) h hruled (apart_of_nestsAll hnests)
    fun hne => absurd rfl hne

end Markup

end PrettyPayload
