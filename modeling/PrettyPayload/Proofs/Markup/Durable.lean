import PrettyPayload.Proofs.Css.Returnless
import PrettyPayload.Proofs.Html.RawText
import PrettyPayload.Proofs.Markup.Marks
import PrettyPayload.Proofs.Markup.Restyled
import PrettyPayload.Proofs.Markup.Entries

/-!
# Styles that last

A stylesheet whose texts are closed and on one line each is written into its element in such a way
that the same stylesheet is read from there, whatever blanks are put in the place of the line feed
at its end. So it is written in the same way again, and the same goes for style attributes.
-/

namespace PrettyPayload

namespace Markup

open Css (parseStylesheet parseDeclarations)
open PrettyPayload.Tree

variable {indent t : Text} {ancestors : Nat} {sheet : Css.Stylesheet} {children : List Node}
  {e : Element}

/-! ## Definitions -/

/-- A text of a style element that is written as a text with the same stylesheet. -/
structure DurableSheet (indent t : Text) (sheet : Css.Stylesheet) : Prop where
  read : parseStylesheet t = .ok sheet
  faithful : Css.Item.AllFaithful true sheet.rules
  oneLine : Css.Item.AllOneLine sheet.rules
  /-- No end tag opens in it. -/
  apart : ¬['<', '/'] <:+: sheet.pretty indent

/-- The style attribute of an element, if it has one, is written as one with the same
declarations. -/
def DurableAttribute (e : Element) : Prop :=
  ∀ value, e.attribute? Document.styleName = some value →
    ∃ ds, parseDeclarations value = .ok ds ∧ ∀ d ∈ ds, d.FaithfulInLine

/-- The stylesheet of a style element with a number of ancestors and some children, as it is written
behind the start tag, without the line feed at its end. -/
def sheetLiteral (indent : Text) (ancestors : Nat) (children : List Node) : Text :=
  stylesheetOf [.css (sheetText indent ancestors children)]

/-- What is read again from the stylesheet of a style element, with what stands in front of the end
tag. -/
def sheetContent (indent : Text) (ancestors : Nat) (back : Text) (children : List Node) :
    List (Tree Node) :=
  if sheetLiteral indent ancestors children = [] then []
  else [.node (.data (sheetLiteral indent ancestors children ++ back)) []]

/-! ## Stylesheets -/

theorem isBlank_getLast?_pretty (hi : '\n' ∉ indent) (h : Css.Item.AllOneLine sheet.rules) :
    ∀ c, (sheet.pretty indent).getLast? = some c → Text.isBlank c = false := by
  have hlines := Css.Item.isLine_of_mem_linesOfAll hi sheet.rules h 0
  rw [Css.Stylesheet.pretty]
  rcases List.eq_nil_or_concat (Css.Item.linesOfAll indent 0 sheet.rules) with
    hnil | ⟨front, last, heq⟩
  · rw [hnil]
    intro c hc
    cases hc
  · rw [List.concat_eq_append] at heq
    rw [heq] at hlines ⊢
    obtain ⟨-, c, hc, hblank⟩ := hlines last (by simp)
    have hlast : (Text.joinWith ['\n'] (front ++ [last])).getLast? = some c := by
      cases front with
      | nil => simpa using hc
      | cons line front =>
        rw [Text.joinWith_concat _ _ (List.cons_ne_nil _ _), List.getLast?_append, hc]
        rfl
    intro d hd
    rw [hlast] at hd
    exact Option.some.inj hd ▸ hblank

namespace DurableSheet

variable (hindent : ∀ c ∈ indent, c = ' ' ∨ c = '\t') (h : DurableSheet indent t sheet)
  (ht : textOf children = t)

include h ht

theorem sheetText_eq : sheetText indent ancestors children =
    styleBlock (Text.times (ancestors - 1 + 1) indent) (sheet.pretty indent) := by
  rw [sheetText, ht, h.read]

include hindent

/-- The literal is the written stylesheet, moved to the right. -/
theorem sheetLiteral_eq (hreturn : '\r' ∉ t) (ancestors : Nat) :
    sheetLiteral indent ancestors children =
      if sheet.pretty indent = [] then []
      else
        '\n' :: (Text.times (ancestors - 1 + 1) indent ++
          Text.padLines (Text.times (ancestors - 1 + 1) indent) (sheet.pretty indent)) := by
  have hfeed : '\n' ∉ indent := fun hc => (hindent '\n' hc).elim (by decide) (by decide)
  have hreturn' : '\r' ∉ indent := fun hc => (hindent '\r' hc).elim (by decide) (by decide)
  have hpadding := Text.forall_mem_times (ancestors - 1 + 1) hindent
  rw [sheetLiteral, h.sheetText_eq ht]
  generalize Text.times (ancestors - 1 + 1) indent = padding at hpadding ⊢
  split
  next hnil =>
    rw [hnil]
    rfl
  next hne =>
    have hpretty : '\r' ∉ sheet.pretty indent :=
      sheet.not_mem_pretty (by decide) (by decide) hreturn' hreturn h.read
    have hmem :
        '\r' ∉ '\n' :: (padding ++ Text.padLines padding (sheet.pretty indent)) ++ ['\n'] := by
      have hpad : '\r' ∉ padding := fun hc => (hpadding '\r' hc).elim (by decide) (by decide)
      have hlines : '\r' ∉ Text.padLines padding (sheet.pretty indent) := fun hc =>
        (Text.mem_replaceChar hc).elim (by simpa using hpad) hpretty
      simp [hpad, hlines]
    have hself : Text.withoutReturns
        ('\n' :: (padding ++ Text.padLines padding (sheet.pretty indent)) ++ ['\n']) =
          '\n' :: (padding ++ Text.padLines padding (sheet.pretty indent)) ++ ['\n'] :=
      List.filter_eq_self.2 fun c hc => by simpa using fun heq : c = '\r' => hmem (heq ▸ hc)
    have hpadded : ∀ c, (Text.padLines padding (sheet.pretty indent)).getLast? = some c →
        Text.isBlank c = false :=
      Text.isBlank_getLast_padLines (isBlank_getLast?_pretty hfeed h.oneLine)
    have hlast : ∀ c, ('\n' :: (padding ++ Text.padLines padding (sheet.pretty indent))).getLast? =
        some c → Text.isBlank c = false := by
      intro c hc
      refine hpadded c ?_
      rw [← List.cons_append, List.getLast?_append] at hc
      cases hend : (Text.padLines padding (sheet.pretty indent)).getLast? with
      | none => exact absurd (Text.padLines_eq_nil_iff.1 (List.getLast?_eq_none_iff.1 hend)) hne
      | some d =>
        rw [hend] at hc
        exact hc
    rw [stylesheetOf, styleBlock_eq hfeed h.oneLine hne]
    have htext : textOf [Node.css
        ('\n' :: (padding ++ Text.padLines padding (sheet.pretty indent)) ++ ['\n'])] =
          '\n' :: (padding ++ Text.padLines padding (sheet.pretty indent)) ++ ['\n'] :=
      List.append_nil _
    rw [htext, hself, Text.trimEnd_append_of_all (List.forall_mem_singleton.2 (by decide)),
      Text.trimEnd_eq_self hlast]

/-- What is written in a style element is the literal and a line feed, or nothing. -/
theorem sheetText_eq_literal (hreturn : '\r' ∉ t) : sheetText indent ancestors children =
    if sheetLiteral indent ancestors children = [] then []
    else sheetLiteral indent ancestors children ++ ['\n'] := by
  have hfeed : '\n' ∉ indent := fun hc => (hindent '\n' hc).elim (by decide) (by decide)
  rw [h.sheetLiteral_eq hindent ht hreturn ancestors, h.sheetText_eq ht]
  split
  next hnil =>
    rw [hnil]
    rfl
  next hne => rw [if_neg (List.cons_ne_nil _ _), styleBlock_eq hfeed h.oneLine hne]

/-- From the literal the same stylesheet is read, whatever blanks stand behind it. -/
theorem again (hreturn : '\r' ∉ t) {back : Text} (hback : ∀ c ∈ back, Text.isAsciiBlank c = true) :
    DurableSheet indent (textOf ((sheetContent indent ancestors back children).map value))
      sheet := by
  have hblank : ∀ c ∈ indent, Text.isAsciiBlank c = true := by
    intro c hc
    rcases hindent c hc with rfl | rfl <;> decide
  have hpretty := Css.parseStylesheet_pretty_of_parse hblank h.read h.faithful
  refine ⟨?_, h.faithful, h.oneLine, h.apart⟩
  rw [sheetContent]
  have hliteral := h.sheetLiteral_eq hindent ht hreturn ancestors
  split
  next hnil =>
    rw [hliteral] at hnil
    split at hnil
    next hnone =>
      rw [hnone] at hpretty
      exact hpretty
    next => cases hnil
  next hne =>
    rw [hliteral] at hne ⊢
    split at hne
    next => exact absurd rfl hne
    next hsome =>
      rw [if_neg hsome]
      have htext : ∀ u : Text, textOf ([Tree.node (Node.data u) []].map value) = u := fun u =>
        List.append_nil u
      rw [htext]
      exact Css.parseStylesheet_padLines_of_oneLine (Text.forall_mem_times _ hindent) hback hpretty
        h.oneLine

theorem sheetText_again (hreturn : '\r' ∉ t) {back : Text}
    (hback : ∀ c ∈ back, Text.isAsciiBlank c = true) (ancestors' : Nat) :
    sheetText indent ancestors' ((sheetContent indent ancestors back children).map value) =
      sheetText indent ancestors' children := by
  rw [(h.again hindent ht hreturn hback).sheetText_eq rfl, h.sheetText_eq ht]

theorem not_mem_sheetLiteral (hreturn : '\r' ∉ t) {c : Char} (hmark : c ∉ Css.framing)
    (hblank : c ∉ [' ', '\t', '\n']) (hc : c ∉ t) : c ∉ sheetLiteral indent ancestors children := by
  have hindent' : c ∉ indent := fun hmem => by
    rcases hindent c hmem with rfl | rfl <;> exact hblank (by decide)
  have hpadding : c ∉ Text.times (ancestors - 1 + 1) indent := fun hmem => by
    rcases Text.forall_mem_times _ hindent c hmem with rfl | rfl <;> exact hblank (by decide)
  have hfeed : c ≠ '\n' := fun heq => hblank (by simp [heq])
  have hpretty := sheet.not_mem_pretty hmark hfeed hindent' hc h.read
  have hlines : c ∉ Text.padLines (Text.times (ancestors - 1 + 1) indent) (sheet.pretty indent) :=
    fun hmem => (Text.mem_replaceChar hmem).elim (by simpa [hfeed] using hpadding) hpretty
  rw [h.sheetLiteral_eq hindent ht hreturn ancestors]
  split
  next => exact List.not_mem_nil
  next => simp [hfeed, hpadding, hlines]

/-- No end tag opens in the literal, and none where blanks stand behind it. -/
theorem not_infix_sheetLiteral (hreturn : '\r' ∉ t) {back : Text}
    (hback : ∀ c ∈ back, Text.isAsciiBlank c = true) :
    ¬['<', '/'] <:+: sheetLiteral indent ancestors children ++ back := by
  intro hopens
  have hhead : ∀ c, back.head? = some c → c ∉ ['<', '/'].tail := by
    intro c hc hmem
    obtain rfl := List.mem_singleton.1 hmem
    exact absurd (hback '/' (List.mem_of_head? hc)) (by decide)
  rcases Text.infix_or_infix_of_infix_append hhead hopens with hopens | hopens
  · rw [h.sheetLiteral_eq hindent ht hreturn ancestors] at hopens
    split at hopens
    next => exact absurd (List.infix_nil.1 hopens) (List.cons_ne_nil _ _)
    next =>
      have hmark : '<' ∉ '\n' :: Text.times (ancestors - 1 + 1) indent := by
        rw [List.mem_cons, not_or]
        refine ⟨by decide, fun hmem => ?_⟩
        exact (Text.forall_mem_times _ hindent '<' hmem).elim (by decide) (by decide)
      rw [← List.cons_append] at hopens
      exact h.apart (Text.infix_of_infix_padLines hmark (by decide)
        (Text.infix_of_infix_append hmark hopens))
  · exact absurd (hback '<' (hopens.subset List.mem_cons_self)) (by decide)

/-- In front of an end tag the literal is read up to that tag. -/
theorem isRawText_literal (hplain : Html.IsPlainText t) {back : Text}
    (hback : ∀ c ∈ back, Text.isAsciiBlank c = true) (hreturn : '\r' ∉ back) (element : Text) :
    Html.IsRawText element (sheetLiteral indent ancestors children ++ back) := by
  refine Html.isRawText_of_not_infix element ⟨?_, ?_⟩
    (h.not_infix_sheetLiteral hindent ht hplain.1 hback)
  · exact List.not_mem_append
      (h.not_mem_sheetLiteral hindent ht hplain.1 (by decide) (by decide) hplain.1) hreturn
  · refine List.not_mem_append
      (h.not_mem_sheetLiteral hindent ht hplain.1 (by decide) (by decide) hplain.2) fun hmem => ?_
    exact absurd (hback '\x00' hmem) (by decide)

end DurableSheet

/-! ## Style attributes -/

namespace DurableAttribute

variable (h : DurableAttribute e)
include h

theorem exists_declarations {value : Text}
    (hvalue : e.attribute? Document.styleName = some value) :
    ∃ ds, parseDeclarations value = .ok ds :=
  (h value hvalue).imp fun _ hds => hds.1

theorem again : DurableAttribute e.laidOut ∧ e.laidOut.laidOut = e.laidOut := by
  cases hvalue : e.attribute? Document.styleName with
  | none =>
    rw [Element.laidOut_of_none hvalue]
    exact ⟨h, Element.laidOut_of_none hvalue⟩
  | some value =>
    obtain ⟨ds, hds, hfaithful⟩ := h value hvalue
    have hagain := Css.parseDeclarations_compact_of_parse hds hfaithful
    have hcompact : e.laidOut.attribute? Document.styleName = some (Css.compact ds) := by
      rw [Element.laidOut_of_ok hvalue hds, Element.attribute?_setAttribute]
    refine ⟨fun value' hvalue' => ?_, ?_⟩
    · obtain rfl := Option.some.inj (hcompact.symm.trans hvalue')
      exact ⟨ds, hagain, hfaithful⟩
    · rw [Element.laidOut_of_ok hcompact hagain, Element.setAttribute_eq_self hcompact]

theorem attributes_laidOut : e.laidOut = e ∨ ∃ front value back ds,
    e.attributes = front ++ (Document.styleName, value) :: back ∧
      parseDeclarations value = .ok ds ∧ parseDeclarations (Css.compact ds) = .ok ds ∧
        e.laidOut = ⟨e.name, front ++ (Document.styleName, Css.compact ds) :: back⟩ := by
  cases hvalue : e.attribute? Document.styleName with
  | none => exact Or.inl (Element.laidOut_of_none hvalue)
  | some value =>
    obtain ⟨ds, hds, hfaithful⟩ := h value hvalue
    obtain ⟨front, back, hattributes, hfront⟩ := Element.attribute?_eq_some_iff.1 hvalue
    refine Or.inr ⟨front, value, back, ds, hattributes, hds,
      Css.parseDeclarations_compact_of_parse hds hfaithful, ?_⟩
    rw [Element.laidOut_of_ok hvalue hds, Element.setAttribute, hattributes,
      Element.setIn_append hfront]

theorem mark_laidOut : e.laidOut.mark = e.mark := by
  rcases h.attributes_laidOut with heq | ⟨front, value, back, ds, hattributes, hds, hagain, heq⟩
  · rw [heq]
  · have hvalue : compactValue Document.styleName value = Css.compact ds := by
      rw [compactValue, if_pos rfl, hds]
    have hcompact : compactValue Document.styleName (Css.compact ds) = Css.compact ds := by
      rw [compactValue, if_pos rfl, hagain]
    rw [heq, Element.mark, Element.mark, hattributes]
    simp only [List.map_append, List.map_cons, hvalue, hcompact]

/-- The tag can be written and read again as before. -/
theorem isTag_laidOut (he : Html.IsTag e) : Html.IsTag e.laidOut := by
  rcases h.attributes_laidOut with heq | ⟨front, value, back, ds, hattributes, hds, -, heq⟩
  · rwa [heq]
  · obtain ⟨hname, hall, hdistinct⟩ := he
    rw [hattributes] at hall hdistinct
    rw [List.forall_mem_append, List.forall_mem_cons] at hall
    obtain ⟨hfront, ⟨hstyle, hplain⟩, hback⟩ := hall
    rw [heq]
    refine ⟨hname, List.forall_mem_append.2 ⟨hfront, List.forall_mem_cons.2 ⟨⟨hstyle, ?_⟩, hback⟩⟩,
      by simpa using hdistinct⟩
    exact ⟨Css.not_mem_compact (by decide) hplain.1 hds,
      Css.not_mem_compact (by decide) hplain.2 hds⟩

end DurableAttribute

end Markup

end PrettyPayload
