import Mathlib.Data.List.Basic
import PrettyPayload.Proofs.Markup.Held
import PrettyPayload.Proofs.Markup.LaidOut
import PrettyPayload.Proofs.Markup.Spread

/-!
# Nothing of a page is lost when it is written

Every start tag, comment, document type, instruction and line of text of an HTML page is written, in
document order and each in a place of its own (`heldIn_serialize_ofHtml`). How an element is written
depends on its name alone, and so this leaves out what the name of an element makes no room for:
what is below a style element, and what is below an element that is called like one without an end
tag. In HTML there is nothing there but stylesheets, but an element of another vocabulary may have
such a name, and content.
-/

namespace PrettyPayload

namespace Markup

open PrettyPayload.Tree

variable {t u : Tree Node} {ts us : List (Tree Node)} {options : Options} {ancestors : Nat}

/-! ## Definitions -/

mutual

/-- What there is to write of a tree, in document order: its start tags, with their style attributes
laid out, its comments, document types and instructions, and the lines of its texts. The text in a
style element does not count. Only elements have nodes below them. -/
def contents (inStyle : Bool) : Tree Node → List Text
  | .node v ts =>
    match v with
    | .document => contentsAll false ts
    | .element e => startTag .html e.laidOut false :: contentsAll e.isStyle ts
    | .text t => if inStyle then [] else (segments t).map (escapeText .html)
    | .data t => if inStyle then [] else segments t
    | .css t => if inStyle then [] else segments t
    | .comment t => [commentText t]
    | .doctype t => [doctypeText t]
    | .instruction target data => [instructionText .html target data]

def contentsAll (inStyle : Bool) : List (Tree Node) → List Text
  | [] => []
  | t :: ts => contents inStyle t ++ contentsAll inStyle ts

end

/-- Whether the nodes below a node have no place in what is written. In preformatted content it is
only the end tag that is left out by an element's name. -/
def Node.isHiding (preformatted : Bool) : Node → Bool
  | .element e => e.isStyle || !preformatted && isVoid .html e
  | _ => false

def Node.isPreformatted (v : Node) : Bool := v.element?.any (Markup.isPreformatted .html)

mutual

/-- A tree without the nodes that have no place in what is written. -/
def visible (preformatted : Bool) : Tree Node → Tree Node
  | .node v ts =>
    .node v (if v.isHiding preformatted then [] else
      visibleAll (preformatted || v.isPreformatted) ts)

def visibleAll (preformatted : Bool) : List (Tree Node) → List (Tree Node)
  | [] => []
  | t :: ts => visible preformatted t :: visibleAll preformatted ts

end

mutual

/-- Whether every element has room for what is below it: nothing is below an element without an end
tag, except in preformatted content, and only text is below a style element. -/
def roomy (preformatted : Bool) : Tree Node → Bool
  | .node v ts =>
    (!v.isHiding preformatted || ts.all fun t => v.isStyle && t.value.text?.isSome) &&
      roomyAll (preformatted || v.isPreformatted) ts

def roomyAll (preformatted : Bool) : List (Tree Node) → Bool
  | [] => true
  | t :: ts => roomy preformatted t && roomyAll preformatted ts

end

@[simp] theorem value_visible (preformatted : Bool) (t : Tree Node) :
    (visible preformatted t).value = t.value := by
  cases t
  rfl

/-! ## Lines of texts -/

/-- A line holds what is left of it when it is trimmed. -/
theorem heldIn_trim {f : Text → Text} (hf : ∀ s t, f (s ++ t) = f s ++ f t) (t : Text) :
    HeldIn ((([t].map (Text.trim Text.isAsciiBlank)).filter (· ≠ [])).map f) [f t] := by
  obtain ⟨front, back, ht, -, -⟩ := Text.exists_eq_append_trim Text.isAsciiBlank t
  by_cases hnil : Text.trim Text.isAsciiBlank t = []
  · simp [hnil, HeldIn.nil]
  · have hheld := HeldIn.singleton (f front) (f (Text.trim Text.isAsciiBlank t)) (f back)
    rw [List.append_assoc, ← hf, ← hf, ← ht] at hheld
    simpa [hnil] using hheld

theorem heldIn_segments_joinWith {f : Text → Text} (hf : ∀ s t, f (s ++ t) = f s ++ f t)
    (parts : List Text) :
    HeldIn (((parts.map (Text.trim Text.isAsciiBlank)).filter (· ≠ [])).map f)
      [f (Text.joinWith ['\n'] parts)] := by
  induction parts with
  | nil => exact .nil _
  | cons part parts ih =>
    cases parts with
    | nil =>
      rw [Text.joinWith_singleton]
      exact heldIn_trim hf part
    | cons next parts =>
      rw [← List.singleton_append, List.map_append, List.filter_append, List.map_append,
        List.singleton_append, Text.joinWith_cons_cons, hf, hf, List.append_assoc]
      exact (heldIn_trim hf part).glue (ih.prepend _)

theorem heldIn_segments_map {f : Text → Text} (hf : ∀ s t, f (s ++ t) = f s ++ f t) (t : Text) :
    HeldIn ((segments t).map f) [f t] := by
  have hheld := heldIn_segments_joinWith hf (Text.splitOn '\n' t)
  rwa [Text.joinWith_splitOn] at hheld

theorem heldIn_segments (t : Text) : HeldIn (segments t) [t] := by
  simpa using heldIn_segments_map (f := id) (fun _ _ => rfl) t

theorem HeldIn.joinWith {texts pieces : List Text} (h : HeldIn texts pieces) (separator : Text) :
    HeldIn texts [Text.joinWith separator pieces] := by
  induction h with
  | nil pieces => exact .nil _
  | @skip texts piece pieces held ih =>
    cases pieces with
    | nil => rw [held.eq_nil]; exact .nil _
    | cons p pieces =>
      rw [Text.joinWith_cons_cons]
      exact ih.prepend _
  | @found texts rest pieces before t held ih =>
    have hjoin : Text.joinWith separator ((before ++ t ++ rest) :: pieces) =
        before ++ t ++ Text.joinWith separator (rest :: pieces) := by
      rw [Text.joinWith_cons, Text.joinWith_cons, List.append_assoc]
    rw [hjoin]
    exact .found before t ih

/-! ## Preformatted content -/

theorem contents_visible_element (preformatted : Bool) (e : Element) :
    contents false (visible preformatted (.node (.element e) ts)) =
      startTag .html e.laidOut false ::
        if (Node.element e).isHiding preformatted then []
        else contentsAll false (visibleAll (preformatted || isPreformatted .html e) ts) := by
  rw [visible, contents]
  cases hstyle : e.isStyle with
  | true => simp [Node.isHiding, hstyle, contentsAll]
  | false => cases h : (Node.element e).isHiding preformatted <;> rfl

/-- What an element in preformatted content is written with holds what there is to write of it. -/
theorem heldIn_verbatim_element (e : Element) {texts : List Text}
    (h : HeldIn texts [verbatimAll .html us]) :
    HeldIn (startTag .html e false :: texts) [verbatim .html (.node (.element e) us)] := by
  rw [verbatim, if_neg (by simp)]
  exact ((HeldIn.self _).glue h).append_text _

mutual

theorem heldIn_verbatim_of_laidOut :
    (t u : Tree Node) → LaidOut t u → HeldIn (contents false (visible true t)) [verbatim .html u]
  | .node v ts, .node w us, ⟨hw, hus⟩ => by
    subst hw
    cases v with
    | document => exact heldIn_verbatimAll_of_laidOutAll ts us hus
    | element e =>
      rw [contents_visible_element]
      refine heldIn_verbatim_element e.laidOut ?_
      cases hstyle : e.isStyle with
      | true => simp [Node.isHiding, hstyle, HeldIn.nil]
      | false =>
        rw [isStyle_element, hstyle] at hus
        simpa [Node.isHiding, hstyle] using heldIn_verbatimAll_of_laidOutAll ts us hus
    | text t => exact (heldIn_segments_map (escapeText_append .html) t).append_text _
    | data t => exact (heldIn_segments t).append_text _
    | css t => exact (heldIn_segments t).append_text _
    | comment t => exact (HeldIn.self _).append_text _
    | doctype t => exact (HeldIn.self _).append_text _
    | instruction target data => exact (HeldIn.self _).append_text _

theorem heldIn_verbatimAll_of_laidOutAll :
    (ts us : List (Tree Node)) → LaidOutAll ts us →
      HeldIn (contentsAll false (visibleAll true ts)) [verbatimAll .html us]
  | [], [], _ => .nil _
  | t :: ts, u :: us, h => by
    rw [visibleAll, contentsAll, verbatimAll]
    exact (heldIn_verbatim_of_laidOut t u h.1).glue (heldIn_verbatimAll_of_laidOutAll ts us h.2)

end

/-! ## Elements without elements -/

theorem map_value_of_laidOutAll :
    (ts us : List (Tree Node)) → LaidOutAll ts us →
      us.map value = (ts.map value).map Node.laidOut
  | [], [], _ => rfl
  | .node v ts :: rest, .node w us :: rest', ⟨⟨hw, _⟩, hrest⟩ => by
    rw [List.map_cons, List.map_cons, List.map_cons, map_value_of_laidOutAll rest rest' hrest]
    exact congrArg (· :: _) hw

def Node.lines (v : Node) : List Text := contents false (.node v [])

theorem contents_of_isSome_text? (inStyle : Bool) (h : t.value.text?.isSome) :
    contents inStyle t = if inStyle then [] else t.value.lines := by
  obtain ⟨v, ts⟩ := t
  cases v with
  | text t => rfl
  | data t => rfl
  | css t => rfl
  | _ => cases h

theorem contentsAll_of_isSome_text? {preformatted : Bool}
    (h : ∀ v ∈ ts.map value, v.text?.isSome) :
    contentsAll false (visibleAll preformatted ts) = (ts.map value).flatMap Node.lines := by
  induction ts with
  | nil => rfl
  | cons t ts ih =>
    rw [List.map_cons, List.forall_mem_cons, ← value_visible preformatted] at h
    rw [visibleAll, contentsAll, ih h.2, List.map_cons, List.flatMap_cons,
      contents_of_isSome_text? false h.1, value_visible, if_neg Bool.false_ne_true]

theorem lines_of_isBlankNode {v : Node} (h : isBlankNode v = true) : v.lines = [] := by
  cases v with
  | text t => exact List.map_eq_nil_iff.2 (segments_eq_nil_iff.2 h)
  | data t => exact segments_eq_nil_iff.2 h
  | _ => cases h

theorem flatMap_lines_filter (nodes : List Node) :
    (nodes.filter fun v => !isBlankNode v).flatMap Node.lines = nodes.flatMap Node.lines := by
  induction nodes with
  | nil => rfl
  | cons v nodes ih =>
    cases hblank : isBlankNode v with
    | true => simp [hblank, ih, lines_of_isBlankNode hblank]
    | false => simp [hblank, ih]

theorem laidOut_of_isSome_text? {v : Node} (h : v.laidOut.text?.isSome) : v.laidOut = v := by
  cases v with
  | element e => cases h
  | _ => rfl

/-- What there is to write of nodes is in those of them that count, if these are character data. -/
theorem contentsAll_eq_lines {preformatted : Bool} (h : LaidOutAll ts us) {counting : List Node}
    (hcounting : (us.map value).filter (fun v => !isBlankNode v) = counting)
    (htext : ∀ v ∈ counting, v.text?.isSome) :
    contentsAll false (visibleAll preformatted ts) = counting.flatMap Node.lines := by
  have hvalues := map_value_of_laidOutAll ts us h
  have hus : ∀ v ∈ us.map value, v.text?.isSome :=
    isSome_text?_of_filter fun v hv => htext v (hcounting ▸ hv)
  have hsame : us.map value = ts.map value := by
    rw [hvalues, List.forall_mem_map] at hus
    rw [hvalues]
    exact (List.map_congr_left fun v hv => laidOut_of_isSome_text? (hus v hv)).trans
      (List.map_id _)
  rw [contentsAll_of_isSome_text? (hsame ▸ hus), ← flatMap_lines_filter, ← hsame, hcounting]

/-! ## Entries -/

theorem heldIn_map_append (s : Text) (texts : List Text) : HeldIn texts (texts.map (s ++ ·)) := by
  induction texts with
  | nil => exact .nil _
  | cons t texts ih => exact ((HeldIn.self t).prepend s).append ih

theorem heldIn_entries_startTag (e : Element) (us : List (Tree Node)) :
    HeldIn [startTag .html e false] (entries .html options ancestors (.node (.element e) us)) := by
  have htag := (HeldIn.self (startTag .html e false)).prepend
    (Text.times (ancestors - 1) options.indent)
  have htext (t : Text) := ((HeldIn.self (startTag .html e false)).append_text t).prepend
    (Text.times (ancestors - 1) options.indent)
  rw [entries]
  dsimp only
  split
  · exact htag
  split
  · rw [List.append_assoc, List.append_assoc]
    exact htext _
  split
  · split
    · exact htext _
    · exact (htext _).append_pieces _
  split
  · exact htext _
  split
  · rw [List.append_assoc]
    exact htext _
  · exact htag.append_pieces _

theorem heldIn_entries_element {e : Element} (hroom : (Node.element e).isHiding false = false)
    (h : LaidOutAll ts us)
    (hentries : HeldIn (contentsAll false (visibleAll false ts))
      (entriesOfAll .html options (ancestors + 1) us)) :
    HeldIn (contents false (visible false (.node (.element e) ts)))
      (entries .html options ancestors (.node (.element e.laidOut) us)) := by
  obtain ⟨hstyle, hvoid⟩ : e.isStyle = false ∧ isVoid .html e = false := by
    simpa [Node.isHiding] using hroom
  rw [contents_visible_element, hroom, Bool.false_or]
  have htag := HeldIn.self (startTag .html e.laidOut false)
  rw [entries]
  simp only [isVoid_laidOut, hvoid, isPreformatted_laidOut, Element.isStyle_laidOut, hstyle,
    Bool.false_eq_true, and_false, if_false]
  cases hpre : isPreformatted .html e with
  | true =>
    have hcontent := heldIn_verbatimAll_of_laidOutAll ts us h
    exact (((htag.append_text _).glue hcontent).append_text _).prepend _
  | false =>
    simp only [Bool.false_eq_true, if_false]
    split
    next hblank =>
      rw [contentsAll_eq_lines h (filter_eq_nil_iff_all_blank.2 hblank) (by simp),
        List.flatMap_nil]
      exact (htag.append_text _).prepend _
    next =>
      split
      next line honly =>
        obtain ⟨t, below, hfilter, hsegments⟩ := onlyLine?_eq_some honly
        have hcounting : (us.map value).filter (fun v => !isBlankNode v) = [.text t] := by
          rw [List.filter_map]
          exact congrArg (List.map value) hfilter
        have hlines : Node.lines (.text t) = [escapeText .html line] :=
          congrArg (List.map (escapeText .html)) hsegments
        rw [contentsAll_eq_lines h hcounting (by simp [Node.text?]), List.flatMap_singleton, hlines]
        exact ((htag.glue (.self _)).append_text _).prepend _
      next =>
        exact ((htag.prepend _).append hentries).append_pieces _

mutual

theorem heldIn_entries_of_laidOut (ancestors : Nat) :
    (t u : Tree Node) → LaidOut t u →
      HeldIn (contents false (visible false t)) (entries .html options ancestors u)
  | .node v ts, .node w us, ⟨hw, hus⟩ => by
    subst hw
    cases v with
    | document => exact heldIn_entriesOfAll_of_laidOutAll (ancestors + 1) ts us hus
    | element e =>
      cases hhiding : (Node.element e).isHiding false with
      | true =>
        rw [contents_visible_element, hhiding]
        exact heldIn_entries_startTag e.laidOut us
      | false =>
        have hstyle : e.isStyle = false := by simpa using (Bool.or_eq_false_iff.1 hhiding).1
        rw [isStyle_element, hstyle] at hus
        exact heldIn_entries_element hhiding hus
          (heldIn_entriesOfAll_of_laidOutAll (ancestors + 1) ts us hus)
    | text t =>
      have hlines := heldIn_map_append (Text.times (ancestors - 1) options.indent)
        ((segments t).map (escapeText .html))
      rw [List.map_map] at hlines
      exact hlines
    | data t => exact heldIn_map_append _ _
    | css t => exact heldIn_map_append _ _
    | comment t => exact (HeldIn.self _).prepend _
    | doctype t => exact (HeldIn.self _).prepend _
    | instruction target data => exact (HeldIn.self _).prepend _

theorem heldIn_entriesOfAll_of_laidOutAll (ancestors : Nat) :
    (ts us : List (Tree Node)) → LaidOutAll ts us →
      HeldIn (contentsAll false (visibleAll false ts))
        (entriesOfAll .html options ancestors us)
  | [], [], _ => .nil _
  | t :: ts, u :: us, h => by
    rw [visibleAll, contentsAll, entriesOfAll]
    exact (heldIn_entries_of_laidOut ancestors t u h.1).append
      (heldIn_entriesOfAll_of_laidOutAll ancestors ts us h.2)

end

/-! ## Room for all -/

theorem contentsAll_eq_nil {inStyle : Bool}
    (h : ∀ t ∈ ts, inStyle = true ∧ t.value.text?.isSome) : contentsAll inStyle ts = [] := by
  induction ts with
  | nil => rfl
  | cons t ts ih =>
    rw [List.forall_mem_cons] at h
    obtain ⟨⟨rfl, htext⟩, h⟩ := h
    rw [contentsAll, ih h, List.append_nil, contents_of_isSome_text? true htext, if_pos rfl]

mutual

/-- Where every element has room for what is below it, nothing to be written is left out. -/
theorem contents_visible_of_roomy (inStyle : Bool) {preformatted : Bool} :
    (t : Tree Node) → roomy preformatted t = true →
      contents inStyle (visible preformatted t) = contents inStyle t
  | .node v ts, h => by
    rw [roomy, Bool.and_eq_true] at h
    obtain ⟨hroom, hbelow⟩ := h
    cases v with
    | document => exact contentsAll_visibleAll_of_roomyAll false ts hbelow
    | element e =>
      rw [visible, contents, contents]
      cases hhiding : (Node.element e).isHiding preformatted with
      | true =>
        rw [hhiding] at hroom
        have hnone : contentsAll e.isStyle ts = [] :=
          contentsAll_eq_nil (by simpa [isStyle_element] using hroom)
        rw [hnone]
        rfl
      | false => exact congrArg (_ :: ·) (contentsAll_visibleAll_of_roomyAll e.isStyle ts hbelow)
    | _ => rfl

theorem contentsAll_visibleAll_of_roomyAll (inStyle : Bool) {preformatted : Bool} :
    (ts : List (Tree Node)) → roomyAll preformatted ts = true →
      contentsAll inStyle (visibleAll preformatted ts) = contentsAll inStyle ts
  | [], _ => rfl
  | t :: ts, h => by
    rw [roomyAll, Bool.and_eq_true] at h
    rw [visibleAll, contentsAll, contentsAll, contents_visible_of_roomy inStyle t h.1,
      contentsAll_visibleAll_of_roomyAll inStyle ts h.2]

end

/-! ## Pages -/

section Pages

variable {d₁ d₂ : Document} {inner outer : Text} {m n : Nat}

theorem Document.linked_ofPage (page : Html.Page) : (ofPage page).Linked :=
  (linked_new .html).copy _

theorem Document.flavor_ofPage (page : Html.Page) : (ofPage page).flavor = .html :=
  flavor_copy _ _

theorem Document.size_pos_ofPage (page : Html.Page) : 0 < (ofPage page).cells.size :=
  Nat.lt_of_lt_of_le Nat.one_pos
    (size_le_copy (new .html) _ (List.forall_mem_singleton.2 Nat.one_pos))

/-- What there is to write of a page is in its text. Every start tag, comment, document type,
instruction and line of text that is not the text of a style element has a place of its own there,
in document order, as far as it is not below an element that is called like one of HTML that has no
room for it. -/
theorem heldIn_serialize_ofHtml (s : Text) (options : Options)
    (hstyles : (Document.ofHtml s).reindentStyles inner outer = (d₁, .ok m))
    (hattributes : d₁.compactStyles = (d₂, .ok n)) :
    let page := (Document.ofHtml s).tree.map Prod.snd
    HeldIn (contents false (visible false page)) [d₂.serialize options] ∧
      (roomy false page = true → HeldIn (contents false page) [d₂.serialize options]) := by
  intro page
  obtain ⟨hlaid, hflavor⟩ := Document.laidOut_tree (Document.linked_ofPage _)
    (Document.size_pos_ofPage _) hstyles hattributes
  have hheld : HeldIn (contents false (visible false page)) [d₂.serialize options] := by
    rw [d₂.serialize_eq options, hflavor, Document.flavor_ofPage]
    exact (heldIn_entries_of_laidOut 0 page _ hlaid).joinWith options.newline
  refine ⟨hheld, fun hroomy => ?_⟩
  rwa [contents_visible_of_roomy false page hroomy] at hheld

/-- A page with a stylesheet, a style attribute, a void element, and in preformatted content an
element of another vocabulary. -/
def mixedPage : Document :=
  .ofHtml ("<!--c--><style>a\x7bb:c\x7d</style><p style=\"d:e\">x<br>y\n z</p>" ++
    "<pre><svg><link>k</link></svg></pre>").toList

/-- All of the page is written. -/
theorem heldIn_serialize_mixedPage :
    let page := mixedPage.tree.map Prod.snd
    let d₁ := (mixedPage.reindentStyles ['\t'] ['\t']).1
    let d₂ := d₁.compactStyles.1
    mixedPage.reindentStyles ['\t'] ['\t'] = (d₁, .ok 1) ∧ d₁.compactStyles = (d₂, .ok 1) ∧
      roomy false page = true ∧
      contents false page =
        ["<!--c-->", "<style>", "<p style=\"d: e\">", "x", "<br>", "y", "z", "<pre>", "<svg>",
          "<link>", "k"].map String.toList ∧
      HeldIn (contents false page) [d₂.serialize ⟨['\t'], .lf, true⟩] := by
  intro page d₁ d₂
  obtain ⟨hblocks, hdeclarations, hroomy, hcontents⟩ :
      (mixedPage.reindentStyles ['\t'] ['\t']).2 = .ok 1 ∧ d₁.compactStyles.2 = .ok 1 ∧
        roomy false page = true ∧
        contents false page =
          ["<!--c-->", "<style>", "<p style=\"d: e\">", "x", "<br>", "y", "z", "<pre>", "<svg>",
            "<link>", "k"].map String.toList := by
    decide +kernel
  have hstyles : mixedPage.reindentStyles ['\t'] ['\t'] = (d₁, .ok 1) := Prod.ext rfl hblocks
  have hattributes : d₁.compactStyles = (d₂, .ok 1) := Prod.ext rfl hdeclarations
  exact ⟨hstyles, hattributes, hroomy, hcontents,
    (heldIn_serialize_ofHtml _ _ hstyles hattributes).2 hroomy⟩

/-- A page with an element of another vocabulary that is called like one without an end tag. -/
def linkedPage : Document := .ofHtml "<svg><link><g>x</g></link></svg>".toList

/-- What is in the element is not written. -/
theorem not_heldIn_serialize_linkedPage :
    let page := linkedPage.tree.map Prod.snd
    let d₁ := (linkedPage.reindentStyles ['\t'] ['\t']).1
    let d₂ := d₁.compactStyles.1
    linkedPage.reindentStyles ['\t'] ['\t'] = (d₁, .ok 0) ∧ d₁.compactStyles = (d₂, .ok 0) ∧
      contents false page = ["<svg>", "<link>", "<g>", "x"].map String.toList ∧
      ¬HeldIn (contents false page) [d₂.serialize ⟨['\t'], .lf, true⟩] := by
  intro page d₁ d₂
  obtain ⟨hblocks, hdeclarations, hcontents, hlost⟩ :
      (linkedPage.reindentStyles ['\t'] ['\t']).2 = .ok 0 ∧ d₁.compactStyles.2 = .ok 0 ∧
        contents false page = ["<svg>", "<link>", "<g>", "x"].map String.toList ∧
        ¬['x'] <:+: d₂.serialize ⟨['\t'], .lf, true⟩ := by
    decide +kernel
  refine ⟨Prod.ext rfl hblocks, Prod.ext rfl hdeclarations, hcontents, fun hheld => ?_⟩
  obtain ⟨piece, hpiece, hwithin⟩ := hheld.exists_piece (t := ['x']) (by simp [hcontents])
  rw [List.mem_singleton] at hpiece
  subst hpiece
  exact hlost hwithin

end Pages

end Markup

end PrettyPayload
