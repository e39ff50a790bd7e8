import PrettyPayload.Proofs.Markup.Serializer

/-!
# Texts that no line ending cuts

Attribute values, comments, document types, instructions and preformatted texts may hold line feeds
of their own. Each of them is written into a single line of the document (`heldIn_lines`), and only
between the lines stands what the line ending is, so a change of the line ending leaves the line
feeds in them alone.

What is put into a style element or into an element without an end tag is not written, unless the
element is itself in preformatted content.
-/

namespace PrettyPayload

namespace Markup

open PrettyPayload.Tree

/-! ## Definitions -/

/-- Some texts lie one behind the other in some pieces, each of them whole within one piece. -/
inductive HeldIn : (texts pieces : List Text) → Prop where
  | nil (pieces : List Text) : HeldIn [] pieces
  /-- No text comes any more in the first piece. -/
  | skip {texts : List Text} {piece : Text} {pieces : List Text} (held : HeldIn texts pieces) :
      HeldIn texts (piece :: pieces)
  /-- The first text is in the first piece, and the others come behind it. -/
  | found {texts : List Text} {rest : Text} {pieces : List Text} (before t : Text)
      (held : HeldIn texts (rest :: pieces)) :
      HeldIn (t :: texts) ((before ++ t ++ rest) :: pieces)

def valuesOf (flavor : Flavor) (e : Element) : List Text :=
  e.attributes.map fun (_, value) => escapeAttribute flavor value

mutual

/-- The attribute values, texts, comments, document types and instructions of a subtree as they are
written in preformatted content. -/
def wordings (flavor : Flavor) : Tree Node → List Text
  | .node value ts =>
    match value with
    | .document => wordingsAll flavor ts
    | .element e => valuesOf flavor e ++ wordingsAll flavor ts
    | .text t => escapeText flavor t :: wordingsAll flavor ts
    | .data t => t :: wordingsAll flavor ts
    | .css t => t :: wordingsAll flavor ts
    | .comment t => commentText t :: wordingsAll flavor ts
    | .doctype t => doctypeText t :: wordingsAll flavor ts
    | .instruction target data => instructionText flavor target data :: wordingsAll flavor ts

def wordingsAll (flavor : Flavor) : List (Tree Node) → List Text
  | [] => []
  | t :: ts => wordings flavor t ++ wordingsAll flavor ts

end

mutual

/-- The attribute values, comments, document types and instructions of a subtree, and the texts in
its preformatted elements, as they are written. What is in a style element, or in an element that
has no end tag, does not count. Only elements have nodes below them. -/
def fixedTexts (flavor : Flavor) : Tree Node → List Text
  | .node value ts =>
    match value with
    | .document => fixedTextsAll flavor ts
    | .element e =>
      if isVoid flavor e then valuesOf flavor e
      else if isPreformatted flavor e then valuesOf flavor e ++ wordingsAll flavor ts
      else if flavor = .html ∧ e.isStyle then valuesOf flavor e
      else valuesOf flavor e ++ fixedTextsAll flavor ts
    | .comment t => [commentText t]
    | .doctype t => [doctypeText t]
    | .instruction target data => [instructionText flavor target data]
    | _ => []

def fixedTextsAll (flavor : Flavor) : List (Tree Node) → List Text
  | [] => []
  | t :: ts => fixedTexts flavor t ++ fixedTextsAll flavor ts

end

/-! ## Texts in pieces -/

namespace HeldIn

variable {texts more pieces others : List Text} {p q s t : Text}

theorem eq_nil (h : HeldIn texts []) : texts = [] := by
  cases h
  rfl

theorem exists_piece (h : HeldIn texts pieces) (ht : t ∈ texts) : ∃ p ∈ pieces, t <:+: p := by
  induction h with
  | nil pieces => cases ht
  | skip _ ih =>
    obtain ⟨p, hp, hwithin⟩ := ih ht
    exact ⟨p, List.mem_cons_of_mem _ hp, hwithin⟩
  | @found texts rest pieces before first _ ih =>
    rcases List.mem_cons.1 ht with rfl | ht
    · exact ⟨_, List.mem_cons_self, before, rest, rfl⟩
    · obtain ⟨p, hp, hwithin⟩ := ih ht
      rcases List.mem_cons.1 hp with rfl | hp
      · exact ⟨_, List.mem_cons_self, hwithin.trans (List.suffix_append _ _).isInfix⟩
      · exact ⟨p, List.mem_cons_of_mem _ hp, hwithin⟩

theorem singleton (before t after : Text) : HeldIn [t] [before ++ t ++ after] :=
  found before t (nil [after])

theorem self (t : Text) : HeldIn [t] [t] := by
  simpa using singleton [] t []

/-- More may stand in front of a piece. -/
theorem prepend (s : Text) (h : HeldIn texts (p :: pieces)) :
    HeldIn texts ((s ++ p) :: pieces) := by
  cases h with
  | nil => exact nil _
  | skip held => exact skip held
  | found before t held =>
    rw [← List.append_assoc, ← List.append_assoc]
    exact found (s ++ before) t held

theorem glue (h : HeldIn texts [p]) (hmore : HeldIn more (q :: pieces)) :
    HeldIn (texts ++ more) ((p ++ q) :: pieces) := by
  generalize hp : [p] = parts at h
  induction h generalizing p with
  | nil => exact hmore.prepend p
  | skip held =>
    cases hp
    rw [held.eq_nil]
    exact hmore.prepend _
  | found before t _ ih =>
    cases hp
    rw [List.append_assoc, List.cons_append]
    exact found before t (ih rfl)

theorem append_text (s : Text) (h : HeldIn texts [p]) : HeldIn texts [p ++ s] := by
  simpa using h.glue (nil [s])

theorem append (h : HeldIn texts pieces) (hmore : HeldIn more others) :
    HeldIn (texts ++ more) (pieces ++ others) := by
  induction h with
  | nil pieces =>
    induction pieces with
    | nil => exact hmore
    | cons piece pieces ih => exact skip ih
  | skip _ ih => exact skip ih
  | found before t _ ih => exact found before t ih

theorem append_pieces (others : List Text) (h : HeldIn texts pieces) :
    HeldIn texts (pieces ++ others) := by
  simpa using h.append (nil others)

end HeldIn

/-! ## Tags and preformatted content -/

variable {flavor : Flavor}

theorem heldIn_attributeText (flavor : Flavor) (name value : Text) :
    HeldIn [escapeAttribute flavor value] [attributeText flavor name value] := by
  rw [attributeText]
  split
  next hempty =>
    rw [hempty.2, escapeAttribute_nil, ← List.append_nil (' ' :: name)]
    exact (HeldIn.self []).prepend _
  next => exact HeldIn.singleton _ _ _

theorem heldIn_startTag (flavor : Flavor) (e : Element) (closed : Bool) :
    HeldIn (valuesOf flavor e) [startTag flavor e closed] := by
  have hattributes (attributes : List (Text × Text)) :
      HeldIn (attributes.map fun (_, value) => escapeAttribute flavor value)
        [attributes.flatMap fun (name, value) => attributeText flavor name value] := by
    induction attributes with
    | nil => exact .nil _
    | cons first attributes ih => exact (heldIn_attributeText flavor first.1 first.2).glue ih
  exact ((hattributes e.attributes).prepend _).append_text _

mutual

/-- Preformatted content is written with all its texts whole. -/
theorem heldIn_verbatim (flavor : Flavor) :
    (t : Tree Node) → HeldIn (wordings flavor t) [verbatim flavor t]
  | .node value ts => by
    have ih := heldIn_verbatimAll flavor ts
    cases value with
    | document =>
      rw [wordings, verbatim]
      exact ih
    | element e =>
      rw [wordings, verbatim]
      split
      next hempty =>
        obtain rfl : ts = [] := by simpa using hempty.2
        rw [wordingsAll, List.append_nil]
        exact heldIn_startTag flavor e true
      next => exact ((heldIn_startTag flavor e false).glue ih).append_text _
    | _ =>
      rw [wordings, verbatim]
      exact (HeldIn.self _).glue ih

theorem heldIn_verbatimAll (flavor : Flavor) :
    (ts : List (Tree Node)) → HeldIn (wordingsAll flavor ts) [verbatimAll flavor ts]
  | [] => .nil _
  | t :: ts => by
    rw [wordingsAll, verbatimAll]
    exact (heldIn_verbatim flavor t).glue (heldIn_verbatimAll flavor ts)

end

/-! ## Lines -/

variable {style : Style}

theorem HeldIn.line {texts : List Text} {t : Text} (h : HeldIn texts [t]) (style : Style)
    (depth : Nat) : HeldIn texts [style.line depth t] :=
  h.prepend _

/-- Character data between tags holds nothing that stays whole. -/
theorem fixedTextsAll_eq_nil {ts : List (Tree Node)}
    (h : ∀ v ∈ ts.map value, v.text?.isSome) : fixedTextsAll flavor ts = [] := by
  induction ts with
  | nil => rfl
  | cons t ts ih =>
    obtain ⟨v, us⟩ := t
    rw [List.map_cons, List.forall_mem_cons] at h
    rw [fixedTextsAll, ih h.2, List.append_nil]
    cases v with
    | text t => rfl
    | data t => rfl
    | css t => rfl
    | _ => cases h.1

theorem isSome_text?_of_isBlankNode {v : Node} (h : isBlankNode v = true) : v.text?.isSome := by
  cases v with
  | text t => rfl
  | data t => rfl
  | _ => cases h

/-- Nodes are character data if those of them that count are. -/
theorem isSome_text?_of_filter {nodes : List Node}
    (h : ∀ v ∈ nodes.filter fun v => !isBlankNode v, v.text?.isSome) :
    ∀ v ∈ nodes, v.text?.isSome := by
  intro v hv
  by_cases hblank : isBlankNode v = true
  · exact isSome_text?_of_isBlankNode hblank
  · exact h v (List.mem_filter.2 ⟨hv, by simpa using hblank⟩)

theorem singleSegment?_eq_some {nodes : List Node} {line : Text}
    (h : singleSegment? nodes = some line) : ∃ t, nodes = [.text t] := by
  unfold singleSegment? at h
  split at h
  next t => exact ⟨t, rfl⟩
  next => cases h

theorem heldIn_styleLines {texts : List Text} {tag : Text} (h : HeldIn texts [tag]) (depth : Nat)
    (e : Element) (children : List Node) :
    HeldIn texts (styleLines style depth tag e children) := by
  rw [styleLines]
  split
  · exact (h.append_text _).line style depth
  · split
    · exact (h.append_text _).line style depth
    · exact (((h.append_text _).line style depth).append_pieces _)

/-- The lines of an element hold what they should if those of its children do. -/
theorem heldIn_element (h : Nat) (e : Element) (ancestors : Nat) (ts : List (Tree (Nat × Node)))
    (hts : HeldIn (fixedTextsAll flavor (mapAll Prod.snd ts))
      (linesOfAll flavor style (ancestors + 1) ts)) :
    HeldIn (fixedTexts flavor (.node (.element e) (mapAll Prod.snd ts)))
      (linesOf flavor style ancestors (.node (h, .element e) ts)) := by
  have htag := heldIn_startTag flavor e
  have hchildren : (mapAll Prod.snd ts).map value = ts.map fun t => t.value.2 :=
    map_value_mapAll Prod.snd ts
  simp only [fixedTexts, linesOf, entryLines, value_node, children_node,
    elementLines, exitLines, layoutOf]
  by_cases hvoid : isVoid flavor e = true
  · simp only [if_pos hvoid, if_true]
    exact (htag false).line style _
  by_cases hpre : isPreformatted flavor e = true
  · simp only [if_neg hvoid, if_pos hpre, if_true, inlineAll_eq_verbatimAll]
    have hverbatim := heldIn_verbatimAll flavor (mapAll Prod.snd ts)
    exact ((((htag false).append_text _).glue hverbatim).append_text _).line style _
  by_cases hstyle : flavor = .html ∧ e.isStyle = true
  · simp only [if_neg hvoid, if_neg hpre, if_pos hstyle, if_true]
    exact heldIn_styleLines (htag false) _ e _
  simp only [if_neg hvoid, if_neg hpre, if_neg hstyle]
  cases hcounting : (ts.map fun t => t.value.2).filter fun v => !isBlankNode v with
  | nil =>
    have hnone : fixedTextsAll flavor (mapAll Prod.snd ts) = [] :=
      fixedTextsAll_eq_nil (hchildren ▸ isSome_text?_of_filter (by simp [hcounting]))
    rw [hnone, List.append_nil]
    cases flavor with
    | html => exact ((htag false).append_text _).line style _
    | xml => exact (htag true).line style _
  | cons v vs =>
    cases honly : if style.inlineSingleText then singleSegment? (v :: vs) else none with
    | none =>
      simp only [honly, Bool.false_eq_true, if_false]
      exact (((htag false).line style _).append hts).append_pieces _
    | some line =>
      obtain ⟨-, hsingle⟩ := Option.ite_none_right_eq_some.1 honly
      obtain ⟨t, hv⟩ := singleSegment?_eq_some hsingle
      have hnone : fixedTextsAll flavor (mapAll Prod.snd ts) = [] := by
        refine fixedTextsAll_eq_nil (hchildren ▸ isSome_text?_of_filter ?_)
        simp [hcounting, hv, Node.text?]
      simp only [honly, if_true]
      rw [hnone, List.append_nil]
      exact (((htag false).append_text _).append_text _).line style _

mutual

/-- The lines of a subtree hold its attribute values, comments, document types and instructions, and
the texts in its preformatted elements. -/
theorem heldIn_linesOf (flavor : Flavor) (style : Style) (ancestors : Nat) :
    (t : Tree (Nat × Node)) →
      HeldIn (fixedTexts flavor (t.map Prod.snd)) (linesOf flavor style ancestors t)
  | .node (h, value) ts => by
    have ih := heldIn_linesOfAll flavor style (ancestors + 1) ts
    cases value with
    | document => simpa [linesOf, Tree.map, fixedTexts, entryLines, exitLines] using ih
    | element e =>
      rw [Tree.map]
      exact heldIn_element h e ancestors ts ih
    | text t => exact .nil _
    | data t => exact .nil _
    | css t => exact .nil _
    | comment t => exact (HeldIn.self _).line style _
    | doctype t => exact (HeldIn.self _).line style _
    | instruction target data => exact (HeldIn.self _).line style _

theorem heldIn_linesOfAll (flavor : Flavor) (style : Style) (ancestors : Nat) :
    (ts : List (Tree (Nat × Node))) →
      HeldIn (fixedTextsAll flavor (mapAll Prod.snd ts)) (linesOfAll flavor style ancestors ts)
  | [] => .nil _
  | t :: ts => by
    rw [mapAll, fixedTextsAll, linesOfAll]
    exact (heldIn_linesOf flavor style ancestors t).append
      (heldIn_linesOfAll flavor style ancestors ts)

end

theorem Document.heldIn_lines (style : Style) (d : Document) :
    HeldIn (fixedTexts d.flavor (d.tree.map Prod.snd)) (d.lines style) := by
  rw [d.lines_eq_linesOf]
  exact heldIn_linesOf d.flavor style 0 d.tree

end Markup

end PrettyPayload
