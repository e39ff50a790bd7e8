import PrettyPayload.Proofs.Markup.Contents
import PrettyPayload.Proofs.Markup.Edit

/-!
# Where an element is written

A place in a tree is the way down to it. `Document.serialize_restores_lineFeed` says what stands at
a place in the text of an HTML document if an element is put there whose start tag takes a line feed
behind it along when it is read: in front of the content of the element, a line feed is written for
the one that reading takes away. This is so at every place outside preformatted content. Inside, the
line feed is left out, and there reading takes one from the text.

A place may also be one that is not written at all, by the names of the elements above it; what is
put there does not show.
-/

namespace PrettyPayload

namespace Markup

open PrettyPayload.Tree

variable {options : Options} {ancestors : Nat} {e : Element} {ts : List (Tree Node)}

/-! ## Definitions -/

/-- A place in a tree: its root, or a place in one of the subtrees below the root, with those on
either side of it. -/
inductive Place where
  | here
  | under (v : Node) (left : List (Tree Node)) (p : Place) (right : List (Tree Node))

def Node.shows : Node → Bool
  | .document => true
  | .element e => !isVoid .html e && (Markup.isPreformatted .html e || !e.isStyle)
  | _ => false

namespace Place

def fill : Place → Tree Node → Tree Node
  | here, t => t
  | under v left p right, t => .node v (left ++ p.fill t :: right)

def isPreformatted : Place → Bool
  | here => false
  | under v _ p _ => v.isPreformatted || p.isPreformatted

/-- Whether an element at a place is written. In preformatted content, everything is. -/
def isShown : Place → Bool
  | here => true
  | under v _ p _ => v.shows && (v.isPreformatted || p.isShown)

end Place

/-- An element as it is written, the line feed in front of its content only outside preformatted
content. -/
def elementText (preformatted : Bool) (e : Element) (ts : List (Tree Node)) : Text :=
  startTag .html e false ++
    ((if preformatted then [] else leadingLineFeed .html e (ts.map value)) ++
      verbatimAll .html ts) ++ endTag e

/-! ## Elements by name -/

theorem isVoid_of_isPreformatted (h : isPreformatted .html e = true) : isVoid .html e = false := by
  have hall : ∀ name ∈ preformattedElements, voidElements.contains name = false := by decide
  rw [isVoid, hall e.name (List.contains_iff_mem.1 h), Bool.and_false]

theorem isPreformatted_of_mem (h : e.name ∈ lineFeedElements) : isPreformatted .html e = true := by
  have hall : ∀ name ∈ lineFeedElements, preformattedElements.contains name = true := by decide
  exact hall e.name h

theorem entries_of_isPreformatted (h : isPreformatted .html e = true) :
    entries .html options ancestors (.node (.element e) ts) =
      [Text.times (ancestors - 1) options.indent ++ elementText false e ts] := by
  rw [entries, elementText]
  simp [isVoid_of_isPreformatted h, h]

/-! ## Preformatted content -/

/-- Preformatted content stands between what its node starts with and an end tag. -/
theorem exists_verbatim_node (v : Node) :
    ∃ front back : Text, ∀ ts,
      verbatim .html (.node v ts) = front ++ verbatimAll .html ts ++ back := by
  have hleaf {t : Text} (h : ∀ ts, verbatim .html (.node v ts) = t ++ verbatimAll .html ts) :
      ∃ front back : Text, ∀ ts,
        verbatim .html (.node v ts) = front ++ verbatimAll .html ts ++ back :=
    ⟨t, [], fun ts => (h ts).trans (List.append_nil _).symm⟩
  cases v with
  | document => exact hleaf (t := []) fun _ => rfl
  | element e =>
    refine ⟨startTag .html e false, if isVoid .html e then [] else endTag e, fun ts => ?_⟩
    rw [verbatim, if_neg (by simp)]
  | text t => exact hleaf fun _ => rfl
  | data t => exact hleaf fun _ => rfl
  | css t => exact hleaf fun _ => rfl
  | comment t => exact hleaf fun _ => rfl
  | doctype t => exact hleaf fun _ => rfl
  | instruction target data => exact hleaf fun _ => rfl

/-- Preformatted content is written with the same text on either side of a place, whatever is put
there. -/
theorem exists_verbatim_fill (p : Place) :
    ∃ front back : Text, ∀ t, verbatim .html (p.fill t) = front ++ verbatim .html t ++ back := by
  induction p with
  | here => exact ⟨[], [], fun t => by rw [Place.fill, List.nil_append, List.append_nil]⟩
  | under v left p right ih =>
    obtain ⟨front, back, ih⟩ := ih
    obtain ⟨before, behind, hnode⟩ := exists_verbatim_node v
    refine ⟨before ++ verbatimAll .html left ++ front,
      back ++ verbatimAll .html right ++ behind, fun t => ?_⟩
    rw [Place.fill, hnode, verbatimAll_append, verbatimAll, ih]
    simp only [List.append_assoc]

theorem verbatim_element (h : isPreformatted .html e = true) :
    verbatim .html (.node (.element e) ts) = elementText true e ts := by
  rw [verbatim, elementText]
  simp [isVoid_of_isPreformatted h]

/-! ## Indented content -/

theorem text?_fill (p : Place) (e e' : Element) (ts ts' : List (Tree Node)) :
    (p.fill (.node (.element e) ts)).value.text? =
      (p.fill (.node (.element e') ts')).value.text? := by
  cases p <;> rfl

theorem text?_fill_of_isShown {p : Place} (h : p.isShown = true) (e : Element)
    (ts : List (Tree Node)) : (p.fill (.node (.element e) ts)).value.text? = none := by
  cases p with
  | here => rfl
  | under v left p right =>
    have hshows : v.shows = true := (Bool.and_eq_true_iff.1 h).1
    cases v with
    | document => rfl
    | element e => rfl
    | _ => cases hshows

theorem entries_of_text?_eq_none {t : Tree Node} (hvoid : isVoid .html e = false)
    (hpre : isPreformatted .html e = false) (hstyle : e.isStyle = false) (ht : t ∈ ts)
    (htext : t.value.text? = none) :
    entries .html options ancestors (.node (.element e) ts) =
      (Text.times (ancestors - 1) options.indent ++ startTag .html e false) ::
        entriesOfAll .html options (ancestors + 1) ts ++
          [Text.times (ancestors - 1) options.indent ++ endTag e] := by
  have hsome {v : Node} (hv : v.text?.isSome) : t.value ≠ v := by
    rintro rfl
    rw [htext] at hv
    cases hv
  have hblank : isBlankNode t.value = false := by
    cases h : isBlankNode t.value with
    | false => rfl
    | true => exact absurd rfl (hsome (isSome_text?_of_isBlankNode h))
  have hall : (ts.map value).all isBlankNode = false := by
    rw [List.all_eq_false]
    exact ⟨t.value, List.mem_map_of_mem ht, by simp [hblank]⟩
  have honly : onlyLine? options (ts.map value) = none := by
    cases h : onlyLine? options (ts.map value) with
    | none => rfl
    | some line =>
      obtain ⟨text, below, hfilter, -⟩ := onlyLine?_eq_some h
      have hmem : t ∈ ts.filter fun t => !isBlankNode t.value :=
        List.mem_filter.2 ⟨ht, by simp [hblank]⟩
      rw [hfilter, List.mem_singleton] at hmem
      subst hmem
      cases htext
  rw [entries]
  simp [hvoid, hpre, hstyle, hall, honly]

theorem exists_entries_verbatim {e' : Element} (h : isPreformatted .html e' = true)
    (left right : List (Tree Node)) (p : Place) (options : Options) (ancestors : Nat) :
    ∃ front back : Text, ∀ e ts, isPreformatted .html e = true →
      entries .html options ancestors
          ((Place.under (.element e') left p right).fill (.node (.element e) ts)) =
        [front ++ elementText true e ts ++ back] := by
  obtain ⟨before, behind, hfill⟩ := exists_verbatim_fill p
  let bare : Tree Node := p.fill (.node (.element e') [])
  refine ⟨Text.times (ancestors - 1) options.indent ++ startTag .html e' false ++
      leadingLineFeed .html e' ((left ++ bare :: right).map value) ++ verbatimAll .html left ++
        before,
    behind ++ verbatimAll .html right ++ endTag e', fun e ts he => ?_⟩
  have hfeed :
      leadingLineFeed .html e' ((left ++ p.fill (.node (.element e) ts) :: right).map value) =
        leadingLineFeed .html e' ((left ++ bare :: right).map value) := by
    cases left with
    | nil => simp [leadingLineFeed, bare, text?_fill p e e' ts []]
    | cons t left => rfl
  rw [Place.fill, entries_of_isPreformatted h, elementText, if_neg Bool.false_ne_true, hfeed,
    verbatimAll_append, verbatimAll, hfill, verbatim_element he]
  simp only [List.append_assoc]

/-- An element at a place that is written stands in one piece, with the same text on either side of
it whatever its name and content are. -/
theorem exists_entries_fill {p : Place} (h : p.isShown = true) (options : Options)
    (ancestors : Nat) :
    ∃ (pieces : List Text) (front back : Text) (others : List Text), ∀ e ts,
      isPreformatted .html e = true →
        entries .html options ancestors (p.fill (.node (.element e) ts)) =
          pieces ++ (front ++ elementText p.isPreformatted e ts ++ back) :: others := by
  induction p generalizing ancestors with
  | here =>
    refine ⟨[], Text.times (ancestors - 1) options.indent, [], [], fun e ts he => ?_⟩
    rw [Place.fill, entries_of_isPreformatted he, List.append_nil]
    rfl
  | under v left p right ih =>
    obtain ⟨hshows, hbelow⟩ := Bool.and_eq_true_iff.1 h
    cases v with
    | document =>
      obtain ⟨pieces, front, back, others, ih⟩ := ih hbelow (ancestors + 1)
      refine ⟨entriesOfAll .html options (ancestors + 1) left ++ pieces, front, back,
        others ++ entriesOfAll .html options (ancestors + 1) right, fun e ts he => ?_⟩
      rw [Place.fill, entries, entriesOfAll_append, entriesOfAll, ih e ts he]
      simp only [List.append_assoc, List.cons_append]
      rfl
    | element e' =>
      cases hpre : isPreformatted .html e' with
      | true =>
        obtain ⟨front, back, hentries⟩ :=
          exists_entries_verbatim hpre left right p options ancestors
        have hplace : (Place.under (.element e') left p right).isPreformatted = true := by
          simp [Place.isPreformatted, Node.isPreformatted, Node.element?, hpre]
        exact ⟨[], front, back, [], fun e ts he => by rw [hentries e ts he, hplace]; rfl⟩
      | false =>
        have hv : (Node.element e').isPreformatted = false := hpre
        rw [hv, Bool.false_or] at hbelow
        obtain ⟨hvoid, hstyle⟩ : isVoid .html e' = false ∧ e'.isStyle = false := by
          simpa [Node.shows, hpre] using hshows
        obtain ⟨pieces, front, back, others, ih⟩ := ih hbelow (ancestors + 1)
        refine ⟨(Text.times (ancestors - 1) options.indent ++ startTag .html e' false) ::
            entriesOfAll .html options (ancestors + 1) left ++ pieces, front, back,
          others ++ entriesOfAll .html options (ancestors + 1) right ++
            [Text.times (ancestors - 1) options.indent ++ endTag e'], fun e ts he => ?_⟩
        have hplace :
            (Place.under (.element e') left p right).isPreformatted = p.isPreformatted := by
          rw [Place.isPreformatted, hv, Bool.false_or]
        rw [Place.fill, entries_of_text?_eq_none hvoid hpre hstyle
          (List.mem_append_right left List.mem_cons_self) (text?_fill_of_isShown hbelow e ts),
          entriesOfAll_append, entriesOfAll, ih e ts he, hplace]
        simp only [List.append_assoc, List.cons_append]
    | _ => cases hshows

/-! ## Hidden places -/

theorem map_value_fill {p : Place} (h : p.isShown = false) (left right : List (Tree Node))
    (t t' : Tree Node) :
    (left ++ p.fill t :: right).map value = (left ++ p.fill t' :: right).map value := by
  cases p with
  | here => cases h
  | under v l p r => rw [List.map_append, List.map_append]; rfl

/-- Where the names of the elements above leave no room for a place, it does not show which element
is put there. -/
theorem entries_fill_of_hidden {p : Place} (h : p.isShown = false) (options : Options)
    (e e' : Element) (ts ts' : List (Tree Node)) (ancestors : Nat) :
    entries .html options ancestors (p.fill (.node (.element e) ts)) =
      entries .html options ancestors (p.fill (.node (.element e') ts')) := by
  induction p generalizing ancestors with
  | here => cases h
  | under v left p right ih =>
    rw [Place.fill, Place.fill]
    by_cases hroom : v.shows = true
    · rw [Place.isShown, hroom, Bool.true_and, Bool.or_eq_false_iff] at h
      have hvalue : IsLaidOut .html v := by
        cases v with
        | element e =>
          have hpre : isPreformatted .html e = false := h.1
          simpa [Node.shows, IsLaidOut, hpre] using hroom
        | _ => trivial
      have hvalues :=
        map_value_fill h.2 left right (.node (.element e) ts) (.node (.element e') ts')
      refine entries_congr hvalue (fun ancestors => ?_) (by rw [hvalues]) (by rw [hvalues])
      rw [entriesOfAll_insert, entriesOfAll_insert, ih h.2]
    · cases v with
      | document => exact absurd rfl hroom
      | element parent =>
        rw [entries, entries]
        by_cases hvoid : isVoid .html parent = true
        · rw [if_pos hvoid, if_pos hvoid]
        · obtain ⟨hpre, hstyle⟩ : isPreformatted .html parent = false ∧ parent.isStyle = true := by
            simpa [Node.shows, hvoid] using hroom
          have hsheet : stylesheetOf ((left ++ p.fill (.node (.element e) ts) :: right).map value) =
              stylesheetOf ((left ++ p.fill (.node (.element e') ts') :: right).map value) := by
            simp only [stylesheetOf, textOf, List.map_append, List.map_cons, List.flatMap_append,
              List.flatMap_cons, text?_fill p e e' ts ts']
          simp only [if_neg hvoid, hpre, hstyle, hsheet, Bool.false_eq_true, if_false, and_self,
            if_true]
      | _ => rw [entries, entries]

/-! ## Line feeds in front of content -/

/-- Nodes are written with the first text of theirs in front, if they are written as they were
read. -/
theorem head?_verbatimAll_of_text? {v : Node} {us : List (Tree Node)} {t : Text}
    (h : v.text? = some ('\n' :: t)) :
    (verbatimAll .html (.node v us :: ts)).head? = some '\n' := by
  cases v with
  | text s => obtain rfl := Option.some.inj h; rfl
  | data s => obtain rfl := Option.some.inj h; rfl
  | css s => obtain rfl := Option.some.inj h; rfl
  | _ => cases h

theorem leadingLineFeed_of_text? {v : Node} {us : List (Tree Node)} {t : Text}
    (hname : e.name ∈ lineFeedElements) (h : v.text? = some ('\n' :: t)) :
    leadingLineFeed .html e ((Tree.node v us :: ts).map value) = ['\n'] := by
  rw [leadingLineFeed, if_pos]
  exact ⟨rfl, List.contains_iff_mem.2 hname, by simp [h]⟩

theorem joinWith_append_cons (separator : Text) (pieces others : List Text)
    (front t back : Text) :
    Text.joinWith separator (pieces ++ (front ++ t ++ back) :: others) =
      Text.joinWith separator (pieces ++ [front]) ++ t ++
        Text.joinWith separator (back :: others) := by
  cases pieces with
  | nil => simp [Text.joinWith_cons]
  | cons piece pieces => simp [Text.joinWith_cons]

namespace Document

/-- At a place that is written, an element that takes a line feed along stands between two texts
that do not depend on it. If its content starts with a line feed, then behind its start tag one more
is written, and to drop that one gives back the content, exactly where the place is outside
preformatted content; inside, the content alone is written. At any other place the element does not
show. -/
theorem serialize_restores_lineFeed (options : Options) (p : Place) :
    (p.isShown = true →
      ∃ front back : Text, ∀ (d : Document) (e : Element) (v : Node) (us ts : List (Tree Node))
        (t : Text), d.flavor = .html →
          d.tree.map Prod.snd = p.fill (.node (.element e) (.node v us :: ts)) →
          e.name ∈ lineFeedElements → v.text? = some ('\n' :: t) →
            let written := verbatimAll .html (.node v us :: ts)
            ∃ content : Text,
              d.serialize options =
                front ++ (startTag .html e false ++ content ++ endTag e) ++ back ∧
              written.head? = some '\n' ∧
              content = (if p.isPreformatted then [] else ['\n']) ++ written ∧
              (content.drop 1 = written ↔ p.isPreformatted = false)) ∧
    (p.isShown = false →
      ∀ (d d' : Document) (e e' : Element) (ts ts' : List (Tree Node)),
        d.flavor = .html → d'.flavor = .html →
        d.tree.map Prod.snd = p.fill (.node (.element e) ts) →
        d'.tree.map Prod.snd = p.fill (.node (.element e') ts') →
          d.serialize options = d'.serialize options) := by
  constructor
  · intro hshown
    obtain ⟨pieces, front, back, others, hentries⟩ := exists_entries_fill hshown options 0
    refine ⟨Text.joinWith options.newline (pieces ++ [front]),
      Text.joinWith options.newline (back :: others), ?_⟩
    intro d e v us ts t hflavor htree hname hfeed written
    have hhead : written.head? = some '\n' := head?_verbatimAll_of_text? hfeed
    have hserialize := d.serialize_eq options
    rw [hflavor, htree, hentries e _ (isPreformatted_of_mem hname), joinWith_append_cons,
      elementText, leadingLineFeed_of_text? hname hfeed] at hserialize
    refine ⟨_, hserialize, hhead, rfl, ?_⟩
    cases p.isPreformatted with
    | false => simp [written]
    | true =>
      -- A text that starts with a line feed is longer than without it.
      obtain ⟨rest, hrest⟩ := List.head?_eq_some_iff.1 hhead
      simp only [if_true, List.nil_append, reduceCtorEq, iff_false]
      change written.drop 1 ≠ written
      simp [hrest]
  · intro hhidden d d' e e' ts ts' hflavor hflavor' htree htree'
    rw [d.serialize_eq, d'.serialize_eq, hflavor, hflavor', htree, htree',
      entries_fill_of_hidden hhidden options e e' ts ts' 0]

def samplePre (t : Text) : Tree Node := .node (.element ⟨"pre".toList, []⟩) [.node (.text t) []]

def samplePlace : Place :=
  .under .document [] (.under (.element ⟨"div".toList, []⟩) [.node (.text ['a']) []] .here []) []

theorem serialize_restores_lineFeed_samplePlace :
    let d := ofTrees .html [.node (.element ⟨"div".toList, []⟩)
      [.node (.text ['a']) [], samplePre ['\n', 'b']]]
    samplePlace.isShown = true ∧ samplePlace.isPreformatted = false ∧ d.flavor = .html ∧
      d.tree.map Prod.snd = samplePlace.fill (samplePre ['\n', 'b']) ∧
      ∃ front content back : Text,
        d.serialize .standard = front ++ ("<pre>".toList ++ content ++ "</pre>".toList) ++ back ∧
        content.drop 1 = ['\n', 'b'] := by
  intro d
  have htree : d.tree.map Prod.snd = samplePlace.fill (samplePre ['\n', 'b']) := tree_ofTrees _ _
  obtain ⟨front, back, hplace⟩ :=
    (serialize_restores_lineFeed .standard samplePlace).1 (by decide)
  obtain ⟨content, hserialize, -, -, hdrop⟩ :=
    hplace d ⟨"pre".toList, []⟩ (.text ['\n', 'b']) [] [] ['b'] (flavor_ofTrees _ _) htree
      (by decide) rfl
  exact ⟨by decide, by decide, flavor_ofTrees _ _, htree, front, content, back, hserialize,
    (hdrop.2 (by decide)).trans (by decide)⟩

/-- In a preformatted element, the line feed that reading takes away is not restored. -/
theorem lineFeed_lost_in_pre :
    let d := ofTrees .html [.node (.element ⟨"pre".toList, []⟩) [samplePre ['\n', 'x']]]
    d.serialize .standard = "<pre><pre>\nx</pre></pre>".toList ∧
      d.serialize .standard ≠ "<pre><pre>\n\nx</pre></pre>".toList := by
  intro d
  have hserialize : d.serialize .standard = "<pre><pre>\nx</pre></pre>".toList := by
    rw [d.serialize_eq, flavor_ofTrees, tree_ofTrees]
    decide
  rw [hserialize]
  exact ⟨rfl, by decide⟩

end Document

end Markup

end PrettyPayload
