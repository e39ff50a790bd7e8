import PrettyPayload.Proofs.Markup.Built
import PrettyPayload.Proofs.Markup.Opening
import PrettyPayload.Proofs.Markup.Spread

/-!
# Written documents read again

A document that is written as XML is read again, part by part: its declaration, the comments and
instructions before the root element, the root element with the layout in its texts, and the
comments and instructions behind it. Nothing in it is taken for a document type.
-/

namespace PrettyPayload

namespace Markup

open PrettyPayload.Tree Xml

variable {options : Options}

/-! ## Definitions -/

def Node.isRemark : Node → Bool
  | .comment _ => true
  | .instruction .. => true
  | _ => false

def IsRemark (t : Tree Node) : Prop := t.Each WritableAt ∧ t.value.isRemark = true

/-- Trees of the top level as they are written, each behind a line ending. -/
def topText (options : Options) (ts : List (Tree Node)) : Text :=
  verbatimAll .xml (spreadAll options 0 ts)

/-! ## Comments and instructions -/

theorem isText_of_isRemark {t : Tree Node} (h : IsRemark t) : t.value.isText = false := by
  have hremark := h.2
  cases hv : t.value with
  | text s =>
    rw [hv] at hremark
    cases hremark
  | _ => rfl

theorem remark?_verbatim {t : Tree Node} (h : IsRemark t) (rest : Text) :
    remark? (verbatim .xml t ++ rest) = some (t.value.toXml, rest) ∧
      startsRemark (verbatim .xml t ++ rest) = true := by
  obtain ⟨⟨v, ts⟩, hwritable, hremark⟩ := t, h
  cases v with
  | comment t =>
    obtain rfl := hwritable.1.leaf rfl
    have hsplit : verbatim .xml (.node (.comment t) []) ++ rest =
        "<!--".toList ++ (t ++ ("-->".toList ++ rest)) := by
      simp [verbatim, verbatimAll, commentText]
    rw [hsplit]
    refine ⟨?_, rfl⟩
    rw [remark?, Text.dropPrefix?_append]
    simp only [comment?_append hwritable.1.node.1, Option.map_some]
    rfl
  | instruction target content =>
    obtain rfl := hwritable.1.leaf rfl
    obtain ⟨htarget, hcontent, -, hxml⟩ := hwritable.1.node
    have hsplit : verbatim .xml (.node (.instruction target content) []) ++ rest =
        "<?".toList ++ (target ++ ((if content = [] then [] else ' ' :: content) ++
          ("?>".toList ++ rest))) := by
      simp [verbatim, verbatimAll, instructionText]
    have hdrop : ∀ u, Text.dropPrefix? "<!--".toList ("<?".toList ++ u) = none := fun _ => rfl
    rw [hsplit]
    refine ⟨?_, rfl⟩
    rw [remark?, hdrop]
    simp only [instruction?_append htarget hcontent hxml, Option.map_some]
    rfl
  | _ => cases hremark

theorem lay_of_isRemark {t : Tree Node} (h : IsRemark t) (depth : Nat) :
    lay options depth t = t := by
  obtain ⟨⟨v, ts⟩, -, hremark⟩ := t, h
  cases v with
  | element e => cases hremark
  | _ => rfl

theorem topText_cons {t : Tree Node} (hindent : PlainIndent options)
    (ht : t.value.isText = false) (ts : List (Tree Node)) :
    topText options (t :: ts) =
      lineGap options 0 ++ (verbatim .xml (lay options 0 t) ++ topText options ts) := by
  rw [topText, spreadAll_of_isText_eq_false ht]
  simp [verbatimAll, verbatim, escapeText_lineGap hindent, topText]

theorem topText_append (ts us : List (Tree Node)) :
    topText options (ts ++ us) = topText options ts ++ topText options us := by
  have hspread : spreadAll options 0 (ts ++ us) =
      spreadAll options 0 ts ++ spreadAll options 0 us := by
    induction ts with
    | nil => rfl
    | cons t ts ih =>
      rw [List.cons_append, spreadAll, spreadAll]
      split <;> rw [ih] <;> rfl
  rw [topText, hspread, verbatimAll_append, topText, topText]

theorem skipSpaces_lineGap_append (hindent : PlainIndent options) (depth : Nat) {t : Text}
    (h : ∀ c, t.head? = some c → c = '<') : skipSpaces (lineGap options depth ++ t) = t := by
  rw [skipSpaces_append (space_of_lineGap hindent depth), skipSpaces_of_head?]
  intro c hc
  obtain rfl := h c hc
  decide

/-- Written comments and instructions are read up to something else. -/
theorem remarks?_topText (hindent : PlainIndent options) (stop : Nat) (rest : Text)
    (hrest : startsRemark (skipSpaces rest) = false) :
    (rs : List (Tree Node)) → (∀ r ∈ rs, IsRemark r) →
      ∃ placed, remarks? stop (topText options rs ++ rest) = some (placed, skipSpaces rest) ∧
        placed.map Placed.value = rs.map fun r => r.value.toXml
  | [], _ => ⟨[], remarks?_of_startsRemark_eq_false hrest, rfl⟩
  | r :: rs, h => by
    rw [List.forall_mem_cons] at h
    obtain ⟨placed, hplaced, hvalues⟩ := remarks?_topText hindent stop rest hrest rs h.2
    have htext := isText_of_isRemark h.1
    obtain ⟨hremark, hstart⟩ := remark?_verbatim h.1 (topText options rs ++ rest)
    have hskip : skipSpaces (topText options (r :: rs) ++ rest) =
        verbatim .xml r ++ (topText options rs ++ rest) := by
      rw [topText_cons hindent htext, lay_of_isRemark h.1, List.append_assoc, List.append_assoc,
        skipSpaces_lineGap_append hindent 0 (head?_verbatim h.1.1 htext _)]
    let place := stop - (verbatim .xml r ++ (topText options rs ++ rest)).length
    refine ⟨⟨place, r.value.toXml⟩ :: placed, ?_, by rw [List.map_cons, hvalues, List.map_cons]⟩
    rw [remarks?_of_startsRemark (by rw [hskip, hstart]), hskip, hremark, Option.bind_some,
      hplaced]
    rfl

/-! ## The root element -/

def IsRoot (t : Tree Node) : Prop := t.Each WritableAt ∧ t.value.element?.isSome = true

theorem isText_of_isRoot {t : Tree Node} (h : IsRoot t) : t.value.isText = false := by
  have helement := h.2
  cases hv : t.value with
  | text s =>
    rw [hv] at helement
    cases helement
  | _ => rfl

theorem isRoot_lay {t : Tree Node} (hindent : PlainIndent options) (h : IsRoot t) (depth : Nat) :
    IsRoot (lay options depth t) :=
  ⟨writableAt_lay hindent depth t h.1, by rw [value_lay]; exact h.2⟩

theorem isElement_toXml_of_isRoot {t : Tree Node} (h : IsRoot t) :
    Source.isElement (t.map Node.toXml) = true := by
  obtain ⟨⟨v, ts⟩, -, helement⟩ := t, h
  cases v with
  | element e => rfl
  | _ => cases helement

theorem element?_verbatim {t : Tree Node} (h : IsRoot t) (rest : Text) :
    element? (verbatim .xml t ++ rest) = some (tokensOf t, rest) := by
  obtain ⟨⟨v, ts⟩, hwritable, helement⟩ := t, h
  cases v with
  | element e =>
    cases ts with
    | nil =>
      have hread := startTag?_append hwritable.1.node true rest
      rw [verbatim, if_pos ⟨rfl, rfl⟩, startTag_eq, List.cons_append, List.append_assoc,
        List.append_assoc, element?]
      change (startTag? _).bind _ = _
      rw [hread]
      rfl
    | cons t ts =>
      have hread := startTag?_append hwritable.1.node false
        (verbatimAll .xml (t :: ts) ++ (endTag e ++ rest))
      have hclose : content? false 0 (endTag e ++ rest) = some ([.endTag e.readName], rest) := by
        have hmarkup := markup?_endTag hwritable.1.node rest
        have hsplit : endTag e ++ rest = '<' :: '/' :: (e.name ++ '>' :: rest) := by
          simp [endTag]
        rw [hsplit, content?_of_endTag hmarkup]
      have hcontent := content?_verbatimAll 0 [] (endTag e ++ rest) (List.forall_mem_nil _)
        (fun c hc => (Option.some.inj hc).symm) (t :: ts) hwritable.2
      rw [escapeText_nil, List.nil_append, hclose, Option.map_some] at hcontent
      rw [verbatim_element_of_ne_nil e (List.cons_ne_nil t ts), startTag_eq]
      simp only [List.cons_append, List.append_assoc]
      rw [element?]
      change (startTag? _).bind _ = _
      rw [hread]
      change (content? false 0 _).map _ = _
      rw [hcontent]
      simp [tokensOf]
  | _ => cases helement

theorem build_root {t : Tree Node} (h : IsRoot t) :
    build [] nestingLimit true (tokensOf t) .start =
      some (Builder.start.addAll [(merge t).map Node.toXml]) := by
  have hbuild := build_tokensOf [] t h.1 (isText_of_isRoot h) .start ⟨rfl, rfl, rfl⟩
  rw [List.append_nil, build] at hbuild
  exact hbuild

/-- An element opens with its name, unlike a comment, an instruction or a document type. -/
theorem opens_verbatim {t : Tree Node} (h : IsRoot t) (rest : Text) :
    ∃ c u, verbatim .xml t ++ rest = '<' :: c :: u ∧ isNameStart c = true := by
  obtain ⟨⟨v, ts⟩, hwritable, helement⟩ := t, h
  cases v with
  | element e =>
    obtain ⟨c, n, hn, hc⟩ := exists_cons_of_isName hwritable.1.node.1
    refine ⟨c, ?_⟩
    rw [verbatim]
    split
    · rw [startTag_eq, hn]
      exact ⟨_, rfl, hc⟩
    · rw [startTag_eq, hn]
      exact ⟨_, rfl, hc⟩
  | _ => cases helement

theorem startsRemark_verbatim {t : Tree Node} (h : IsRoot t) (rest : Text) :
    startsRemark (verbatim .xml t ++ rest) = false ∧
      Text.dropPrefix? "<!DOCTYPE".toList (verbatim .xml t ++ rest) = none := by
  obtain ⟨c, u, hopen, hc⟩ := opens_verbatim h rest
  have hbang : ¬('!' = c) := by
    rintro rfl
    exact absurd hc (by decide)
  have hquestion : ¬('?' = c) := by
    rintro rfl
    exact absurd hc (by decide)
  rw [hopen]
  constructor
  · simp [startsRemark, Text.startsWith, Text.dropPrefix?, hbang, hquestion]
  · simp [Text.dropPrefix?, hbang]

/-! ## Openings -/

theorem opensPlainly_of_isRoot {t : Tree Node} (h : IsRoot t) (rest : Text) :
    OpensPlainly (verbatim .xml t ++ rest) := by
  obtain ⟨d, u, hopen, hd⟩ := opens_verbatim h rest
  rw [hopen]
  refine ⟨⟨_, rfl⟩, ?_⟩
  rintro c v - heq
  obtain rfl : d = '?' := (List.cons.inj (List.cons.inj heq).2).1
  exact absurd hd (by decide)

theorem opensPlainly_of_isRemark {t : Tree Node} (h : IsRemark t) (rest : Text) :
    OpensPlainly (verbatim .xml t ++ rest) := by
  obtain ⟨⟨v, ts⟩, hwritable, hremark⟩ := t, h
  cases v with
  | comment t =>
    refine ⟨⟨_, rfl⟩, ?_⟩
    rintro c v - heq
    exact absurd (List.cons.inj (List.cons.inj heq).2).1 (by decide)
  | instruction target content =>
    refine ⟨⟨_, rfl⟩, ?_⟩
    intro c v hc heq
    obtain ⟨htarget, -, -, hxml⟩ := hwritable.1.node
    obtain rfl := hwritable.1.leaf rfl
    have hsplit : verbatim .xml (.node (.instruction target content) []) ++ rest =
        "<?".toList ++ (target ++ ((if content = [] then [] else ' ' :: content) ++
          ("?>".toList ++ rest))) := by
      simp [verbatim, verbatimAll, instructionText]
    rw [hsplit] at heq
    have hword : target ++ ((if content = [] then [] else ' ' :: content) ++
        ("?>".toList ++ rest)) = "xml".toList ++ c :: v :=
      (List.append_right_inj "<?".toList).1 heq
    have htail : ∀ d, ((if content = [] then [] else ' ' :: content) ++
        ("?>".toList ++ rest)).head? = some d → isNameChar d = false := by
      intro d hd
      split at hd <;> (obtain rfl := Option.some.inj hd; decide)
    have hrun := (Text.takeWhile_append_of_head? (isNameChar_of_isTarget htarget) htail).1
    rw [hword,
      (Text.takeWhile_append_of_head? (t := "xml".toList) (Text.forall_mem_of_all (by decide))
      fun d hd => Option.some.inj hd ▸ hc).1] at hrun
    exact hxml hrun.symm
  | _ => cases hremark

/-! ## Document types -/

/-- A text in which the mark of a document type does not occur. -/
def FreeOfDoctype (t : Text) : Prop := ¬"<!DOCTYPE".toList <:+: t

theorem freeOfDoctype_of_not_mem {t : Text} (h : '<' ∉ t) : FreeOfDoctype t :=
  fun hwithin => h (hwithin.subset (by decide))

theorem FreeOfDoctype.append {s t : Text} (hs : FreeOfDoctype s) (ht : FreeOfDoctype t)
    (hhead : ∀ c, t.head? = some c → c ∉ "!DOCTYPE".toList) : FreeOfDoctype (s ++ t) := by
  intro hwithin
  rcases Text.infix_or_infix_of_infix_append hhead hwithin with hwithin | hwithin
  · exact hs hwithin
  · exact ht hwithin

theorem FreeOfDoctype.append_front {s t : Text} (hs : '<' ∉ s) (ht : FreeOfDoctype t) :
    FreeOfDoctype (s ++ t) :=
  fun hwithin => ht (Text.infix_of_infix_append hs hwithin)

theorem FreeOfDoctype.cons {t : Text} (ht : FreeOfDoctype t) (h : ¬"!DOCTYPE".toList <+: t) :
    FreeOfDoctype ('<' :: t) := by
  intro hwithin
  rcases List.infix_cons_iff.1 hwithin with hbegins | hwithin
  · exact h (List.cons_prefix_cons.1 hbegins).2
  · exact ht hwithin

theorem freeOfDoctype_commentText {t : Text} (h : FreeOfDoctype t) :
    FreeOfDoctype (commentText t) := by
  have hend : FreeOfDoctype (t ++ "-->".toList) := by
    refine h.append (freeOfDoctype_of_not_mem (by decide)) ?_
    intro c hc
    exact Option.some.inj hc ▸ (by decide : '-' ∉ "!DOCTYPE".toList)
  have hfront := FreeOfDoctype.append_front (s := "!--".toList) (by decide) hend
  have hcons := hfront.cons fun hbegins =>
    absurd (List.cons_prefix_cons.1 (List.cons_prefix_cons.1 hbegins).2).1 (by decide)
  rw [commentText, List.append_assoc]
  exact hcons

theorem freeOfDoctype_instructionText {target content : Text}
    (htarget : ∀ c ∈ target, isNameChar c = true) (h : FreeOfDoctype content) :
    FreeOfDoctype (instructionText .xml target content) := by
  have hend : FreeOfDoctype (content ++ "?>".toList) := by
    refine h.append (freeOfDoctype_of_not_mem (by decide)) ?_
    intro c hc
    exact Option.some.inj hc ▸ (by decide : '?' ∉ "!DOCTYPE".toList)
  have hplain : '<' ∉ '?' :: (target ++ if content = [] then [] else [' ']) := by
    simp only [List.mem_cons, List.mem_append, not_or]
    refine ⟨by decide, fun hmem => absurd (htarget _ hmem) (by decide), ?_⟩
    split <;> decide
  have hcons := (FreeOfDoctype.append_front hplain hend).cons fun hbegins =>
    absurd (List.cons_prefix_cons.1 hbegins).1 (by decide)
  have hsplit : instructionText .xml target content =
      '<' :: (('?' :: (target ++ if content = [] then [] else [' '])) ++
        (content ++ "?>".toList)) := by
    cases content <;> simp [instructionText]
  rw [hsplit]
  exact hcons

theorem freeOfDoctype_verbatim {t : Tree Node} (h : IsRemark t)
    (hbody : FreeOfDoctype t.value.toXml.body) : FreeOfDoctype (verbatim .xml t) := by
  obtain ⟨⟨v, ts⟩, hwritable, hremark⟩ := t, h
  cases v with
  | comment t =>
    obtain rfl := hwritable.1.leaf rfl
    rw [verbatim, verbatimAll, List.append_nil]
    exact freeOfDoctype_commentText hbody
  | instruction target content =>
    obtain rfl := hwritable.1.leaf rfl
    rw [verbatim, verbatimAll, List.append_nil]
    exact freeOfDoctype_instructionText (isNameChar_of_isTarget hwritable.1.node.1) hbody
  | _ => cases hremark

theorem mark_not_mem_lineGap (hindent : PlainIndent options) (depth : Nat) :
    '<' ∉ lineGap options depth :=
  fun hmem => absurd (space_of_lineGap hindent depth _ hmem) (by decide)

theorem head?_lineGap (options : Options) (depth : Nat) (t : Text) :
    ∀ c, (lineGap options depth ++ t).head? = some c → c ∉ "!DOCTYPE".toList := by
  unfold lineGap Options.newline
  intro c hc
  cases hend : options.lineEnding <;>
    (rw [hend] at hc; obtain rfl := Option.some.inj hc; decide)

/-- The text before the root element has no mark of a document type. -/
theorem freeOfDoctype_topText (hindent : PlainIndent options) :
    (rs : List (Tree Node)) → (∀ r ∈ rs, IsRemark r ∧ FreeOfDoctype r.value.toXml.body) →
      FreeOfDoctype (topText options rs ++ lineGap options 0) ∧
        ∀ c, (topText options rs ++ lineGap options 0).head? = some c → c ∉ "!DOCTYPE".toList
  | [], _ => by
    have hhead := head?_lineGap options 0 []
    rw [List.append_nil] at hhead
    exact ⟨freeOfDoctype_of_not_mem (mark_not_mem_lineGap hindent 0), hhead⟩
  | r :: rs, h => by
    rw [List.forall_mem_cons] at h
    obtain ⟨hfree, hhead⟩ := freeOfDoctype_topText hindent rs h.2
    rw [topText_cons hindent (isText_of_isRemark h.1.1), lay_of_isRemark h.1.1, List.append_assoc,
      List.append_assoc]
    refine ⟨?_, head?_lineGap options 0 _⟩
    exact ((freeOfDoctype_verbatim h.1.1 h.1.2).append hfree hhead).append_front
      (mark_not_mem_lineGap hindent 0)

/-! ## Parts of a document -/

/-- The top level of a document that is written and read again: the data of its declaration, the
comments and instructions before the root element, the root element, and those behind it. -/
structure Parts where
  declaration : Option Text
  remarks : List (Tree Node)
  root : Tree Node
  after : List (Tree Node)
  isDeclaration : ∀ w ∈ declaration, IsDeclaration w ∧ FreeOfDoctype w
  isRemark : ∀ r ∈ remarks, IsRemark r ∧ FreeOfDoctype r.value.toXml.body
  isRoot : IsRoot root
  isAfter : ∀ r ∈ after, IsRemark r

namespace Parts

def trees (p : Parts) : List (Tree Node) := p.remarks ++ p.root :: p.after

def nodes (p : Parts) : List (Tree Node) :=
  (p.declaration.toList.map fun w => .node (.instruction "xml".toList w) []) ++ p.trees

def text (options : Options) (p : Parts) : Text :=
  Text.joinWith options.newline (entriesOfAll .xml options 1 p.nodes)

theorem writableAt_trees (p : Parts) : EachOfAll WritableAt p.trees :=
  eachOfAll_iff.2 (List.forall_mem_append.2 ⟨fun r hr => (p.isRemark r hr).1.1,
    List.forall_mem_cons.2 ⟨p.isRoot.1, fun r hr => (p.isAfter r hr).1⟩⟩)

theorem topText_trees (hindent : PlainIndent options) (p : Parts) :
    topText options p.trees = topText options p.remarks ++ (lineGap options 0 ++
      (verbatim .xml (lay options 0 p.root) ++ topText options p.after)) := by
  rw [trees, topText_append, topText_cons hindent (isText_of_isRoot p.isRoot)]

theorem flatMap_entries_trees (hindent : PlainIndent options) (p : Parts) :
    (entriesOfAll .xml options 1 p.trees).flatMap (options.newline ++ ·) =
      topText options p.trees :=
  flatMap_entriesOfAll hindent 0 p.trees p.writableAt_trees

theorem opensPlainly_trees (hindent : PlainIndent options) (p : Parts) :
    ∃ u, topText options p.trees = options.newline ++ u ∧ OpensPlainly u := by
  have hgap : lineGap options 0 = options.newline := List.append_nil _
  rw [topText_trees hindent, hgap]
  cases hremarks : p.remarks with
  | nil => exact ⟨_, rfl, opensPlainly_of_isRoot (isRoot_lay hindent p.isRoot 0) _⟩
  | cons r rs =>
    have hr : IsRemark r := (p.isRemark r (hremarks ▸ List.mem_cons_self)).1
    rw [topText_cons hindent (isText_of_isRemark hr), lay_of_isRemark hr, hgap]
    simp only [List.append_assoc]
    exact ⟨_, rfl, opensPlainly_of_isRemark hr _⟩

theorem opening_text (hindent : PlainIndent options) (p : Parts) :
    xmlDeclaration? (p.text options) = p.declaration ∧
      ∃ front u, Source.body? (p.text options) = some u ∧
        (∀ stop, remarks? stop u = remarks? stop (topText options p.trees)) ∧
        front ++ p.text options =
          (p.declaration.map (instructionText .xml "xml".toList)).getD [] ++
            topText options p.trees := by
  have hflat := flatMap_entries_trees hindent p
  cases hdeclaration : p.declaration with
  | none =>
    obtain ⟨u, hu, hopens⟩ := opensPlainly_trees hindent p
    have htext : p.text options = u := by
      have hne : entriesOfAll .xml options 1 p.trees ≠ [] := by
        intro hnil
        rw [hnil, hu] at hflat
        obtain ⟨v, rfl⟩ := hopens.1
        exact absurd hflat.symm (List.append_ne_nil_of_right_ne_nil _ (List.cons_ne_nil _ _))
      rw [Text.flatMap_append_eq_joinWith _ hne, hu] at hflat
      rw [text, nodes, hdeclaration]
      exact List.append_cancel_left hflat
    rw [htext]
    refine ⟨xmlDeclaration?_of_opensPlainly hopens, options.newline, u,
      body?_of_opensPlainly hopens, ?_, by rw [hu]; rfl⟩
    intro stop
    rw [hu, remarks?_append_spaces (space_of_newline options)]
  | some w =>
    have htext : p.text options =
        instructionText .xml "xml".toList w ++ topText options p.trees := by
      have hnodes : p.nodes = .node (.instruction "xml".toList w) [] :: p.trees := by
        rw [nodes, hdeclaration]
        rfl
      have hentries : entries .xml options 1 (.node (.instruction "xml".toList w) []) =
          [instructionText .xml "xml".toList w] := rfl
      rw [text, hnodes, entriesOfAll, hentries, List.singleton_append, Text.joinWith_cons, hflat]
    obtain ⟨hfound, hbody⟩ :=
      opening_append (p.isDeclaration w hdeclaration).1 (topText options p.trees)
    rw [htext]
    exact ⟨hfound, [], _, hbody, fun _ => rfl, rfl⟩

/-- The parts that a text is read as: the root element with its layout in its texts. -/
def relaid (hindent : PlainIndent options) (p : Parts) : Parts where
  declaration := p.declaration
  remarks := p.remarks
  root := merge (lay options 0 p.root)
  after := p.after
  isDeclaration := p.isDeclaration
  isRemark := p.isRemark
  isRoot := by
    have hroot := isRoot_lay hindent p.isRoot 0
    exact ⟨writableAt_merge _ hroot.1, by rw [value_merge]; exact hroot.2⟩
  isAfter := p.isAfter

/-- Comments and instructions stay as they were when they were read. -/
theorem map_toXml_of_isRemark {rs : List (Tree Node)} {placed : List (Placed Xml.Node)}
    (hrs : ∀ r ∈ rs, IsRemark r)
    (h : placed.map Placed.value = rs.map fun r => r.value.toXml) :
    rs.map (Tree.map Node.toXml) = (placed.map Placed.value).map (Tree.node · []) := by
  rw [h, List.map_map]
  refine List.map_congr_left ?_
  intro r hr
  obtain ⟨⟨v, ts⟩, hwritable, hremark⟩ := r, hrs r hr
  have hleaf : ts = [] := by
    refine hwritable.1.leaf ?_
    cases v with
    | element e => cases hremark
    | _ => rfl
  rw [hleaf]
  rfl

/-- No document type is found before the root element. -/
theorem findDoctype?_take (hindent : PlainIndent options) (p : Parts) (front : Text)
    {behind : Text} (h : front ++ p.text options =
      ((p.declaration.map (instructionText .xml "xml".toList)).getD [] ++
        (topText options p.remarks ++ lineGap options 0)) ++ behind) :
    findDoctype? ((p.text options).take ((p.text options).length - behind.length)) = none := by
  obtain ⟨hremarks, hhead⟩ := freeOfDoctype_topText hindent p.remarks p.isRemark
  have hfree : FreeOfDoctype ((p.declaration.map (instructionText .xml "xml".toList)).getD [] ++
      (topText options p.remarks ++ lineGap options 0)) := by
    cases hdeclaration : p.declaration with
    | none => exact hremarks
    | some w =>
      exact (freeOfDoctype_instructionText (Text.forall_mem_of_all (by decide))
        (p.isDeclaration w hdeclaration).2).append hremarks hhead
  generalize (p.declaration.map (instructionText .xml "xml".toList)).getD [] ++
    (topText options p.remarks ++ lineGap options 0) = prolog at h hfree
  have hlength := congrArg List.length h
  rw [List.length_append, List.length_append] at hlength
  have hsuffix : (p.text options).take ((p.text options).length - behind.length) <:+ prolog := by
    by_cases hle : behind.length ≤ (p.text options).length
    · refine ⟨front, ?_⟩
      have htake : (front ++ p.text options).take
          (front.length + ((p.text options).length - behind.length)) =
            front ++ (p.text options).take ((p.text options).length - behind.length) :=
        List.take_length_add_append _
      rw [← htake, h, List.take_left' (by omega)]
    · rw [Nat.sub_eq_zero_of_le (by omega), List.take_zero]
      exact List.nil_suffix
  have hnone : Text.breakAt? "<!DOCTYPE".toList
      ((p.text options).take ((p.text options).length - behind.length)) = none :=
    Text.breakAt?_eq_none_iff.2 fun hwithin => hfree (hwithin.trans hsuffix.isInfix)
  rw [findDoctype?, hnone]
  rfl

theorem parse?_text (hindent : PlainIndent options) (p : Parts) :
    ∃ source, Source.parse? (p.text options) = some source ∧
      findDoctype? source.prolog = none ∧
      mapAll Node.toXml (p.relaid hindent).trees =
        (source.remarks.map fun remark => Tree.node remark.value []) ++ source.content := by
  obtain ⟨-, front, u, hbody, hskip, hfront⟩ := opening_text hindent p
  have hroot := isRoot_lay hindent p.isRoot 0
  obtain ⟨hstart, hdoctype⟩ := startsRemark_verbatim hroot (topText options p.after)
  have hrest : skipSpaces (lineGap options 0 ++
      (verbatim .xml (lay options 0 p.root) ++ topText options p.after)) =
      verbatim .xml (lay options 0 p.root) ++ topText options p.after :=
    skipSpaces_lineGap_append hindent 0 (head?_verbatim hroot.1 (isText_of_isRoot hroot) _)
  obtain ⟨placed, hplaced, hvalues⟩ := remarks?_topText hindent (p.text options).length _
    (by rw [hrest, hstart]) p.remarks fun r hr => (p.isRemark r hr).1
  obtain ⟨placed', hplaced', hvalues'⟩ := remarks?_topText hindent
    (p.text options).length [] rfl p.after p.isAfter
  rw [hrest, ← topText_trees hindent, ← hskip] at hplaced
  rw [List.append_nil] at hplaced'
  have helement := isElement_toXml_of_isRoot (p.relaid hindent).isRoot
  refine ⟨_, Source.parse?_of_parts hbody hplaced hdoctype (element?_verbatim hroot _) hplaced'
    (build_root hroot) rfl rfl helement, ?_, ?_⟩
  · refine findDoctype?_take hindent p front ?_
    rw [hfront, topText_trees hindent]
    simp only [List.append_assoc]
  · have hremarks := map_toXml_of_isRemark (fun r hr => (p.isRemark r hr).1) hvalues
    rw [List.map_map] at hremarks
    rw [trees, mapAll_eq_map, List.map_append, List.map_cons]
    exact congr (congrArg HAppend.hAppend hremarks)
      (congrArg (List.cons _) (map_toXml_of_isRemark p.isAfter hvalues'))

theorem ofXml?_text (hindent : PlainIndent options) (p : Parts) :
    ∃ d, Document.ofXml? (p.text options) = some d ∧ d.flavor = .xml ∧
      d.tree.map Prod.snd = .node .document (p.relaid hindent).nodes := by
  obtain ⟨source, hparse, hdoctype, htrees⟩ := parse?_text hindent p
  obtain ⟨d, hd, hflavor, htree⟩ :=
    Document.ofXml?_eq_some hparse hdoctype htrees (p.relaid hindent).writableAt_trees
  refine ⟨d, hd, hflavor, ?_⟩
  rw [htree, Document.declarationNodes, (opening_text hindent p).1]
  rfl

end Parts

end Markup

end PrettyPayload
