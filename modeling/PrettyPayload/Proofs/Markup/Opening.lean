import PrettyPayload.Proofs.Markup.Tokens
import PrettyPayload.Proofs.Text.Trim

/-!
# The opening of an XML document

A document may open with a declaration, whose data becomes an instruction. The data that is found is
what the reader of XML takes for the declaration, and written again it is found again.
-/

namespace PrettyPayload

namespace Xml

/-- What is asked of a document besides being well formed: no document type and nothing that could
be taken for one, no bindings of namespaces, no carriage returns written by reference in texts, no
instruction with the target of the declaration, and no end mark inside the declaration. -/
structure Source.Plain (t : Text) (source : Source) : Prop where
  doctype : source.doctype = none
  prolog : Text.breakAt? "<!DOCTYPE".toList source.prolog = none
  remarks : ∀ remark ∈ source.remarks, remark.value.Plain
  content : Tree.AllOfAll Node.Plain source.content
  declaration : ∀ u rest, Source.dropMark t = "<?xml".toList ++ u → declaration? u = some rest →
    ∃ d, Text.breakAt? "?>".toList u = some (d, rest)

end Xml

namespace Markup

open PrettyPayload.Tree Xml

/-- The data of a declaration that is read as it was, whatever comes behind it. -/
structure IsDeclaration (w : Text) : Prop where
  row : IsRow w
  closed : ¬"?>".toList <:+: w
  reads : ∀ rest, declaration? (' ' :: (w ++ ("?>".toList ++ rest))) = some rest

/-- A text that opens a document without a declaration. -/
def OpensPlainly (t : Text) : Prop :=
  (∃ u, t = '<' :: u) ∧ ∀ c u, isNameChar c = false → t ≠ "<?xml".toList ++ c :: u

variable {t : Text} {c : Char}

theorem isNameChar_of_isAsciiBlank (h : Text.isAsciiBlank c = true) : isNameChar c = false := by
  simp only [Text.isAsciiBlank, Bool.or_eq_true, decide_eq_true_eq] at h
  rcases h with (((rfl | rfl) | rfl) | rfl) | rfl <;> decide

theorem isBlank_of_isSpace (h : isSpace c = true) : Text.isBlank c = true := by
  simp only [isSpace, Bool.or_eq_true, decide_eq_true_eq] at h
  rcases h with ((rfl | rfl) | rfl) | rfl <;> decide

/-- A row is what is left when the white space around it is trimmed away. -/
theorem trim_row {s w s' : Text} (hs : ∀ c ∈ s, isSpace c = true) (hw : IsRow w)
    (hs' : ∀ c ∈ s', isSpace c = true) : Text.trim Text.isBlank (s ++ (w ++ s')) = w := by
  rw [Text.trim_append_of_all fun c hc => isBlank_of_isSpace (hs c hc)]
  obtain ⟨⟨d, u, hhead, hd⟩, v, q, hlast, hq⟩ := hw
  have hd : Text.isBlank d = false := by
    have hall : ∀ c ∈ "ves".toList, Text.isBlank c = false :=
      Text.forall_mem_of_all (by decide)
    exact hall d hd
  have hq : Text.isBlank q = false := by
    rcases hq with rfl | rfl <;> decide
  have hstart : Text.trimStart Text.isBlank (w ++ s') = w ++ s' := by
    rw [hhead]
    exact Text.trimStart_cons hd
  rw [Text.trim, hstart, Text.trimEnd_append_of_all fun c hc => isBlank_of_isSpace (hs' c hc),
    hlast, Text.trimEnd_concat hq]

theorem xmlDeclaration?_append {u d rest : Text} (hblank : Text.isAsciiBlank c = true)
    (h : Text.breakAt? "?>".toList (c :: u) = some (d, rest)) :
    xmlDeclaration? ("<?xml".toList ++ c :: u) = some (Text.trim Text.isBlank d) := by
  have hmark : ("<?xml".toList ++ c :: u).dropWhile (· = '\uFEFF') = "<?xml".toList ++ c :: u :=
    rfl
  rw [xmlDeclaration?, hmark, Text.dropPrefix?_append]
  dsimp only
  rw [if_pos hblank, h, Option.map_some]

theorem xmlDeclaration?_of_opensPlainly (h : OpensPlainly t) : xmlDeclaration? t = none := by
  obtain ⟨⟨u, rfl⟩, hplain⟩ := h
  have hmark : ('<' :: u).dropWhile (· = '\uFEFF') = '<' :: u := rfl
  rw [xmlDeclaration?, hmark]
  split
  next c v hdrop =>
    split
    next hblank =>
      exact absurd (Text.dropPrefix?_eq_some_iff.1 hdrop)
        (hplain c v (isNameChar_of_isAsciiBlank hblank))
    next => rfl
  next => rfl

theorem body?_of_opensPlainly (h : OpensPlainly t) : Source.body? t = some t := by
  obtain ⟨⟨u, rfl⟩, hplain⟩ := h
  have hmark : Source.dropMark ('<' :: u) = '<' :: u := rfl
  rw [Source.body?, hmark, if_neg]
  rw [Text.startsWith_iff]
  rintro ⟨v, hv⟩
  exact hplain ' ' v (by decide) hv.symm

/-- A written declaration is found again, and the document goes on behind it. -/
theorem opening_append {w : Text} (h : IsDeclaration w) (rest : Text) :
    xmlDeclaration? (instructionText .xml "xml".toList w ++ rest) = some w ∧
      Source.body? (instructionText .xml "xml".toList w ++ rest) = some rest := by
  have hne : w ≠ [] := by
    obtain ⟨⟨c, u, rfl, -⟩, -⟩ := h.row
    exact List.cons_ne_nil c u
  have hsplit : instructionText .xml "xml".toList w ++ rest =
      "<?xml".toList ++ ' ' :: (w ++ ("?>".toList ++ rest)) := by
    simp [instructionText, hne]
  constructor
  · have hbreak : Text.breakAt? "?>".toList (' ' :: (w ++ ("?>".toList ++ rest))) =
        some (' ' :: w, rest) := by
      refine Text.breakAt?_append_of_not_infix (a := ' ' :: w) rest (by decide) (by decide) ?_
      rw [List.infix_cons_iff, not_or]
      exact ⟨fun hbegins => absurd (List.cons_prefix_cons.1 hbegins).1 (by decide), h.closed⟩
    have htrim : Text.trim Text.isBlank ([' '] ++ (w ++ [])) = w :=
      trim_row (Text.forall_mem_of_all (by decide)) h.row (List.forall_mem_nil _)
    rw [List.append_nil] at htrim
    rw [hsplit, xmlDeclaration?_append (by decide) hbreak]
    exact congrArg some htrim
  · have hmark : Source.dropMark ("<?xml".toList ++ ' ' :: (w ++ ("?>".toList ++ rest))) =
        "<?xml".toList ++ ' ' :: (w ++ ("?>".toList ++ rest)) := rfl
    have hstart : Text.startsWith "<?xml ".toList
        ("<?xml".toList ++ ' ' :: (w ++ ("?>".toList ++ rest))) = true :=
      Text.startsWith_iff.2 ⟨w ++ ("?>".toList ++ rest), rfl⟩
    rw [hsplit, Source.body?, hmark, if_pos hstart]
    exact h.reads rest

/-! ## The declaration of a document that was read -/

theorem dropWhile_dropMark (t : Text) :
    (Source.dropMark t).dropWhile (· = '\uFEFF') = t.dropWhile (· = '\uFEFF') := by
  unfold Source.dropMark
  split
  next u => simp
  next => rfl

theorem target_eq_xml {u rest target content : Text} (hc : isNameChar c = false)
    (h : instruction? ("<?xml".toList ++ c :: u) = some ((target, content), rest)) :
    target = "xml".toList := by
  unfold instruction? at h
  split at h
  next => cases h
  next =>
    have hdrop : Text.dropPrefix? "<?".toList ("<?xml".toList ++ c :: u) =
        some ("xml".toList ++ c :: u) := Text.dropPrefix?_append "<?".toList _
    have hname : name? ("xml".toList ++ c :: u) = some ("xml".toList, c :: u) := by
      refine name?_append (by decide) ?_
      intro d hd
      exact Option.some.inj hd ▸ hc
    simp only [hdrop, hname, Option.bind_eq_bind, Option.bind_some, Option.bind_eq_some_iff,
      Option.pure_def, Option.some.injEq, Prod.mk.injEq] at h
    obtain ⟨found, -, ⟨rfl, -⟩, -⟩ := h
    rfl

theorem xmlDeclaration?_eq_some {w : Text} (h : xmlDeclaration? t = some w) :
    ∃ c u d rest, t.dropWhile (· = '\uFEFF') = "<?xml".toList ++ c :: u ∧
      isNameChar c = false ∧ Text.breakAt? "?>".toList (c :: u) = some (d, rest) ∧
      w = Text.trim Text.isBlank d := by
  unfold xmlDeclaration? at h
  split at h
  next c u hdrop =>
    split at h
    next hblank =>
      obtain ⟨⟨d, rest⟩, hbreak, rfl⟩ := Option.map_eq_some_iff.1 h
      exact ⟨c, u, d, rest, Text.dropPrefix?_eq_some_iff.1 hdrop,
        isNameChar_of_isAsciiBlank hblank, hbreak, rfl⟩
    next => cases h
  next => cases h

/-- The text of a document goes on behind one byte order mark. -/
theorem dropMark_eq_dropWhile {source : Source} (h : Source.parse? t = some source)
    (hdoctype : source.doctype = none) :
    Source.dropMark t = t.dropWhile (· = '\uFEFF') := by
  rw [← dropWhile_dropMark]
  cases hmark : Source.dropMark t with
  | nil => rfl
  | cons c u =>
    by_cases hc : c = '\uFEFF'
    · subst hc
      obtain ⟨v, t₂, tokens, t₃, after, b, hbody, hremarks, helement, -⟩ :=
        Source.parse?_eq_some h hdoctype
      have hv : v = '\uFEFF' :: u := by
        rw [Source.body?, hmark] at hbody
        exact (Option.some.inj hbody).symm
      rw [hv, remarks?_of_startsRemark_eq_false rfl] at hremarks
      obtain ⟨-, rfl⟩ := Prod.mk.inj (Option.some.inj hremarks)
      cases helement
    · simp [hc]

theorem startsWith_of_xmlDeclaration? {source : Source} {u : Text}
    (h : Source.parse? t = some source) (hplain : source.Plain t) (hc : isNameChar c = false)
    (ht : Source.dropMark t = "<?xml".toList ++ c :: u) :
    Text.startsWith "<?xml ".toList (Source.dropMark t) = true := by
  obtain ⟨v, t₂, tokens, t₃, after, b, hbody, hremarks, -⟩ :=
    Source.parse?_eq_some h hplain.doctype
  unfold Source.body? at hbody
  split at hbody
  next hstart => exact hstart
  next =>
    rw [ht] at hbody
    obtain rfl := Option.some.inj hbody
    have hdrop : Text.dropPrefix? "<!--".toList ("<?xml".toList ++ c :: u) = none := rfl
    rw [remarks?_of_startsRemark rfl] at hremarks
    obtain ⟨⟨v, rest⟩, hremark, hmore⟩ := Option.bind_eq_some_iff.1 hremarks
    obtain ⟨⟨more, rest'⟩, -, hmap⟩ := Option.map_eq_some_iff.1 hmore
    have hmem : v ∈ source.remarks.map Placed.value := by
      rw [← (Prod.mk.inj hmap).1]
      exact List.mem_cons_self
    change remark? ("<?xml".toList ++ c :: u) = some (v, rest) at hremark
    rw [remark?, hdrop] at hremark
    obtain ⟨⟨⟨target, content⟩, r⟩, hinstruction, hv⟩ := Option.map_eq_some_iff.1 hremark
    obtain ⟨rfl, -⟩ := Prod.mk.inj hv
    obtain ⟨remark, hremark, hvalue⟩ := List.mem_map.1 hmem
    have hxml := hplain.remarks remark hremark
    rw [hvalue] at hxml
    exact absurd (target_eq_xml hc hinstruction) hxml

/-- The data of the declaration of a plain document is written and read again as it is. -/
theorem isDeclaration_of_xmlDeclaration? {source : Source} {w : Text} (ht : '\r' ∉ t)
    (h : Source.parse? t = some source) (hplain : source.Plain t)
    (hw : xmlDeclaration? t = some w) :
    IsDeclaration w ∧ '\r' ∉ w ∧ ¬"<!DOCTYPE".toList <:+: w := by
  obtain ⟨c, u, d, rest, hopen, hc, hbreak, rfl⟩ := xmlDeclaration?_eq_some hw
  have hmark := dropMark_eq_dropWhile h hplain.doctype
  rw [hopen] at hmark
  have hstart := startsWith_of_xmlDeclaration? h hplain hc hmark
  obtain ⟨v, t₂, tokens, t₃, after, b, hbody, hremarks, -, -, -, -, -, hprolog⟩ :=
    Source.parse?_eq_some h hplain.doctype
  rw [Source.body?, if_pos hstart, hmark] at hbody
  change declaration? (c :: u) = some v at hbody
  obtain ⟨s, w, s', hsplit, hs, hs', hrow, hreads⟩ := declaration?_eq_some hbody
  obtain ⟨d', hd'⟩ := hplain.declaration (c :: u) v hmark hbody
  obtain ⟨rfl, rfl⟩ := Prod.mk.inj (Option.some.inj (hbreak.symm.trans hd'))
  have hd : c :: u = d ++ ("?>".toList ++ rest) := Text.eq_append_of_breakAt? hbreak
  have hrow' : d = s ++ (w ++ s') := by
    refine (List.append_left_inj ("?>".toList ++ rest)).1 ?_
    rw [← hd, hsplit]
    simp only [List.append_assoc]
  have hwithin : w <:+: d := ⟨s, s', by rw [hrow', List.append_assoc]⟩
  have htrim : Text.trim Text.isBlank d = w := by rw [hrow', trim_row hs hrow hs']
  have hfront : t = (t.takeWhile (· = '\uFEFF') ++ "<?xml".toList) ++ d ++
      ("?>".toList ++ rest) := by
    conv => lhs; rw [← List.takeWhile_append_dropWhile (p := (· = '\uFEFF')) (l := t), hopen, hd]
    simp only [List.append_assoc]
  have hmem : d <:+: t := ⟨_, _, hfront.symm⟩
  have hrest : '\r' ∉ rest := fun hcr =>
    ht (hfront ▸ List.mem_append_right _ (List.mem_append_right _ hcr))
  obtain ⟨between, hbetween, -⟩ := remarks?_eq_some hrest hremarks
  rw [htrim]
  refine ⟨⟨hrow, ?_, hreads⟩, fun hcr => ht (hmem.subset (hwithin.subset hcr)), ?_⟩
  · intro hclosed
    exact Text.not_infix_of_breakAt? hbreak (by decide)
      (List.infix_append_of_infix_left (hclosed.trans hwithin))
  · intro hdoctype
    have hprolog' : source.prolog = (t.takeWhile (· = '\uFEFF') ++ "<?xml".toList) ++ d ++
        ("?>".toList ++ between) := by
      have hsplit : t = ((t.takeWhile (· = '\uFEFF') ++ "<?xml".toList) ++ d ++
          ("?>".toList ++ between)) ++ t₂ := by
        conv => lhs; rw [hfront, hbetween]
        simp only [List.append_assoc]
      conv => lhs; rw [hprolog, hsplit]
      rw [List.length_append, Nat.add_sub_cancel, List.take_left]
    refine Text.breakAt?_eq_none_iff.1 hplain.prolog (hdoctype.trans (hwithin.trans ?_))
    exact ⟨_, _, hprolog'.symm⟩

end Markup

end PrettyPayload
