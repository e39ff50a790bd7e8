import PrettyPayload.Proofs.Html.Detection
import PrettyPayload.Proofs.Html.Page.Reading
import PrettyPayload.Proofs.Markup.Copy

/-!
# Fragments as they are written

Trees that nest in no element are read again from what is written of them: the text is not taken for
a page, all of it is planted below the root of a fragment, and the document is made of the same
trees.
-/

namespace PrettyPayload

namespace Html

open Markup PrettyPayload.Tree

variable {path : List String} {ts : List (Tree Markup.Node)} {t rest : Text} {e : Element}

/-! ## The text is no page -/

def leadsToPage (t : Text) : Bool := (skipProlog? t).any startsPage

theorem leadsToPage_append {lead : Text} (h : IsLead lead) (t : Text) :
    leadsToPage (lead ++ t) = leadsToPage t := by
  rw [leadsToPage, skipProlog?_append h, leadsToPage]

theorem leadsToPage_of_endsLead (h : EndsLead t) : leadsToPage t = startsPage t := by
  rw [leadsToPage, skipProlog?_of_endsLead h]
  rfl

theorem escapeTextChar_cases (c : Char) :
    escapeTextChar .html c = [c] ∧ c ≠ '<' ∨ ∃ name, escapeTextChar .html c = '&' :: name := by
  unfold escapeTextChar
  split
  next => exact Or.inr ⟨_, rfl⟩
  next =>
    split
    next => exact Or.inr ⟨_, rfl⟩
    next hne =>
      split
      next => exact Or.inr ⟨_, rfl⟩
      next =>
        split
        next => exact Or.inr ⟨_, rfl⟩
        next => exact Or.inl ⟨rfl, hne⟩

/-- Neither a blank nor the start of markup starts a page. -/
theorem leadsToPage_cons {c : Char} (hc : c ≠ '<') (h : leadsToPage t = false) :
    leadsToPage (c :: t) = false := by
  by_cases hblank : Text.isAsciiBlank c = true
  · rw [← List.singleton_append, leadsToPage_append (.blank hblank .nil), h]
  · have hends : EndsLead (c :: t) := by
      refine ⟨fun d hd => ?_, ?_⟩
      · obtain rfl := Option.some.inj hd
        exact Bool.eq_false_iff.2 hblank
      · rintro ⟨u, hu⟩
        exact hc (List.cons.inj hu).1.symm
    rw [leadsToPage_of_endsLead hends]
    exact startsPage_of_head?_ne fun hhead => hc (Option.some.inj hhead)

theorem leadsToPage_escapeText (t : Text) (h : leadsToPage rest = false) :
    leadsToPage (escapeText .html t ++ rest) = false := by
  induction t with
  | nil => exact h
  | cons c t ih =>
    have hcons : escapeText .html (c :: t) = escapeTextChar .html c ++ escapeText .html t :=
      List.flatMap_cons
    rw [hcons, List.append_assoc]
    rcases escapeTextChar_cases c with ⟨hself, hc⟩ | ⟨name, hname⟩
    · rw [hself]
      exact leadsToPage_cons hc ih
    · have hends : EndsLead ('&' :: (name ++ (escapeText .html t ++ rest))) := by
        refine ⟨fun d hd => ?_, ?_⟩
        · obtain rfl := Option.some.inj hd
          rfl
        · rintro ⟨u, hu⟩
          cases hu
      rw [hname, List.cons_append, leadsToPage_of_endsLead hends]
      exact startsPage_of_head?_ne (by simp)

theorem leadsToPage_commentText (ht : IsCommentText t) (h : leadsToPage rest = false) :
    leadsToPage (commentText t ++ rest) = false := by
  have hlead : IsLead (commentText t) := by
    have hcomment := IsLead.comment ht.2 .nil
    rwa [List.append_nil, ← List.append_assoc] at hcomment
  rw [leadsToPage_append hlead, h]

/-- The element of a tag that starts a page does not fit anywhere in a body. -/
theorem not_mem_of_fits {name : String} (h : fits path name = true) :
    ["html", "head", "body"].contains name = false := by
  rw [Bool.eq_false_iff, Ne, List.contains_iff_mem]
  intro hmem
  have hall : ∀ n ∈ ["html", "head", "body"], roleOf? n = none ∧ rawContent? n = none := by
    decide
  obtain ⟨hrole, hraw⟩ := hall name hmem
  have hadmits := (fits_iff.1 h).2
  rw [hraw] at hadmits
  obtain ⟨r, hr⟩ := exists_role_of_admits hadmits
  cases hr.symm.trans hrole

theorem leadsToPage_startTag (he : IsTag e) (hfits : fits path (tagOf e).name = true)
    (rest : Text) : leadsToPage (startTag .html e false ++ rest) = false := by
  obtain ⟨u, hu⟩ := Steady.startTag_eq e
  have hlex : lexData leadRules (startTag .html e false ++ rest) = ([.startTag (tagOf e)], rest) :=
    lexData_startTag he rest
  have hne : startTag .html e false ++ rest ≠ [] := by
    rw [hu]
    exact List.cons_ne_nil _ _
  have hfirst : firstToken? (startTag .html e false ++ rest) = some (.startTag (tagOf e)) := by
    rw [firstToken?_eq hne hlex (by rw [hu, List.length_append, List.length_cons]; omega)]
    rfl
  have hends : EndsLead (startTag .html e false ++ rest) := by
    refine ⟨fun c hc => ?_, ?_⟩
    · rw [hu] at hc
      obtain rfl := Option.some.inj hc
      rfl
    · obtain ⟨c, w, hname, hletter⟩ := exists_cons_of_isTagName he.name
      rintro ⟨v, hv⟩
      simp only [startTag, hname, List.cons_append] at hv
      obtain rfl := (List.cons.inj (List.cons.inj hv).2).1
      exact absurd hletter (by decide)
  rw [leadsToPage_of_endsLead hends, Bool.eq_false_iff, Ne, startsPage_iff hfirst]
  rintro ⟨hopens, -⟩
  exact absurd hopens (Bool.eq_false_iff.1 (not_mem_of_fits hfits))

theorem leadsToPage_writtenAll (h : nestsAll path ts = true) :
    leadsToPage (writtenAll ts) = false := by
  induction ts with
  | nil =>
    have hends : EndsLead [] := by constructor <;> simp
    exact (leadsToPage_of_endsLead hends).trans (by decide)
  | cons t ts ih =>
    rw [nestsAll, Bool.and_eq_true, Bool.and_eq_true] at h
    have hrest := ih h.2
    have ht := h.1.1
    obtain ⟨v, us⟩ := t
    rw [writtenAll]
    cases v with
    | text s => exact leadsToPage_escapeText s hrest
    | comment s =>
      simp only [nests, Bool.and_eq_true, decide_eq_true_eq] at ht
      exact leadsToPage_commentText ht.2 hrest
    | element e =>
      rw [nests, Bool.and_eq_true, Bool.and_eq_true, decide_eq_true_eq] at ht
      rw [written, List.append_assoc, List.append_assoc]
      exact leadsToPage_startTag ht.1.1 ht.1.2 _
    | _ => cases ht

theorem head?_writtenAll (h : nestsAll path ts = true) :
    (writtenAll ts).head? ≠ some '\uFEFF' := by
  cases ts with
  | nil => nofun
  | cons t ts =>
    rw [nestsAll, Bool.and_eq_true, Bool.and_eq_true] at h
    have ht := h.1.1
    rw [writtenAll]
    cases hv : t.value.isText with
    | false =>
      obtain ⟨u, hu⟩ := written_eq_cons ht hv
      rw [hu]
      simp
    | true =>
      obtain ⟨v, us⟩ := t
      obtain ⟨s, rfl⟩ := exists_of_isText hv
      simp only [nests, Bool.and_eq_true, decide_eq_true_eq] at ht
      obtain ⟨c, u, hcons, hc⟩ := escapeText_eq_cons (by simpa using ht.1.2) ht.2
      rw [written, hcons]
      simpa using hc

theorem looksLikeDocument_writtenAll (h : nestsAll path ts = true) :
    looksLikeDocument (writtenAll ts) = false := by
  rw [looksLikeDocument_eq (head?_writtenAll h)]
  exact leadsToPage_writtenAll h

/-! ## The tree of the page -/

theorem isText_toHtml {t : Tree Markup.Node} (h : nests path t = true) :
    (toHtml t).value.isText = t.value.isText := by
  obtain ⟨v, us⟩ := t
  cases v with
  | text s => rfl
  | element e => rfl
  | comment s => rfl
  | _ => cases h

theorem apart_toHtmlAll (h : nestsAll path ts = true) : Apart Node.isText (toHtmlAll ts) := by
  induction ts with
  | nil => trivial
  | cons t ts ih =>
    rw [nestsAll, Bool.and_eq_true, Bool.and_eq_true] at h
    refine ⟨fun htext u hu => ?_, ih h.2⟩
    rw [isText_toHtml h.1.1] at htext
    have hapart := h.1.2
    rw [htext, Bool.not_true, Bool.false_or, Bool.not_eq_true'] at hapart
    cases ts with
    | nil => cases hu
    | cons v ts =>
      obtain rfl := Option.some.inj hu
      have hv := h.2
      rw [nestsAll, Bool.and_eq_true, Bool.and_eq_true] at hv
      rw [isText_toHtml hv.1.1]
      exact hapart

/-- The content of an element without markup is one text at most. -/
theorem toHtmlAll_of_holdsRaw {raw : Content} (h : holdsRaw raw ts = true) :
    toHtmlAll ts = [] ∨ ∃ t, toHtmlAll ts = [.node (.text t) []] := by
  rcases holdsRaw_cases h with rfl | ⟨t, -, -, ⟨-, rfl⟩ | ⟨-, rfl⟩⟩
  · exact Or.inl rfl
  · exact Or.inr ⟨t, rfl⟩
  · exact Or.inr ⟨t, rfl⟩

mutual

/-- A page that nesting trees are planted in has texts as leaves, and none beside another. -/
theorem parted_toHtml : (t : Tree Markup.Node) → {path : List String} → nests path t = true →
    Forest.Parted (toHtml t)
  | .node v ts, path, h => by
    cases v with
    | text s => exact ⟨⟨trivial, fun _ => rfl⟩, trivial⟩
    | comment s => exact ⟨⟨trivial, nofun⟩, trivial⟩
    | element e =>
      rw [nests, Bool.and_eq_true] at h
      have hts := h.2
      split at hts
      next raw hraw =>
        rw [toHtml]
        rcases toHtmlAll_of_holdsRaw hts with hnil | ⟨t, ht⟩
        · rw [hnil]
          exact ⟨⟨trivial, nofun⟩, trivial⟩
        · rw [ht]
          exact ⟨⟨⟨nofun, trivial⟩, nofun⟩, ⟨⟨trivial, fun _ => rfl⟩, trivial⟩, trivial⟩
      next =>
        split at hts
        next =>
          obtain rfl := List.isEmpty_iff.1 hts
          exact ⟨⟨trivial, nofun⟩, trivial⟩
        next => exact ⟨⟨apart_toHtmlAll hts, nofun⟩, parted_toHtmlAll ts hts⟩
    | _ => cases h

theorem parted_toHtmlAll : (ts : List (Tree Markup.Node)) → {path : List String} →
    nestsAll path ts = true →
      EachOfAll (fun v ts => Apart Node.isText ts ∧ (v.isText = true → ts = [])) (toHtmlAll ts)
  | [], path, h => trivial
  | t :: ts, path, h => by
    rw [nestsAll, Bool.and_eq_true, Bool.and_eq_true] at h
    exact ⟨parted_toHtml t h.1.1, parted_toHtmlAll ts h.2⟩

end

theorem steady_start : Steady (Page.start true) 1 [] where
  mode := rfl
  based := Or.inl rfl
  fostering := rfl
  templateModes := rfl
  tableText := rfl
  stack := rfl
  formatting := rfl
  form := rfl
  outermost := ⟨rfl, by decide⟩
  names := nofun
  distinct := by simp

/-- At the end of a text in a body nothing more comes into a page. -/
theorem Steady.take_eof {page : Page} {root : Nat} {opened : List Opened}
    (h : Steady page root opened) (hmode : (modeOf (pathOf opened)).isOfBody = true) :
    (Build.take .eof page).2 = page.withoutSkip := by
  have hskip := h.withoutSkip
  have hstep : Build.step page.mode .eof page.withoutSkip = (.done, page.withoutSkip) := by
    have hbody :
        Build.step page.mode .eof page.withoutSkip = Build.inBody .eof page.withoutSkip := by
      have hmode' := h.mode ▸ hmode
      cases hm : page.mode with
      | inBody | inCaption | inCell => rfl
      | _ => rw [hm] at hmode'; cases hmode'
    rw [hbody, Build.inBody, Build.run_bind, Build.run_get]
    dsimp only
    rw [hskip.templateModes]
    rfl
  obtain ⟨steps, hsteps⟩ : ∃ steps, Build.stepsFor page .eof = steps + 1 := ⟨_, rfl⟩
  rw [Build.take, Build.run_bind, Build.run_get]
  dsimp only
  rw [hsteps]
  exact congrArg Prod.snd (Build.settle_of_done (hskip.isForeign _) hstep)

theorem Steady.outermost_eq {page : Page} {root : Nat} {opened : List Opened}
    (h : Steady page root opened) : page.outermost = root := by
  have hfirst : page.stack[0]? = some root := by
    rw [← Array.getElem?_toList, ← List.head?_eq_getElem?, ← List.getLast?_reverse, h.stack,
      List.getLast?_concat]
  rw [Page.outermost, hfirst]
  rfl

theorem withoutMark_eq_self (h : t.head? ≠ some '\uFEFF') : withoutMark t = t := by
  cases t with
  | nil => rfl
  | cons c t =>
    rw [withoutMark.eq_2]
    rintro u hu
    exact h (congrArg some (List.cons.inj hu).1)

theorem tree_pageOf_writtenAll (h : nestsAll [] ts = true) :
    (pageOf true (writtenAll ts)).tree =
      .node (.element (htmlName "html") []) (toHtmlAll ts) := by
  have hdata : Content.data.IsData := Or.inl rfl
  obtain ⟨page, hread⟩ := read_writtenAll ts steady_start hdata h []
    (fun c hc => by cases hc)
  obtain ⟨content, -, hall⟩ := hread.readAll_eq
  have hpage : pageOf true (writtenAll ts) = page.withoutSkip := by
    have hskip : (Page.start true).skipLineFeed = false := rfl
    rw [hskip, feedOf_false, List.nil_append, List.append_nil] at hall
    rw [pageOf, withoutMark_eq_self (head?_writtenAll h), hall, readAll, if_pos rfl]
    exact hread.reached.steady.take_eof rfl
  have hplanted := Forest.planted_plantAll (toHtmlAll ts) 1 (Page.start true).forest (by decide)
    (parted_toHtmlAll ts h) (apart_toHtmlAll h) fun t _ _ => by
      rintro ⟨last, hlast, -⟩
      cases hlast
  have hlaid : Forest.Laid page.forest 1
      (.node (.element (htmlName "html") []) (toHtmlAll ts)) := by
    rw [hread.reached.forest]
    obtain ⟨hnode, hchildren⟩ := hplanted.same 1 (by decide)
    exact ⟨hnode, hchildren, hplanted.laid⟩
  have hfragment : page.isFragment = true := hread.reached.isFragment
  have htree : page.withoutSkip.tree = page.forest.tree page.outermost := by
    rw [Page.tree]
    exact congrArg page.forest.tree (if_pos hfragment)
  rw [hpage, htree, hread.reached.steady.outermost_eq]
  refine Forest.tree_of_laid hlaid ?_
  have hsize : (Forest.plantAll 1 (toHtmlAll ts) (Page.start true).forest).cells.size =
      2 + sizeOfAll (toHtmlAll ts) := hplanted.size
  rw [hread.reached.forest, Tree.size]
  refine Nat.le_trans ?_ (Nat.le_of_eq hsize.symm)
  omega

/-! ## The document -/

def elementNode (e : Element) : Node :=
  .element (htmlName (tagOf e).name) (tagOf e).attributes

theorem ofHtml?_elementNode (parent : Node) (e : Element) :
    Node.ofHtml? parent (elementNode e) = some (.element e) := by
  have hattributes : (e.attributes.map fun a => (String.ofList a.1, a.2)).map
      (fun a => (a.1.toList, a.2)) = e.attributes := by
    rw [List.map_map]
    refine (List.map_congr_left fun a _ => ?_).trans (List.map_id _)
    exact Prod.ext String.toList_ofList rfl
  obtain ⟨name, attributes⟩ := e
  rw [elementNode, Node.ofHtml?, tagOf]
  simp only [Option.some.injEq, Markup.Node.element.injEq, Element.mk.injEq]
  exact ⟨String.toList_ofList, hattributes⟩

theorem holdsRawText_of_role (h : ∃ r, roleOf? (tagOf e).name = some r) :
    holdsRawText (elementNode e) = false := by
  obtain ⟨r, hrole⟩ := h
  have hmem := not_mem_of_subset rawTextElements hrole (by decide)
  exact Bool.eq_false_iff.2 fun hraw => hmem (List.contains_iff_mem.1 hraw)

/-- Text without references is kept apart from other text. -/
theorem copiedAll_of_holdsRaw {raw : Content} (hraw : rawContent? (tagOf e).name = some raw)
    (h : holdsRaw raw ts = true) :
    copiedAll Node.ofHtml? (elementNode e) (toHtmlAll ts) = ts := by
  have htext : ∀ n ∈ rcdataTags, rawTextElements.contains n = false := by decide
  have hdata : ∀ n ∈ "script" :: rawtextTags, rawTextElements.contains n = true := by decide
  have hname : holdsRawText (elementNode e) = rawTextElements.contains (tagOf e).name := rfl
  rcases holdsRaw_cases h with rfl | ⟨t, -, -, ⟨⟨name, rfl⟩, rfl⟩ | ⟨hkind, rfl⟩⟩
  · rfl
  · rcases rawContent?_cases hraw with ⟨-, hkind⟩ | ⟨hmem, -⟩ | ⟨-, hkind⟩
    · cases hkind
    · simp [toHtmlAll, toHtml, copiedAll, copied, Node.ofHtml?, hname.trans (htext _ hmem)]
    · cases hkind
  · have hmem : (tagOf e).name ∈ "script" :: rawtextTags := by
      rcases rawContent?_cases hraw with ⟨hscript, -⟩ | ⟨-, rfl⟩ | ⟨hmem, -⟩
      · exact hscript ▸ List.mem_cons_self
      · rcases hkind with ⟨name, hkind, -⟩ | ⟨hkind, -⟩ <;> cases hkind
      · exact List.mem_cons_of_mem _ hmem
    simp [toHtmlAll, toHtml, copiedAll, copied, Node.ofHtml?, hname.trans (hdata _ hmem)]

mutual

theorem copied_toHtml {parent : Node} (hparent : holdsRawText parent = false) :
    (t : Tree Markup.Node) → {path : List String} → nests path t = true →
      copied Node.ofHtml? parent (toHtml t) = [t]
  | .node v ts, path, h => by
    cases v with
    | text s =>
      simp only [nests, Bool.and_eq_true, List.isEmpty_iff] at h
      simp [toHtml, copied, Node.ofHtml?, hparent, copiedAll, h.1.1.1]
    | comment s =>
      simp only [nests, Bool.and_eq_true, List.isEmpty_iff] at h
      simp [toHtml, copied, Node.ofHtml?, copiedAll, h.1.1]
    | element e =>
      rw [nests, Bool.and_eq_true, Bool.and_eq_true, fits_iff] at h
      obtain ⟨⟨-, -, hfits⟩, hts⟩ := h
      have hnode : toHtml (.node (.element e) ts) = .node (elementNode e) (toHtmlAll ts) := rfl
      rw [hnode, copied, ofHtml?_elementNode]
      dsimp only
      have hcopied : copiedAll Node.ofHtml? (elementNode e) (toHtmlAll ts) = ts := by
        split at hts
        next raw hraw => exact copiedAll_of_holdsRaw hraw hts
        next hraw =>
          split at hts
          next =>
            obtain rfl := List.isEmpty_iff.1 hts
            rfl
          next =>
            rw [hraw] at hfits
            exact copiedAll_toHtmlAll (holdsRawText_of_role (exists_role_of_admits hfits)) ts hts
      rw [hcopied]
    | _ => cases h

theorem copiedAll_toHtmlAll {parent : Node} (hparent : holdsRawText parent = false) :
    (ts : List (Tree Markup.Node)) → {path : List String} → nestsAll path ts = true →
      copiedAll Node.ofHtml? parent (toHtmlAll ts) = ts
  | [], path, h => rfl
  | t :: ts, path, h => by
    rw [nestsAll, Bool.and_eq_true, Bool.and_eq_true] at h
    rw [toHtmlAll, copiedAll, copied_toHtml hparent t h.1.1, copiedAll_toHtmlAll hparent ts h.2]
    rfl

end

theorem tree_ofHtml_writtenAll (h : nestsAll [] ts = true) :
    (Document.ofHtml (writtenAll ts)).tree.map Prod.snd = .node .document ts := by
  have htree : (read (writtenAll ts)).tree =
      .node (.element (htmlName "html") []) (toHtmlAll ts) := by
    rw [read, looksLikeDocument_writtenAll h]
    exact tree_pageOf_writtenAll h
  have hroot : holdsRawText (.element (htmlName "html") []) = false := by decide
  rw [Document.ofHtml, Document.ofPage, Document.tree_copy_new, htree]
  exact congrArg (Tree.node Markup.Node.document) (copiedAll_toHtmlAll hroot ts h)

end Html

end PrettyPayload
