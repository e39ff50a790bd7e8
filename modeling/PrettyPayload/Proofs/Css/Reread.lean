import PrettyPayload.Proofs.Css.RoundTrip

/-!
# A stylesheet that was read is written and read again

A source may leave more in the texts of its stylesheet than a written form can hold: a backslash at
the end of a value, a parenthesis that stays open, the opening of a comment that the removal of
comments has put together. `Item.Faithful` asks that the texts of an item are closed and that at the
top no selector starts like a mark of an HTML comment; in a list of declarations braces mean
nothing, so that they need not match (`Declaration.FaithfulInLine`). Everything else that a written
form needs comes from the reading: the pieces that are read have no separator that counts, their
white space is collapsed, and importance and names of at-rules have been taken off. So faithful
items that were read are legible, and `parseStylesheet_pretty_of_parse` and
`parseDeclarations_compact_of_parse` say that they are read again as they were.
-/

namespace PrettyPayload

namespace Css

variable {stops : Char → Bool} {top : Bool} {s t before after body : Text} {d : Declaration}
  {head : Head} {item : Item} {items : List Item}

/-! ## Definitions -/

def Declaration.Faithful (d : Declaration) : Prop := Closed d.property ∧ Closed d.value

/-- What a declaration must be like to keep its texts apart in a list on one line. -/
def Declaration.FaithfulInLine (d : Declaration) : Prop :=
  Contained d.property ∧ Contained d.value

/-- The texts of a head are closed, and at the top it does not start like a mark that is skipped. -/
def Head.Faithful (top : Bool) : Head → Prop
  | .style selectors =>
    startsItem top (Head.style selectors).text = true ∧ ∀ selector ∈ selectors, Closed selector
  | .atRule _ prelude => Closed prelude

mutual

/-- An item whose written form keeps its texts apart, at the top of a stylesheet or below it. -/
def Item.Faithful (top : Bool) : Item → Prop
  | .declaration d => d.Faithful
  | .statement _ prelude => Closed prelude
  | .block head body => head.Faithful top ∧ Item.AllFaithful false body

def Item.AllFaithful (top : Bool) : List Item → Prop
  | [] => True
  | item :: items => item.Faithful top ∧ Item.AllFaithful top items

end

theorem Item.allFaithful_iff : Item.AllFaithful top items ↔ ∀ item ∈ items, item.Faithful top := by
  induction items with
  | nil => simp [Item.AllFaithful]
  | cons item items ih => rw [Item.AllFaithful, ih, List.forall_mem_cons]

theorem Item.allLegible_iff : Item.AllLegible top items ↔ ∀ item ∈ items, item.Legible top := by
  induction items with
  | nil => simp [Item.AllLegible]
  | cons item items ih => rw [Item.AllLegible, ih, List.forall_mem_cons]

/-! ## What reading makes of its pieces -/

theorem exists_of_readDeclaration (h : readDeclaration t = .ok d) :
    ∃ before after, breakAt (fun c => decide (c = ':')) Nesting.start (Text.trim Text.isBlank t) =
        some (before, ':', after) ∧ d.property = collapse before ∧ d.property ≠ [] ∧
      splitImportant (collapse after) = (d.value, d.important) := by
  unfold readDeclaration at h
  dsimp only at h
  split at h
  next => cases h
  next before stop after hcut =>
    split at h
    next => cases h
    next hne =>
      obtain rfl := Except.ok.inj h
      have hstop := (breakAt_eq_some hcut).2
      obtain rfl : stop = ':' := by simpa using hstop
      exact ⟨before, after, hcut, rfl, hne, rfl⟩

theorem readStatement_cases (h : readStatement top t = .ok item) :
    (∃ rest, Text.trim Text.isBlank t = '@' :: rest ∧ (splitAtName (collapse rest)).1 ≠ [] ∧
      item = .statement (splitAtName (collapse rest)).1 (splitAtName (collapse rest)).2) ∨
    ∃ d, top = false ∧ readDeclaration (Text.trim Text.isBlank t) = .ok d ∧
      hasAtName (Text.trim Text.isBlank t) = false ∧ item = .declaration d := by
  have hdeclaration : ∀ u : Text, (if top then .error (.strayDeclaration (excerpt u))
      else Item.declaration <$> readDeclaration u) = Except.ok item →
      ∃ d, top = false ∧ readDeclaration u = .ok d ∧ item = .declaration d := by
    intro u hu
    cases top with
    | true => cases hu
    | false =>
      obtain ⟨d, hd, rfl⟩ := exists_of_map_eq_ok hu
      exact ⟨d, rfl, hd, rfl⟩
  unfold readStatement at h
  dsimp only at h
  split at h
  next rest hat =>
    split at h
    next hname =>
      obtain ⟨d, htop, hd, hitem⟩ := hdeclaration _ h
      refine Or.inr ⟨d, htop, hd, ?_, hitem⟩
      rw [hat]
      exact splitAtName_eq_nil_iff.1 hname
    next hname => exact Or.inl ⟨rest, hat, hname, (Except.ok.inj h).symm⟩
  next hat =>
    obtain ⟨d, htop, hd, hitem⟩ := hdeclaration _ h
    refine Or.inr ⟨d, htop, hd, ?_, hitem⟩
    unfold hasAtName
    split
    next rest heq => exact absurd heq (hat rest)
    next => rfl

theorem readHead_cases (h : readHead before body = .ok head) :
    (∃ rest, collapse before = '@' :: rest ∧ (splitAtName rest).1 ≠ [] ∧
      head = .atRule (splitAtName rest).1 (splitAtName rest).2) ∨
    ∃ selectors, (collapse before).head? ≠ some '@' ∧
      readSelectors (collapse before) = .ok selectors ∧ head = .style selectors := by
  unfold readHead at h
  split at h
  next => cases h
  next rest hat =>
    dsimp only at h
    split at h
    next => cases h
    next hname => exact Or.inl ⟨rest, hat, hname, (Except.ok.inj h).symm⟩
  next hat =>
    obtain ⟨selectors, hselectors, rfl⟩ := exists_of_map_eq_ok h
    refine Or.inr ⟨selectors, fun hhead => ?_, hselectors, rfl⟩
    obtain ⟨rest, hrest⟩ := List.head?_eq_some_iff.1 hhead
    exact hat rest hrest

/-! ## Declarations -/

/-- A value is the text behind the colon up to the mark of importance and the blanks before it. -/
theorem exists_of_splitImportant {value : Text} {important : Bool}
    (ht : Text.trimEnd Text.isBlank t = t) (h : splitImportant t = (value, important)) :
    value <+: t ∧ (∀ c, value.getLast? = some c → Text.isBlank c = false) ∧
      (important = false → value = t) := by
  have hlast : ∀ c, t.getLast? = some c → Text.isBlank c = false := by
    intro c hc
    rw [← ht] at hc
    exact Text.getLast?_trimEnd hc
  have hsame : (t, false) = (value, important) → value <+: t ∧
      (∀ c, value.getLast? = some c → Text.isBlank c = false) ∧
      (important = false → value = t) := by
    intro heq
    obtain ⟨rfl, rfl⟩ := Prod.mk.inj heq
    exact ⟨List.prefix_refl t, hlast, fun _ => rfl⟩
  unfold splitImportant at h
  simp only [ht] at h
  split at h
  next => exact hsame h
  next back hback =>
    split at h
    next rest hrest =>
      obtain ⟨rfl, rfl⟩ := Prod.mk.inj h
      obtain ⟨word, hword, -⟩ := eq_append_of_dropPrefixIgnoringCase? hback
      have hsuffix : rest.dropWhile Text.isBlank <:+ t.reverse := by
        rw [hword]
        refine (List.dropWhile_suffix _).trans (List.IsSuffix.trans ?_ (List.suffix_append _ _))
        exact (List.suffix_cons '!' rest).trans (hrest ▸ List.dropWhile_suffix _)
      refine ⟨?_, fun c hc => ?_, nofun⟩
      · rw [← List.reverse_suffix, List.reverse_reverse]
        exact hsuffix
      · rw [List.getLast?_reverse] at hc
        exact Text.head?_trimStart hc
    next => exact hsame h

/-- A declaration from a text without separators is legible if its texts are neutral. -/
theorem Declaration.Legible.of_neutral (hs : ∀ c, stops c = true → Text.isBlank c = false)
    (hcut : breakAt stops Nesting.start t = none) (hread : readDeclaration t = .ok d)
    (hproperty : Neutral d.property) (hvalue : Neutral d.value)
    (hblocks : stops '}' = true → Inert d.property ∧ Inert d.value) : d.Legible stops := by
  obtain ⟨before, after, hcolon, hbeforeEq, hne, hafterEq⟩ := exists_of_readDeclaration hread
  obtain ⟨hbefore, hstart⟩ := eq_none_of_breakAt hcolon
  have htrimmed := breakAt_trim_eq_none hcut
  rw [(breakAt_eq_some hcolon).1, breakAt_append_eq_none_iff, hstart,
    breakAt_cons_eq_none_iff] at htrimmed
  obtain ⟨hbefore', hstop, hafter⟩ := htrimmed
  have htrim : Text.trimEnd Text.isBlank (collapse after) = collapse after :=
    Text.trimEnd_eq_self fun _ hc => Text.getLast?_trimEnd hc
  obtain ⟨⟨w, hw⟩, hlast, hsame⟩ := exists_of_splitImportant htrim hafterEq
  have htight : Tight (fun c => stops c || c = ':') d.property := by
    have hcollapsed : breakAt (fun c => stops c || decide (c = ':')) Nesting.start
        (collapse before) = none := by
      refine breakAt_or_eq_none (breakAt_collapse_eq_none hs hbefore')
        (breakAt_collapse_eq_none (fun c hc => ?_) hbefore)
      obtain rfl : c = ':' := by simpa using hc
      decide
    rw [← hbeforeEq] at hcollapsed
    have hinert (hstop : (stops '}' || decide ('}' = ':')) = true) : Inert d.property :=
      (hblocks (by simpa using hstop)).1
    refine .of_sealed (hproperty.isSealed hinert hcollapsed) ?_ ?_
    · rw [hbeforeEq]
      exact stable_collapse before
    · rw [hbeforeEq, trim_collapse]
  have htight' : Tight stops d.value := by
    have hcollapsed := breakAt_collapse_eq_none hs hafter
    have hstable := stable_collapse after
    rw [← hw] at hcollapsed hstable
    refine .of_sealed (hvalue.isSealed (fun hstop => (hblocks hstop).2)
      (breakAt_append_eq_none_iff.1 hcollapsed).1) hstable.parts.1
      (Text.trim_eq_self (fun c hc => ?_) hlast)
    refine Text.head?_trim (t := collapseFrom (.between false) after) ?_
    rw [← collapse, ← hw]
    rw [List.head?_append, hc, Option.some_or]
  refine ⟨hne, htight, htight', fun himportant => ?_⟩
  rw [hsame himportant, hafterEq, himportant, hsame himportant]

theorem Declaration.Faithful.legible (hs : ∀ c, stops c = true → Text.isBlank c = false)
    (hcut : breakAt stops Nesting.start t = none) (hread : readDeclaration t = .ok d)
    (h : d.Faithful) : d.Legible stops :=
  .of_neutral hs hcut hread h.1.inert.toNeutral h.2.inert.toNeutral fun _ =>
    ⟨h.1.inert, h.2.inert⟩

theorem hasAtName_property (hread : readDeclaration t = .ok d) :
    hasAtName d.property = hasAtName (Text.trim Text.isBlank t) := by
  obtain ⟨before, after, hcolon, hproperty, hne, -⟩ := exists_of_readDeclaration hread
  have htrim := (breakAt_eq_some hcolon).1
  have hbefore : before ≠ [] := by
    rintro rfl
    exact hne hproperty
  have hblank : ∀ c, before.head? = some c → Text.isBlank c = false := by
    intro c hc
    refine Text.head?_trim (t := t) ?_
    rw [htrim, List.head?_append, hc, Option.some_or]
  rw [htrim, hasAtName_append_colon hbefore, hproperty, hasAtName_collapse hblank]

/-! ## At-rules -/

theorem isAtName_splitAtName (h : (splitAtName t).1 ≠ []) : IsAtName (splitAtName t).1 :=
  ⟨h, List.all_eq_true.1 List.all_takeWhile⟩

theorem Stable.dropWhile_isNameChar (h : Stable t) : Stable (t.dropWhile isNameChar) := by
  have hname : Tight endsItem (t.takeWhile isNameChar) :=
    tight_name (List.all_eq_true.1 List.all_takeWhile)
  obtain ⟨spaced, hafter⟩ := hname.uncommented.exists_after false
  rw [← List.takeWhile_append_dropWhile (p := isNameChar) (l := t)] at h
  exact h.right hafter

theorem tight_splitAtName (hstable : Stable t) (hcut : breakAt endsItem Nesting.start t = none)
    (h : Closed (splitAtName t).2) : Tight endsItem (splitAtName t).2 := by
  have hname : Tight endsItem (t.takeWhile isNameChar) :=
    tight_name (List.all_eq_true.1 List.all_takeWhile)
  rw [← List.takeWhile_append_dropWhile (p := isNameChar) (l := t), breakAt_append_eq_none_iff,
    hname.nesting] at hcut
  exact .of_sealed (h.inert.isSealed (breakAt_trim_eq_none hcut.2))
    hstable.dropWhile_isNameChar.trim
    (Text.trim_trim _ _)

/-! ## Selectors -/

/-- The selectors of a text are its parts between commas, and none is empty. -/
theorem eq_map_of_readSelectors {selectors : List Text} (h : readSelectors t = .ok selectors) :
    selectors = (splitAtTop ',' t).map (Text.trim Text.isBlank) ∧
      ∀ selector ∈ selectors, selector ≠ [] := by
  unfold readSelectors at h
  generalize splitAtTop ',' t = parts at h
  induction parts generalizing selectors with
  | nil =>
    obtain rfl := Except.ok.inj h
    exact ⟨rfl, List.forall_mem_nil _⟩
  | cons part parts ih =>
    rw [List.mapM_cons] at h
    by_cases hpart : Text.trim Text.isBlank part = []
    · simp only [hpart, if_true] at h
      cases h
    · simp only [hpart, if_false] at h
      obtain ⟨rest, hrest, rfl⟩ := exists_of_map_eq_ok h
      obtain ⟨rfl, hne⟩ := ih hrest
      exact ⟨rfl, List.forall_mem_cons.2 ⟨hpart, hne⟩⟩

theorem tight_of_mem_splitAtTop (hstable : Stable t)
    (hcut : breakAt endsItem Nesting.start t = none)
    (h : ∀ part ∈ splitAtTop ',' t, Closed (Text.trim Text.isBlank part)) :
    ∀ part ∈ splitAtTop ',' t, Tight cutsSelector (Text.trim Text.isBlank part) := by
  have hpart : ∀ part : Text, Stable part → breakAt endsItem Nesting.start part = none →
      breakAt (fun c => decide (c = ',')) Nesting.start part = none →
      Closed (Text.trim Text.isBlank part) →
      Tight cutsSelector (Text.trim Text.isBlank part) := by
    intro part hstable hcut hcomma hclosed
    have huncut : breakAt cutsSelector Nesting.start part = none := breakAt_or_eq_none hcut hcomma
    exact .of_sealed (hclosed.inert.isSealed (breakAt_trim_eq_none huncut)) hstable.trim
      (Text.trim_trim _ _)
  fun_induction splitAtTop ',' t with
  | case1 t hcomma =>
    rw [List.forall_mem_singleton] at h ⊢
    exact hpart t hstable hcut hcomma h
  | case2 t before stop after hcomma ih =>
    rw [List.forall_mem_cons] at h ⊢
    obtain ⟨hbefore, hstart⟩ := eq_none_of_breakAt hcomma
    obtain ⟨rfl, hstop⟩ := breakAt_eq_some hcomma
    obtain rfl : stop = ',' := by simpa using hstop
    rw [breakAt_append_eq_none_iff, hstart, breakAt_cons_eq_none_iff] at hcut
    obtain ⟨spaced, hafter⟩ := h.1.inert.uncommented.exists_after_of_trim false
    have hspot : (Spot.between spaced).step ',' = .between false := by cases spaced <;> decide
    have hrest : Stable after := by
      rw [← List.singleton_append, ← List.append_assoc] at hstable
      have hcomma : (Spot.between false).after (before ++ [',']) = .between false := by
        rw [Spot.after_append, hafter, Spot.after_cons, hspot, Spot.after_nil]
      exact hstable.right hcomma
    exact ⟨hpart before hstable.parts.1 hcut.1 hbefore h.1, ih hrest hcut.2.2 h.2⟩

theorem exists_cons_of_splitAtTop (d : Char) (t : Text) :
    ∃ part parts, splitAtTop d t = part :: parts ∧ part <+: t := by
  rw [splitAtTop]
  split
  next => exact ⟨t, [], rfl, List.prefix_refl t⟩
  next before stop after hcut =>
    refine ⟨before, _, rfl, ?_⟩
    rw [(breakAt_eq_some hcut).1]
    exact List.prefix_append _ _

theorem head?_trim_of_isStart {part : Text} (h : part <+: t)
    (ht : Text.trim Text.isBlank t = t) (hne : Text.trim Text.isBlank part ≠ []) :
    (Text.trim Text.isBlank part).head? = t.head? := by
  obtain ⟨rest, rfl⟩ := h
  cases part with
  | nil => exact absurd rfl hne
  | cons c part =>
    have hc : Text.isBlank c = false := Text.head?_trim (by rw [ht]; rfl)
    rw [Text.trim, Text.trimStart_cons hc, Text.trimEnd_cons_of_false hc]
    rfl

/-! ## Heads -/

theorem isBlank_of_endsItem (c : Char) (h : endsItem c = true) : Text.isBlank c = false := by
  simp only [endsItem, Bool.or_eq_true, decide_eq_true_eq] at h
  rcases h with (rfl | rfl) | rfl <;> decide

/-- A head from a text without separators is legible if its texts are closed. -/
theorem Head.Faithful.legible (hcut : breakAt endsItem Nesting.start before = none)
    (hread : readHead before body = .ok head) (h : head.Faithful top) : head.Legible top := by
  have hstable := stable_collapse before
  have huncut := breakAt_collapse_eq_none isBlank_of_endsItem hcut
  rcases readHead_cases hread with ⟨rest, hat, hname, rfl⟩ | ⟨selectors, hat, hselectors, rfl⟩
  · rw [hat] at hstable huncut
    have hspot : (Spot.between false).after ['@'] = .between false := by decide
    have hrest : breakAt endsItem Nesting.start rest = none := (breakAt_cons_eq_none_iff.1 huncut).2
    exact ⟨isAtName_splitAtName hname, tight_splitAtName (Stable.right hstable hspot) hrest h⟩
  · obtain ⟨hmap, hne⟩ := eq_map_of_readSelectors hselectors
    have hclosed : ∀ part ∈ splitAtTop ',' (collapse before),
        Closed (Text.trim Text.isBlank part) := by
      intro part hpart
      exact h.2 _ (hmap ▸ List.mem_map_of_mem hpart)
    have htight := tight_of_mem_splitAtTop hstable huncut hclosed
    obtain ⟨part, parts, hparts, hfront⟩ := exists_cons_of_splitAtTop ',' (collapse before)
    rw [hparts, List.map_cons] at hmap
    have hfirst : Text.trim Text.isBlank part ≠ [] := hne _ (by rw [hmap]; exact List.mem_cons_self)
    refine ⟨⟨Text.trim Text.isBlank part, by rw [hmap]; rfl, ?_⟩, ?_⟩
    · have hstart := h.1
      rw [hmap, startsItem_style_text] at hstart
      rw [← head?_trim_of_isStart hfront (trim_collapse before) hfirst] at hat
      rw [startsRule, Bool.and_eq_true, decide_eq_true_eq]
      exact ⟨hat, hstart⟩
    · intro selector hselector
      refine ⟨hne selector hselector, ?_⟩
      rw [hmap, ← List.map_cons, ← hparts] at hselector
      obtain ⟨part, hpart, rfl⟩ := List.mem_map.1 hselector
      exact htight part hpart

/-! ## Items -/

theorem skipSeparators_suffix (top : Bool) (t : Text) : skipSeparators top t <:+ t := by
  fun_induction skipSeparators top t with
  | case1 t htop ih => exact ih.trans (List.suffix_append "<!--".toList t)
  | case2 => exact List.suffix_refl _
  | case3 t htop ih => exact ih.trans (List.suffix_append "-->".toList t)
  | case4 => exact List.suffix_refl _
  | case5 c t _ _ _ ih => exact ih.trans (List.suffix_cons c t)
  | case6 => exact List.suffix_refl _
  | case7 => exact List.suffix_refl _

/-- What holds of the items of a text if it holds of each that is read from one of its pieces. The
characters `p` are those of the text. -/
theorem forall_of_readItems {p : Char → Prop} {P : Bool → Item → Prop}
    (hstatement : ∀ top piece item, (∀ c ∈ piece, p c) →
      breakAt endsItem Nesting.start piece = none → readStatement top piece = .ok item →
      P top item)
    (hblock : ∀ top piece body head items, (∀ c ∈ piece, p c) →
      breakAt endsItem Nesting.start piece = none → readHead piece body = .ok head →
      (∀ item ∈ items, P false item) → P top (.block head items))
    (ht : ∀ c ∈ t, p c) (h : readItems top t = .ok items) : ∀ item ∈ items, P top item := by
  have hpieces : ∀ {top : Bool} {t before after : Text} {stop : Char}, (∀ c ∈ t, p c) →
      breakAt endsItem Nesting.start (skipSeparators top t) = some (before, stop, after) →
      (∀ c ∈ before, p c) ∧ ∀ c ∈ after, p c := by
    intro top t before after stop ht hcut
    have hsuffix := skipSeparators_suffix top t
    rw [(breakAt_eq_some hcut).1] at hsuffix
    refine ⟨fun c hc => ht c (hsuffix.subset ?_), fun c hc => ht c (hsuffix.subset ?_)⟩
    · exact List.mem_append_left _ hc
    · exact List.mem_append_right _ (List.mem_cons_of_mem _ hc)
  induction reading_of_readItems h with
  | nothing => exact List.forall_mem_nil _
  | @last top t item _ hcut hread =>
    have hpiece : ∀ c ∈ skipSeparators top t, p c := fun c hc =>
      ht c ((skipSeparators_suffix top t).subset hc)
    exact List.forall_mem_singleton.2 (hstatement top _ item hpiece hcut hread)
  | @statement top _ before _ item _ hcut hread hmore ih =>
    obtain ⟨hbefore, hafter⟩ := hpieces ht hcut
    exact List.forall_mem_cons.2 ⟨hstatement top before item hbefore
      (eq_none_of_breakAt hcut).1 hread, ih hafter hmore.readItems_eq_ok⟩
  | @block top _ before _ body _ head inner _ hcut hclose hhead hbody hmore ihbody ihmore =>
    obtain ⟨hbefore, hafter⟩ := hpieces ht hcut
    rw [closeBlock_eq_some hclose, List.forall_mem_append, List.forall_mem_cons] at hafter
    exact List.forall_mem_cons.2 ⟨hblock top before body head inner hbefore
      (eq_none_of_breakAt hcut).1 hhead (ihbody hafter.1 hbody.readItems_eq_ok),
      ihmore hafter.2.2 hmore.readItems_eq_ok⟩

theorem legible_of_readItems (h : readItems top t = .ok items) :
    ∀ item ∈ items, item.Faithful top → item.Legible top := by
  refine forall_of_readItems (p := fun _ => True)
    (P := fun top item => item.Faithful top → item.Legible top) ?_ ?_ (fun _ _ => trivial) h
  · intro top piece item _ hcut hread hfaithful
    have htrimmed := breakAt_trim_eq_none hcut
    rcases readStatement_cases hread with ⟨rest, hat, hname, rfl⟩ | ⟨d, rfl, hd, hno, rfl⟩
    · rw [hat] at htrimmed
      have hrest : breakAt endsItem Nesting.start rest = none :=
        (breakAt_cons_eq_none_iff.1 htrimmed).2
      exact ⟨isAtName_splitAtName hname, tight_splitAtName (stable_collapse rest)
        (breakAt_collapse_eq_none isBlank_of_endsItem hrest) hfaithful⟩
    · refine ⟨rfl, Declaration.Faithful.legible isBlank_of_endsItem htrimmed hd hfaithful, ?_⟩
      rw [hasAtName_property hd, Text.trim_trim, hno]
  · intro top piece body head items _ hcut hread hbody hfaithful
    refine ⟨hfaithful.1.legible hcut hread, Item.allLegible_iff.2 fun item hitem => ?_⟩
    exact hbody item hitem (Item.allFaithful_iff.1 hfaithful.2 item hitem)

/-! ## Stylesheets and lists of declarations -/

/-- A stylesheet that was read is read again from what is written of it, if it is faithful. -/
theorem parseStylesheet_pretty_of_parse {indent : Text} {sheet : Stylesheet}
    (hi : ∀ c ∈ indent, Text.isAsciiBlank c = true) (h : parseStylesheet s = .ok sheet)
    (hsheet : Item.AllFaithful true sheet.rules) :
    parseStylesheet (sheet.pretty indent) = .ok sheet := by
  obtain ⟨text, -, h⟩ := exists_of_bind_eq_ok h
  obtain ⟨items, hitems, h⟩ := exists_of_bind_eq_ok h
  obtain rfl := Except.ok.inj h
  refine parseStylesheet_of_allLegible hi (Item.allLegible_iff.2 fun item hitem => ?_)
  exact legible_of_readItems hitems item (List.mem_of_mem_filter hitem)
    (Item.allFaithful_iff.1 hsheet item hitem)

theorem exists_of_mapM_eq_ok {α β ε : Type} {f : α → Except ε β} {xs : List α} {ys : List β}
    (h : xs.mapM f = .ok ys) : ∀ y ∈ ys, ∃ x ∈ xs, f x = .ok y := by
  induction xs generalizing ys with
  | nil =>
    obtain rfl := Except.ok.inj h
    exact List.forall_mem_nil _
  | cons x xs ih =>
    rw [List.mapM_cons] at h
    obtain ⟨y, hy, h⟩ := exists_of_bind_eq_ok h
    obtain ⟨rest, hrest, h⟩ := exists_of_bind_eq_ok h
    obtain rfl := Except.ok.inj h
    refine List.forall_mem_cons.2 ⟨⟨x, List.mem_cons_self, hy⟩, fun z hz => ?_⟩
    obtain ⟨w, hw, hf⟩ := ih hrest z hz
    exact ⟨w, List.mem_cons_of_mem x hw, hf⟩

/-- Declarations that were read are read again from one line, if they are faithful there. -/
theorem parseDeclarations_compact_of_parse {ds : List Declaration}
    (h : parseDeclarations s = .ok ds) (hds : ∀ d ∈ ds, d.FaithfulInLine) :
    parseDeclarations (compact ds) = .ok ds := by
  obtain ⟨text, -, h⟩ := exists_of_bind_eq_ok h
  refine parseDeclarations_of_legible fun d hd => ?_
  obtain ⟨part, hpart, hread⟩ := exists_of_mapM_eq_ok h d hd
  obtain ⟨hproperty, hvalue⟩ := hds d hd
  refine .of_neutral (fun c hc => ?_) (breakAt_of_mem_splitAtTop (List.mem_of_mem_filter hpart))
    hread hproperty.neutral hvalue.neutral fun hstop => absurd hstop (by decide)
  obtain rfl := of_decide_eq_true hc
  decide

end Css

end PrettyPayload
