import PrettyPayload.Proofs.Markup.RelaidEntries

/-!
# The layout of a page nests

A tree with its layout nests where the tree does: the layout is made of blanks, which are texts like
any other, and it comes only where there are other nodes.
-/

namespace PrettyPayload

namespace Markup

open Html
open PrettyPayload.Tree

variable {options : Options} {path : List String} {pending s t : Text} {ts us : List (Tree Node)}
  {e : Element}

/-! ## Texts -/

theorem isSafeText_iff : IsSafeText t ↔ ∀ c ∈ t, c ∉ ['\r', '\x00', '\uFEFF'] := by
  constructor
  · rintro ⟨⟨hreturn, hnull⟩, hmark⟩ c hc hmem
    simp only [List.mem_cons, List.not_mem_nil, or_false] at hmem
    rcases hmem with rfl | rfl | rfl
    · exact hreturn hc
    · exact hnull hc
    · exact hmark hc
  · intro h
    exact ⟨⟨fun hc => h _ hc (by decide), fun hc => h _ hc (by decide)⟩,
      fun hc => h _ hc (by decide)⟩

theorem isPlainText_iff : IsPlainText t ↔ ∀ c ∈ t, c ∉ ['\r', '\x00'] := by
  constructor
  · rintro ⟨hreturn, hnull⟩ c hc hmem
    simp only [List.mem_cons, List.not_mem_nil, or_false] at hmem
    rcases hmem with rfl | rfl
    · exact hreturn hc
    · exact hnull hc
  · intro h
    exact ⟨fun hc => h _ hc (by decide), fun hc => h _ hc (by decide)⟩

theorem mem_lineGap (hindent : PlainIndent options) (hfeed : options.newline = ['\n'])
    (depth : Nat) : ∀ c ∈ lineGap options depth, c ∈ ['\n', ' ', '\t'] := by
  rw [lineGap, hfeed]
  refine List.forall_mem_append.2 ⟨List.forall_mem_singleton.2 (by decide),
    Text.forall_mem_times depth fun c hc => ?_⟩
  rcases hindent c hc with rfl | rfl <;> decide

/-- A text on lines of its own is made of blanks and of the characters of the text. -/
theorem forall_mem_spreadText {p : Char → Prop} (depth : Nat)
    (hgap : ∀ c ∈ lineGap options depth, p c) (h : ∀ c ∈ t, p c) :
    ∀ c ∈ spreadText options depth t, p c := by
  intro c hc
  obtain ⟨line, hline, hc⟩ := List.mem_flatMap.1 hc
  rcases List.mem_append.1 hc with hc | hc
  · exact hgap c hc
  · exact h c (mem_of_mem_segments hline hc)

theorem isSafeText_lineGap (hindent : PlainIndent options) (hfeed : options.newline = ['\n'])
    (depth : Nat) : IsSafeText (lineGap options depth) := by
  have hblank : ∀ c ∈ ['\n', ' ', '\t'], c ∉ ['\r', '\x00', '\uFEFF'] := by simp
  exact isSafeText_iff.2 fun c hc => hblank c (mem_lineGap hindent hfeed depth c hc)

theorem isSafeText_append (hs : IsSafeText s) (ht : IsSafeText t) : IsSafeText (s ++ t) :=
  isSafeText_iff.2 (List.forall_mem_append.2 ⟨isSafeText_iff.1 hs, isSafeText_iff.1 ht⟩)

theorem isSafeText_spreadText (hindent : PlainIndent options) (hfeed : options.newline = ['\n'])
    (depth : Nat) (h : IsSafeText t) : IsSafeText (spreadText options depth t) :=
  isSafeText_iff.2 (forall_mem_spreadText depth
    (isSafeText_iff.1 (isSafeText_lineGap hindent hfeed depth)) (isSafeText_iff.1 h))

/-! ## Single texts -/

theorem nests_text (hmode : (modeOf path).isOfBody = true) (hne : t ≠ []) (h : IsSafeText t) :
    nests path (.node (.text t) []) = true := by
  simp [nests, hmode, hne, h]

theorem isSafeText_of_nests (h : nests path (.node (.text t) ts) = true) : IsSafeText t := by
  rw [nests, Bool.and_eq_true, decide_eq_true_eq] at h
  exact h.2

theorem isSafeText_of_counted (h : nestsAll path ts = true)
    (hcounted : counted (ts.map value) = [some [t]]) : t ≠ [] ∧ IsSafeText t := by
  obtain ⟨s, hs, hsegments⟩ := exists_of_mem_counted (hcounted ▸ List.mem_cons_self)
  obtain ⟨⟨v, us⟩, hmem, rfl⟩ := List.mem_map.1 hs
  have hsafe := isSafeText_iff.1 (isSafeText_of_nests (nests_of_mem h _ hmem))
  have hline := hsegments ▸ List.mem_cons_self
  exact ⟨(isSegment_of_mem hline).1,
    isSafeText_iff.2 fun c hc => hsafe c (mem_of_mem_segments hline hc)⟩

theorem nestsAll_textTrees_append (hmode : (modeOf path).isOfBody = true) (h : IsSafeText t)
    (hus : nestsAll path us = true) (hfirst : (us.head?).any (fun u => u.value.isText) = false) :
    nestsAll path (textTrees t ++ us) = true := by
  rw [textTrees]
  split
  next => exact hus
  next hne =>
    rw [List.singleton_append, nestsAll, nests_text hmode hne h, hus, hfirst]
    rfl

theorem isText_relaid (depth : Nat) (t : Tree Node) :
    (relaid options depth t).value.isText = t.value.isText := by
  rw [value_relaid]
  cases t.value <;> rfl

/-! ## Elements without markup -/

theorem holdsRaw_relaidContent (hindent : PlainIndent options) (hfeed : options.newline = ['\n'])
    {raw : Content} (he : IsTagName e.name = true) (hraw : rawContent? (tagOf e).name = some raw)
    (hts : holdsRaw raw ts = true) (hformed : Formed (.element e) ts)
    (h : Durable options.indent (.element e) ts) (depth : Nat) :
    holdsRaw raw (relaidContent options depth
      (layoutOf .html options.inlineSingleText e (ts.map value)) ts) = true := by
  have hlaid := laid_layoutOf options.inlineSingleText e (ts.map value)
  generalize layoutOf .html options.inlineSingleText e (ts.map value) = layout at hlaid
  have hescaped (hpre : isPreformatted .html e = false) (hstyle : e.isStyle = false)
      (hcounted : counted (ts.map value) ≠ []) : ∃ name s, raw = .rcdata name ∧ IsPlainText s ∧
        ts = [.node (.text s) []] := by
    rcases isPreformatted_or_isStyle he hraw with hpre' | hstyle' | ⟨name, rfl⟩
    · cases hpre.symm.trans hpre'
    · cases hstyle.symm.trans hstyle'
    · rcases holdsRaw_cases hts with rfl | ⟨s, -, hs, ⟨-, rfl⟩ | ⟨⟨_, hkind, -⟩ | ⟨hkind, -⟩, -⟩⟩
      · exact absurd rfl hcounted
      · exact ⟨name, s, rfl, hs, rfl⟩
      · cases hkind
      · cases hkind
  cases hlaid with
  | void | empty => rfl
  | verbatim =>
    rw [relaidContent, inlaidAll_of_holdsRaw hts]
    exact hts
  | stylesheet hvoid hpre hstyle =>
    obtain ⟨sheet, hsheet⟩ := h.sheet hstyle
    obtain rfl := Option.some.inj (hraw.symm.trans (rawContent?_of_isStyle he hstyle))
    exact holdsRaw_sheetContent hindent hsheet (hformed.plain hstyle) (depth + 1)
      (blank_of_lineGap hindent.isAsciiBlank depth) (isSafeText_lineGap hindent hfeed depth).1.1
  | singleLine hvoid hpre hstyle hcounted =>
    obtain ⟨name, s, rfl, hs, rfl⟩ := hescaped hpre hstyle (hcounted ▸ List.cons_ne_nil _ _)
    obtain ⟨s', hs', hsegments⟩ := exists_of_mem_counted (hcounted ▸ List.mem_cons_self)
    obtain rfl := Node.text.inj (List.mem_singleton.1 hs')
    have hmem := hsegments ▸ List.mem_cons_self
    refine decide_eq_true ⟨(isSegment_of_mem hmem).1, isPlainText_iff.2 fun c hc => ?_⟩
    exact isPlainText_iff.1 hs c (mem_of_mem_segments hmem hc)
  | block hvoid hpre hstyle hcounted =>
    obtain ⟨name, s, rfl, hs, rfl⟩ := hescaped hpre hstyle hcounted
    have hgap (depth : Nat) : ∀ c ∈ lineGap options depth, c ∉ ['\r', '\x00'] :=
      isPlainText_iff.1 (isSafeText_lineGap hindent hfeed depth).1
    have hcontent : relaidContent options depth .block [.node (.text s) []] =
        textTrees (spreadText options (depth + 1) s ++ lineGap options depth) := rfl
    rw [hcontent, textTrees]
    split
    next => rfl
    next hne =>
      exact decide_eq_true ⟨hne, isPlainText_iff.2 (List.forall_mem_append.2
        ⟨forall_mem_spreadText _ (hgap _) (isPlainText_iff.1 hs), hgap _⟩)⟩

/-! ## Trees -/

mutual

theorem nests_relaid (hindent : PlainIndent options) (hfeed : options.newline = ['\n'])
    (depth : Nat) :
    (t : Tree Node) → {path : List String} → nests path t = true → t.Each Formed →
      t.Each (Durable options.indent) → nests path (relaid options depth t) = true
  | .node v ts, path, hnests, hformed, h => by
    cases v with
    | element e =>
      rw [nests, Bool.and_eq_true, Bool.and_eq_true, decide_eq_true_eq] at hnests
      obtain ⟨⟨he, hfits⟩, hts⟩ := hnests
      rw [relaid_element, nests, name_tagOf_laidOut, hfits,
        decide_eq_true ((h.1.attributes e rfl).isTag_laidOut he)]
      cases hraw : rawContent? (tagOf e).name with
      | some raw =>
        rw [hraw] at hts
        exact holdsRaw_relaidContent hindent hfeed he.name hraw hts hformed.1 h.1 depth
      | none =>
        rw [hraw] at hts
        rw [fits_iff, hraw] at hfits
        have hadmits : admits path (tagOf e).name = true := hfits.2
        obtain ⟨r, hrole⟩ := exists_role_of_admits hadmits
        have hlaid := laid_layoutOf options.inlineSingleText e (ts.map value)
        generalize layoutOf .html options.inlineSingleText e (ts.map value) = layout at hlaid
        dsimp only at hts ⊢
        split at hts
        next hvoid =>
          rw [if_pos hvoid]
          have hvoid' := isVoid_of_void hvoid
          cases hlaid with
          | void => rfl
          | verbatim hvoid | stylesheet hvoid | empty hvoid | singleLine hvoid | block hvoid =>
            cases hvoid.symm.trans hvoid'
        next hvoid =>
          rw [if_neg hvoid]
          have hmode : (modeOf ((tagOf e).name :: path)).isOfBody = true := by
            rw [modeOf_cons_of_roleOf? hrole]
            exact hfits.1
          cases hlaid with
          | void | empty => rfl
          | verbatim => exact nestsAll_inlaidAll hindent (depth + 2) ts hts hformed.2 h.2
          | stylesheet hvoid hpre hstyle =>
            cases hstyle.symm.trans (isStyle_of_rawContent?_eq_none he.name hraw)
          | singleLine hvoid hpre hstyle hcounted =>
            obtain ⟨hne, hsafe⟩ := isSafeText_of_counted hts hcounted
            rw [relaidContent, nestsAll, nests_text hmode hne hsafe]
            rfl
          | block =>
            exact nestsAll_relaidAfter hindent hfeed (depth + 1) ts hmode hts hformed.2 h.2
              (isSafeText_lineGap hindent hfeed depth) [] (by decide)
    | text t | comment t =>
      obtain rfl := hformed.1.leaf rfl
      exact hnests
    | _ => cases hnests

theorem nestsAll_relaidAfter (hindent : PlainIndent options) (hfeed : options.newline = ['\n'])
    (depth : Nat) {last : Text} :
    (ts : List (Tree Node)) → {path : List String} → (modeOf path).isOfBody = true →
      nestsAll path ts = true → EachOfAll Formed ts → EachOfAll (Durable options.indent) ts →
        IsSafeText last → (pending : Text) → IsSafeText pending →
          nestsAll path (relaidAfter options depth last pending ts) = true
  | [], path, hmode, _, _, _, hlast, pending, hpending => by
    have htexts : nestsAll path (textTrees (pending ++ last) ++ []) = true :=
      nestsAll_textTrees_append hmode (isSafeText_append hpending hlast) rfl rfl
    rwa [List.append_nil] at htexts
  | .node v us :: ts, path, hmode, hnests, hformed, h, hlast, pending, hpending => by
    rw [nestsAll, Bool.and_eq_true, Bool.and_eq_true] at hnests
    cases hv : v.isText with
    | true =>
      obtain ⟨t, rfl⟩ := exists_of_isText hv
      have hspread := isSafeText_spreadText hindent hfeed depth (isSafeText_of_nests hnests.1.1)
      exact nestsAll_relaidAfter hindent hfeed depth ts hmode hnests.2 hformed.2 h.2 hlast _
        (isSafeText_append hpending hspread)
    | false =>
      have hfirst := nests_relaid hindent hfeed depth (.node v us) hnests.1.1 hformed.1 h.1
      have hrest := nestsAll_relaidAfter hindent hfeed depth ts hmode hnests.2 hformed.2 h.2 hlast
        []
        (by decide)
      have htext : (relaid options depth (.node v us)).value.isText = false :=
        (isText_relaid depth _).trans hv
      rw [relaidAfter_of_isText_eq_false (t := .node v us) hv]
      refine nestsAll_textTrees_append hmode
        (isSafeText_append hpending (isSafeText_lineGap hindent hfeed depth)) ?_ htext
      rw [nestsAll, hfirst, hrest, htext]
      rfl

end

end Markup

end PrettyPayload
