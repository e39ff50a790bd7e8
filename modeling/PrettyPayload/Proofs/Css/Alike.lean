import PrettyPayload.Proofs.Css.Append

/-!
# Texts alike but for white space

Two texts without comments and without backslashes are alike if they differ in the white space
between their literals alone: where the one has a run of ASCII white space, the other has another
one. Each scan of a stylesheet takes alike texts to alike parts, since a run of white space leaves
its state as it was, and what is kept of a text is the same of both: its words and the text
collapsed. So alike texts are read alike, their faults included.
-/

namespace PrettyPayload

namespace Css

variable {s t v w : Text} {c : Char} {k : Quoting} {stops : Char → Bool} {top : Bool}

/-- Two texts without backslashes that differ in the runs of white space outside literals alone,
from a state of their scan on. -/
inductive Alike : Quoting → Text → Text → Prop
  | nil (k : Quoting) : Alike k [] []
  | cons {k : Quoting} {c : Char} {s t : Text} (hc : c ≠ '\\') (h : Alike (k.step c) s t) :
      Alike k (c :: s) (c :: t)
  | run {v w s t : Text} (hv : IsRun v) (hw : IsRun w) (h : Alike Quoting.start s t) :
      Alike Quoting.start (v ++ s) (w ++ t)

theorem not_isBlank_and_not_isQuote_of_endsItem (c : Char) (hc : endsItem c = true) :
    Text.isBlank c = false ∧ isQuote c = false := by
  refine ⟨isBlank_of_endsItem c hc, ?_⟩
  simp only [endsItem, Bool.or_eq_true, decide_eq_true_eq] at hc
  rcases hc with (rfl | rfl) | rfl <;> decide

namespace Alike

theorem symm (h : Alike k s t) : Alike k t s := by
  induction h with
  | nil k => exact .nil k
  | cons hc _ ih => exact .cons hc ih
  | run hv hw _ ih => exact .run hw hv ih

theorem eq_nil_iff (h : Alike k s t) : s = [] ↔ t = [] := by
  cases h with
  | nil k => exact Iff.rfl
  | cons hc h => simp
  | run hv hw h => simp [hv.1, hw.1]

theorem concat (h : Alike k s t) (hc : c ≠ '\\') : Alike k (s ++ [c]) (t ++ [c]) := by
  induction h with
  | nil k => exact .cons hc (.nil _)
  | cons hd _ ih => exact .cons hd ih
  | run hv hw _ ih =>
    rw [List.append_assoc, List.append_assoc]
    exact .run hv hw ih

/-- A character that is no ASCII white space stands in both texts. -/
theorem exists_cons (h : Alike k (c :: s) t) (hc : Text.isAsciiBlank c = false) :
    ∃ u, t = c :: u ∧ c ≠ '\\' ∧ Alike (k.step c) s u := by
  generalize hcs : c :: s = cs at h
  cases h with
  | nil => cases hcs
  | cons hslash h =>
    obtain ⟨rfl, rfl⟩ := List.cons.inj hcs
    exact ⟨_, rfl, hslash, h⟩
  | @run v w s' t' hv hw h =>
    obtain ⟨d, v, rfl⟩ := List.exists_cons_of_ne_nil hv.1
    obtain rfl := (List.cons.inj hcs).1
    rw [hv.2 c List.mem_cons_self] at hc
    cases hc

/-- Behind ASCII white space the rest of a text is alike the other text, but for its white space. -/
theorem exists_append (h : Alike Quoting.start (c :: s) t) (hc : Text.isAsciiBlank c = true) :
    ∃ w u, t = w ++ u ∧ (∀ d ∈ w, Text.isAsciiBlank d = true) ∧ Alike Quoting.start s u := by
  generalize hcs : c :: s = cs at h
  generalize hk : Quoting.start = k at h ⊢
  cases h with
  | nil => cases hcs
  | @cons k d s' t' hslash h =>
    obtain ⟨rfl, rfl⟩ := List.cons.inj hcs
    rw [← hk, Quoting.start_step_of_blank (isBlank_of_isAsciiBlank hc), hk] at h
    exact ⟨[c], t', rfl, List.forall_mem_singleton.2 hc, h⟩
  | @run v w s' t' hv hw h =>
    obtain ⟨d, v, rfl⟩ := List.exists_cons_of_ne_nil hv.1
    obtain ⟨rfl, rfl⟩ := List.cons.inj hcs
    cases v with
    | nil => exact ⟨w, t', rfl, hw.2, h⟩
    | cons e v =>
      have hrun : IsRun (e :: v) := ⟨List.cons_ne_nil e v, (List.forall_mem_cons.1 hv.2).2⟩
      exact ⟨[], w ++ t', rfl, List.forall_mem_nil _, .run hrun hw h⟩

/-! ## Trimming and collapsing -/

theorem trimStart (h : Alike Quoting.start s t) :
    Alike Quoting.start (Text.trimStart Text.isBlank s) (Text.trimStart Text.isBlank t) := by
  generalize hk : Quoting.start = k at h ⊢
  induction h with
  | nil => exact .nil _
  | @cons k c s t hc h ih =>
    unfold Text.trimStart at ih ⊢
    cases hblank : Text.isBlank c with
    | true =>
      rw [List.dropWhile_cons_of_pos hblank, List.dropWhile_cons_of_pos hblank]
      have hstep : k.step c = k := by rw [← hk, Quoting.start_step_of_blank hblank]
      rw [hstep] at ih
      exact ih hk
    | false =>
      rw [List.dropWhile_cons_of_neg (by simp [hblank]),
        List.dropWhile_cons_of_neg (by simp [hblank])]
      exact .cons hc h
  | run hv hw _ ih =>
    rw [Text.trimStart_append_of_all hv.isBlank, Text.trimStart_append_of_all hw.isBlank]
    exact ih rfl

theorem trimEnd (h : Alike k s t) :
    Alike k (Text.trimEnd Text.isBlank s) (Text.trimEnd Text.isBlank t) := by
  induction h with
  | nil k => exact .nil k
  | @cons k c s t hc h ih =>
    by_cases hnil : Text.trimEnd Text.isBlank s = []
    · have hnil' := ih.eq_nil_iff.1 hnil
      rw [Text.trimEnd, Text.trimEnd, hnil, hnil']
      dsimp only
      split
      · exact .nil k
      · exact .cons hc (.nil _)
    · have hnil' := mt ih.eq_nil_iff.2 hnil
      rw [Text.trimEnd_cons_of_ne_nil hnil, Text.trimEnd_cons_of_ne_nil hnil']
      exact .cons hc ih
  | @run v w s t hv hw h ih =>
    by_cases hnil : Text.trimEnd Text.isBlank s = []
    · have hnil' := ih.eq_nil_iff.1 hnil
      rw [Text.trimEnd_append_of_eq_nil hnil, Text.trimEnd_append_of_eq_nil hnil',
        Text.trimEnd_eq_nil hv.isBlank, Text.trimEnd_eq_nil hw.isBlank]
      exact .nil _
    · have hnil' := mt ih.eq_nil_iff.2 hnil
      rw [Text.trimEnd_append_of_ne_nil hnil, Text.trimEnd_append_of_ne_nil hnil']
      exact .run hv hw ih

theorem trim (h : Alike Quoting.start s t) :
    Alike Quoting.start (Text.trim Text.isBlank s) (Text.trim Text.isBlank t) :=
  h.trimStart.trimEnd

theorem spaced (h : Alike k s t) : Spaced s t := by
  induction h with
  | nil k => exact .nil
  | cons _ _ ih => exact .cons _ ih
  | run hv hw _ ih => exact .run hv hw ih

theorem excerpt_eq (h : Alike k s t) : excerpt s = excerpt t := h.spaced.excerpt_append []

end Alike

/-- The state of a scan that has met no backslash outside literals. -/
def Spot.quoting : Spot → Quoting
  | between _ => Quoting.start
  | inside quote escaped => ⟨some quote, escaped⟩

theorem Spot.quoting_step (spot : Spot) (hc : c ≠ '\\') :
    (spot.step c).quoting = spot.quoting.step c := by
  cases spot with
  | between spaced =>
    cases hquote : isQuote c with
    | true => simp [Spot.step, Spot.quoting, Quoting.step, Quoting.start, hc, hquote]
    | false => simp [Spot.step, Spot.quoting, Quoting.step, Quoting.start, hc, hquote]
  | inside quote escaped =>
    cases escaped with
    | true => rfl
    | false =>
      by_cases heq : c = quote
      · subst heq
        simp [Spot.step, Spot.quoting, Quoting.step, hc]
      · simp [Spot.step, Spot.quoting, Quoting.step, hc, heq]

namespace Alike

theorem collapseFrom_eq {spot : Spot} (h : Alike spot.quoting s t) :
    collapseFrom spot s = collapseFrom spot t := by
  generalize hk : spot.quoting = k at h
  induction h generalizing spot with
  | nil => rfl
  | cons hc _ ih =>
    rw [collapseFrom, collapseFrom, ih (by rw [Spot.quoting_step spot hc, hk])]
  | run hv hw _ ih =>
    cases spot with
    | inside quote escaped => cases hk
    | between spaced =>
      rw [collapseFrom_run hv, collapseFrom_run hw,
        ih (show (Spot.between true).quoting = Quoting.start from rfl)]

theorem collapse_eq (h : Alike Quoting.start s t) : collapse s = collapse t := by
  have hcopy : collapseFrom (.between false) s = collapseFrom (.between false) t :=
    collapseFrom_eq h
  rw [collapse, hcopy, collapse]

/-! ## Cutting -/

theorem breakAt_cases {n : Nesting} (h : Alike n.quoting s t)
    (hs : ∀ c, stops c = true → Text.isBlank c = false ∧ isQuote c = false) :
    breakAt stops n s = none ∧ breakAt stops n t = none ∨
      ∃ before before' d after after', breakAt stops n s = some (before, d, after) ∧
        breakAt stops n t = some (before', d, after') ∧ Alike n.quoting before before' ∧
        Alike Quoting.start after after' := by
  generalize hk : n.quoting = k at h ⊢
  induction h generalizing n with
  | nil => exact Or.inl ⟨rfl, rfl⟩
  | @cons k c s t hc h ih =>
    cases hstop : n.isTop && stops c with
    | true =>
      obtain ⟨htop, hstop'⟩ := Bool.and_eq_true_iff.1 hstop
      obtain rfl := Nesting.eq_start_of_isTop htop
      rw [← hk, show Nesting.start.quoting = Quoting.start from rfl,
        Quoting.start_step hc (hs c hstop').2] at h
      refine Or.inr ⟨[], [], c, s, t, ?_, ?_, .nil k, h⟩ <;> rw [breakAt, if_pos hstop]
    | false =>
      have hstep : (n.step c).quoting = k.step c := by rw [Nesting.quoting_step, hk]
      rw [breakAt, breakAt, hstop, if_neg Bool.false_ne_true, if_neg Bool.false_ne_true]
      rcases ih hstep with ⟨hs, ht⟩ | ⟨before, before', d, after, after', hs, ht, hbefore, hafter⟩
      · exact Or.inl ⟨by rw [hs]; rfl, by rw [ht]; rfl⟩
      · exact Or.inr ⟨c :: before, c :: before', d, after, after', by rw [hs]; rfl,
          by rw [ht]; rfl, .cons hc hbefore, hafter⟩
  | @run v w s t hv hw _ ih =>
    have hquoted : n.Quoted := fun q hq => by
      rw [hk] at hq
      cases hq
    have hescaped : n.quoting.escaped = false := by rw [hk]; rfl
    have hblank : ∀ c, stops c = true → Text.isBlank c = false := fun c hc => (hs c hc).1
    rw [breakAt_append (breakAt_of_blanks hblank hv.isBlank n),
      breakAt_append (breakAt_of_blanks hblank hw.isBlank n),
      hquoted.after_blanks hescaped hv.isBlank, hquoted.after_blanks hescaped hw.isBlank]
    rcases ih hk with ⟨hs, ht⟩ | ⟨before, before', d, after, after', hs, ht, hbefore, hafter⟩
    · exact Or.inl ⟨by rw [hs]; rfl, by rw [ht]; rfl⟩
    · exact Or.inr ⟨v ++ before, w ++ before', d, after, after', by rw [hs]; rfl,
        by rw [ht]; rfl, .run hv hw hbefore, hafter⟩

theorem breakAt_eq_none {n : Nesting} (h : Alike n.quoting s t)
    (hs : ∀ c, stops c = true → Text.isBlank c = false ∧ isQuote c = false)
    (hcut : breakAt stops n s = none) : breakAt stops n t = none := by
  rcases breakAt_cases h hs with ⟨-, ht⟩ | ⟨_, _, _, _, _, hcut', -⟩
  · exact ht
  · rw [hcut] at hcut'
    cases hcut'

theorem exists_of_breakAt {n : Nesting} (h : Alike n.quoting s t)
    (hs : ∀ c, stops c = true → Text.isBlank c = false ∧ isQuote c = false) {before after : Text}
    {d : Char} (hcut : breakAt stops n s = some (before, d, after)) :
    ∃ before' after', breakAt stops n t = some (before', d, after') ∧
      Alike n.quoting before before' ∧ Alike Quoting.start after after' := by
  rcases breakAt_cases h hs with
    ⟨hcut', -⟩ | ⟨_, before', _, _, after', hcut', ht, hbefore, hafter⟩
  · rw [hcut] at hcut'
    cases hcut'
  · rw [hcut] at hcut'
    cases hcut'
    exact ⟨before', after', ht, hbefore, hafter⟩

/-- Alike texts have alike parts between the separators. -/
theorem splitAtTop (h : Alike Quoting.start s t) {sep : Char}
    (hsep : Text.isBlank sep = false ∧ isQuote sep = false) :
    List.Forall₂ (Alike Quoting.start) (Css.splitAtTop sep s) (Css.splitAtTop sep t) := by
  have hs : ∀ c, decide (c = sep) = true → Text.isBlank c = false ∧ isQuote c = false := by
    intro c hc
    rwa [of_decide_eq_true hc]
  fun_induction Css.splitAtTop sep s generalizing t with
  | case1 s hcut =>
    rw [Css.splitAtTop, breakAt_eq_none (n := Nesting.start) h hs hcut]
    exact .cons h .nil
  | case2 s before stop after hcut ih =>
    obtain ⟨before', after', ht, hbefore, hafter⟩ :=
      exists_of_breakAt (n := Nesting.start) h hs hcut
    have hsplit : Css.splitAtTop sep t = before' :: Css.splitAtTop sep after' := by
      rw [Css.splitAtTop, ht]
    rw [hsplit]
    exact .cons hbefore (ih hafter)

theorem closeBlock_cases (h : Alike k s t) (depth : Nat) :
    closeBlock k depth s = none ∧ closeBlock k depth t = none ∨
      ∃ body body' rest rest', closeBlock k depth s = some (body, rest) ∧
        closeBlock k depth t = some (body', rest') ∧ Alike k body body' ∧
        Alike Quoting.start rest rest' := by
  induction h generalizing depth with
  | nil k => exact Or.inl (by cases depth <;> exact ⟨rfl, rfl⟩)
  | @cons k c s t hc h ih =>
    rw [closeBlock_cons, closeBlock_cons]
    cases hdepth : depthAfter? k depth c with
    | none =>
      obtain ⟨hplain, rfl⟩ : k.isPlain = true ∧ c = '}' := by
        unfold depthAfter? at hdepth
        split at hdepth
        next hclose => simpa using hclose
        next => cases hdepth
      obtain rfl : k = Quoting.start := by
        obtain ⟨quote, escaped⟩ := k
        cases quote <;> cases escaped <;> first | rfl | cases hplain
      exact Or.inr ⟨[], [], s, t, rfl, rfl, .nil _, h⟩
    | some d =>
      dsimp only
      rcases ih d with ⟨hs, ht⟩ | ⟨body, body', rest, rest', hs, ht, hbody, hrest⟩
      · exact Or.inl ⟨by rw [hs]; rfl, by rw [ht]; rfl⟩
      · exact Or.inr ⟨c :: body, c :: body', rest, rest', by rw [hs]; rfl, by rw [ht]; rfl,
          .cons hc hbody, hrest⟩
  | @run v w s t hv hw _ ih =>
    have hpass : ∀ u, IsRun u → blockAfter? Quoting.start depth u = some (Quoting.start, depth) :=
      fun u hu => blockAfter?_of_blanks Nesting.quoted_start rfl hu.isBlank depth
    rw [closeBlock_append (hpass v hv), closeBlock_append (hpass w hw)]
    rcases ih depth with ⟨hs, ht⟩ | ⟨body, body', rest, rest', hs, ht, hbody, hrest⟩
    · exact Or.inl ⟨by rw [hs]; rfl, by rw [ht]; rfl⟩
    · exact Or.inr ⟨v ++ body, w ++ body', rest, rest', by rw [hs]; rfl, by rw [ht]; rfl,
        .run hv hw hbody, hrest⟩

/-- A text of characters that are no white space stands in front of both texts. -/
theorem exists_append_of_plain {u : Text} (h : Alike Quoting.start (u ++ s) t)
    (hu : ∀ c ∈ u, Text.isAsciiBlank c = false ∧ isQuote c = false) :
    ∃ t', t = u ++ t' ∧ Alike Quoting.start s t' := by
  induction u generalizing t with
  | nil => exact ⟨t, rfl, h⟩
  | cons c u ih =>
    obtain ⟨hc, hu⟩ := List.forall_mem_cons.1 hu
    obtain ⟨v, rfl, hslash, hv⟩ := h.exists_cons hc.1
    rw [Quoting.start_step hslash hc.2] at hv
    obtain ⟨t', rfl, ht'⟩ := ih hv hu
    exact ⟨t', rfl, ht'⟩

theorem skipSeparators (h : Alike Quoting.start s t) :
    Alike Quoting.start (Css.skipSeparators top s) (Css.skipSeparators top t) := by
  have hopen : ∀ c ∈ "<!--".toList, Text.isAsciiBlank c = false ∧ isQuote c = false :=
    Text.forall_mem_of_all (by decide)
  have hclose : ∀ c ∈ "-->".toList, Text.isAsciiBlank c = false ∧ isQuote c = false :=
    Text.forall_mem_of_all (by decide)
  fun_induction Css.skipSeparators top s generalizing t with
  | case1 s htop ih =>
    obtain ⟨u, rfl, hu⟩ := exists_append_of_plain (u := "<!--".toList) h hopen
    simpa [Css.skipSeparators, htop] using ih hu
  | case2 s htop =>
    obtain ⟨u, rfl, -⟩ := exists_append_of_plain (u := "<!--".toList) h hopen
    simpa [Css.skipSeparators, htop] using h
  | case3 s htop ih =>
    obtain ⟨u, rfl, hu⟩ := exists_append_of_plain (u := "-->".toList) h hclose
    simpa [Css.skipSeparators, htop] using ih hu
  | case4 s htop =>
    obtain ⟨u, rfl, -⟩ := exists_append_of_plain (u := "-->".toList) h hclose
    simpa [Css.skipSeparators, htop] using h
  | case5 c s hno hno' hc ih =>
    rcases Bool.or_eq_true_iff.1 hc with hblank | hsemi
    · obtain ⟨w, u, rfl, hw, hu⟩ := h.exists_append hblank
      rw [skipSeparators_append hw]
      exact ih hu
    · obtain rfl := of_decide_eq_true hsemi
      obtain ⟨u, rfl, hu⟩ := exists_append_of_plain (u := [';']) h
        (List.forall_mem_singleton.2 (by decide))
      simpa [Css.skipSeparators, Text.isAsciiBlank] using ih hu
  | case6 c s hno hno' hc =>
    have hblank : Text.isAsciiBlank c = false := by
      rw [Bool.eq_false_iff]
      exact fun hblank => hc (Bool.or_eq_true_iff.2 (Or.inl hblank))
    obtain ⟨u, rfl, -, -⟩ := h.exists_cons hblank
    have hmark : ∀ m : Text, (∀ d ∈ m, Text.isAsciiBlank d = false ∧ isQuote d = false) →
        m <+: c :: u → m <+: c :: s := by
      rintro m hm ⟨r, hr⟩
      obtain ⟨r', hr', -⟩ := exists_append_of_plain (hr ▸ h.symm) hm
      exact ⟨r', hr'.symm⟩
    rw [Css.skipSeparators, if_neg hc]
    · exact h
    · rintro r rfl rfl
      obtain ⟨r', hr'⟩ := hmark "<!--".toList hopen ⟨r, rfl⟩
      exact hno r' rfl (List.cons.inj hr').2.symm
    · rintro r rfl rfl
      obtain ⟨r', hr'⟩ := hmark "-->".toList hclose ⟨r, rfl⟩
      exact hno' r' rfl (List.cons.inj hr').2.symm
  | case7 =>
    obtain rfl := h.eq_nil_iff.1 rfl
    exact .nil _

/-! ## Reading -/

theorem readDeclaration_eq (h : Alike Quoting.start s t) :
    readDeclaration s = readDeclaration t := by
  have hs : ∀ c, decide (c = ':') = true → Text.isBlank c = false ∧ isQuote c = false := by
    intro c hc
    rw [of_decide_eq_true hc]
    decide
  unfold readDeclaration
  dsimp only
  rw [h.trim.excerpt_eq]
  rcases breakAt_cases (n := Nesting.start) h.trim hs with
    ⟨hcut, hcut'⟩ | ⟨before, before', d, after, after', hcut, hcut', hbefore, hafter⟩
  · rw [hcut, hcut']
  · rw [hcut, hcut']
    dsimp only
    rw [hbefore.collapse_eq, hafter.collapse_eq]

theorem readStatement_eq (h : Alike Quoting.start s t) (top : Bool) :
    readStatement top s = readStatement top t := by
  have htrim := h.trim
  have hat : ∀ {s t : Text}, Alike Quoting.start ('@' :: s) t →
      ∃ u, t = '@' :: u ∧ Alike Quoting.start s u := fun h =>
    exists_append_of_plain (u := ['@']) h (List.forall_mem_singleton.2 (by decide))
  unfold readStatement
  dsimp only
  rw [htrim.excerpt_eq, htrim.readDeclaration_eq]
  generalize (if top = true then
      Except.error (Error.strayDeclaration (excerpt (Text.trim Text.isBlank t)))
    else Item.declaration <$> readDeclaration (Text.trim Text.isBlank t)) = asDeclaration
  split
  next rest hrest =>
    rw [hrest] at htrim
    obtain ⟨u, hu, hrest⟩ := hat htrim
    rw [hu]
    simp only [hrest.collapse_eq]
  next hno =>
    split
    next rest hrest =>
      rw [hrest] at htrim
      obtain ⟨u, hu, -⟩ := hat htrim.symm
      exact absurd hu (hno u)
    next => rfl

theorem readHead_eq (h : Alike Quoting.start s t) {body body' : Text} (hbody : Alike k body body') :
    readHead s body = readHead t body' := by
  unfold readHead
  rw [h.collapse_eq, hbody.excerpt_eq]

theorem exists_of_skipSeparators (h : Alike Quoting.start s t) {u : Text}
    (hskip : Css.skipSeparators top s = c :: u) :
    ∃ d v, Css.skipSeparators top t = d :: v ∧ Alike Quoting.start (c :: u) (d :: v) := by
  have hrest : Alike Quoting.start (Css.skipSeparators top s) (Css.skipSeparators top t) :=
    h.skipSeparators
  rw [hskip] at hrest
  obtain ⟨d, v, hv⟩ := List.exists_cons_of_ne_nil (mt hrest.eq_nil_iff.2 (List.cons_ne_nil c u))
  exact ⟨d, v, hv, hv ▸ hrest⟩

theorem exists_of_cut (h : Alike Quoting.start s t) {u before after : Text} {stop : Char}
    (hskip : Css.skipSeparators top s = c :: u)
    (hcut : breakAt endsItem Nesting.start (c :: u) = some (before, stop, after)) :
    ∃ d v before' after', Css.skipSeparators top t = d :: v ∧
      breakAt endsItem Nesting.start (d :: v) = some (before', stop, after') ∧
      Alike Quoting.start before before' ∧ Alike Quoting.start after after' := by
  obtain ⟨d, v, hv, hrest⟩ := h.exists_of_skipSeparators hskip
  obtain ⟨before', after', hcut', hbefore, hafter⟩ :=
    exists_of_breakAt (n := Nesting.start) hrest not_isBlank_and_not_isQuote_of_endsItem hcut
  exact ⟨d, v, before', after', hv, hcut', hbefore, hafter⟩

theorem readItems_eq (h : Alike Quoting.start s t) (top : Bool) :
    readItems top s = readItems top t := by
  fun_induction readItems top s generalizing t with
  | case1 top s hnil => rw [Css.readItems_eq top t, h.skipSeparators.eq_nil_iff.1 hnil]
  | case2 top s c u hu hcut =>
    obtain ⟨d, v, hv, hrest⟩ := h.exists_of_skipSeparators hu
    have hcut' : breakAt endsItem Nesting.start (d :: v) = none :=
      breakAt_eq_none (n := Nesting.start) hrest not_isBlank_and_not_isQuote_of_endsItem hcut
    rw [Css.readItems_eq top t, hv]
    simp only [hcut', hrest.readStatement_eq]
  | case3 top s c u hu before after hcut =>
    obtain ⟨d, v, before', after', hv, hcut', hbefore, -⟩ := h.exists_of_cut hu hcut
    rw [Css.readItems_eq top t, hv]
    simp only [hcut', if_true, (hbefore.concat (c := '}') (by decide)).excerpt_eq]
  | case4 top s c u hu before after hclose hcut hne =>
    obtain ⟨d, v, before', after', hv, hcut', hbefore, hafter⟩ := h.exists_of_cut hu hcut
    rw [Css.readItems_eq top t, hv]
    rcases hafter.closeBlock_cases 0 with ⟨-, hclose'⟩ | ⟨_, _, _, _, hclose', -⟩
    · simp only [hcut', if_neg hne, if_true, hclose', hbefore.excerpt_eq]
    · rw [hclose] at hclose'
      cases hclose'
  | case5 top s c u hu before after body rest hclose hcut hne ihbody ihrest =>
    obtain ⟨d, v, before', after', hv, hcut', hbefore, hafter⟩ := h.exists_of_cut hu hcut
    rw [Css.readItems_eq top t, hv]
    rcases hafter.closeBlock_cases 0 with
      ⟨hclose', -⟩ | ⟨_, body', _, rest', hclose', hclose'', hbody, hrest⟩
    · rw [hclose] at hclose'
      cases hclose'
    · rw [hclose] at hclose'
      cases hclose'
      simp only [hcut', if_neg hne, if_true, hclose'', hbefore.readHead_eq hbody, ihbody hbody,
        ihrest hrest]
  | case6 top s c u hu before stop after hcut hclose hopen ih =>
    obtain ⟨d, v, before', after', hv, hcut', hbefore, hafter⟩ := h.exists_of_cut hu hcut
    rw [Css.readItems_eq top t, hv]
    simp only [hcut', if_neg hclose, if_neg hopen, hbefore.readStatement_eq, ih hafter]

theorem readDeclarations_eq (h : Alike Quoting.start s t) :
    readDeclarations s = readDeclarations t := by
  unfold readDeclarations
  have hparts := h.splitAtTop (show Text.isBlank ';' = false ∧ isQuote ';' = false by decide)
  generalize Css.splitAtTop ';' s = parts at hparts ⊢
  generalize Css.splitAtTop ';' t = parts' at hparts ⊢
  induction hparts with
  | nil => rfl
  | @cons part part' parts parts' hpart _ ih =>
    have hne : Text.trim Text.isBlank part = [] ↔ Text.trim Text.isBlank part' = [] :=
      hpart.trim.eq_nil_iff
    by_cases hnil : Text.trim Text.isBlank part = []
    · rw [List.filter_cons_of_neg (by simp [hnil]), List.filter_cons_of_neg (by simp [hne.1 hnil])]
      exact ih
    · have hnil' := mt hne.2 hnil
      rw [List.filter_cons_of_pos (by simp [hnil]), List.filter_cons_of_pos (by simp [hnil']),
        List.mapM_cons, List.mapM_cons, hpart.readDeclaration_eq, ih]

end Alike

end Css

end PrettyPayload
