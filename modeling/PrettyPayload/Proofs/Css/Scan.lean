import PrettyPayload.Proofs.Css.Comment

/-!
# Scans of texts in a row

Each scan of a stylesheet goes through its text character by character. Behind a text that does not
stop it, it goes on from the state that this text has left it in: `Nesting.after` for the search for
a separator, `blockAfter?` for the search for the end of a block, and `Spot.after` for the
collapsing of white space.

Collapsing changes white space alone, and white space that no backslash stands before means nothing
to the search for a separator: `breakAt_collapse_eq_none` says that where there was no separator,
there is none in the collapsed text either.
-/

namespace PrettyPayload

namespace Css

variable {stops : Char → Bool} {s t rest : Text} {c : Char}

/-! ## Searching for a separator -/

section Nesting

variable {k : Nesting}

def Nesting.after (k : Nesting) (t : Text) : Nesting := t.foldl Nesting.step k

@[simp] theorem Nesting.after_nil (k : Nesting) : k.after [] = k := rfl

@[simp] theorem Nesting.after_cons (k : Nesting) (c : Char) (t : Text) :
    k.after (c :: t) = (k.step c).after t := rfl

theorem Nesting.after_append (k : Nesting) (s t : Text) : k.after (s ++ t) = (k.after s).after t :=
  List.foldl_append

theorem breakAt_cons_eq_none_iff :
    breakAt stops k (c :: t) = none ↔
      (k.isTop && stops c) = false ∧ breakAt stops (k.step c) t = none := by
  rw [breakAt]
  cases k.isTop && stops c <;> simp

/-- Behind a text without a separator the search goes on. -/
theorem breakAt_append (h : breakAt stops k t = none) (rest : Text) :
    breakAt stops k (t ++ rest) =
      (breakAt stops (k.after t) rest).map fun (before, d, after) => (t ++ before, d, after) := by
  induction t generalizing k with
  | nil => simp
  | cons c t ih =>
    obtain ⟨hc, ht⟩ := breakAt_cons_eq_none_iff.1 h
    rw [List.cons_append, breakAt, hc, if_neg Bool.false_ne_true, ih ht, Option.map_map]
    rfl

/-- A separator that counts right behind such a text is the first one. -/
theorem breakAt_append_cons (h : breakAt stops k t = none) (htop : (k.after t).isTop = true)
    (hc : stops c = true) (rest : Text) :
    breakAt stops k (t ++ c :: rest) = some (t, c, rest) := by
  rw [breakAt_append h, breakAt, htop, hc]
  exact congrArg (fun before => some (before, c, rest)) (List.append_nil t)

theorem breakAt_append_eq_none_iff :
    breakAt stops k (s ++ t) = none ↔
      breakAt stops k s = none ∧ breakAt stops (k.after s) t = none := by
  induction s generalizing k with
  | nil => simp [breakAt]
  | cons c s ih =>
    rw [List.cons_append, breakAt_cons_eq_none_iff, breakAt_cons_eq_none_iff, ih, and_assoc]
    rfl

theorem eq_none_of_breakAt {before after : Text} {d : Char}
    (h : breakAt stops k t = some (before, d, after)) :
    breakAt stops k before = none ∧ k.after before = Nesting.start := by
  induction t generalizing k before with
  | nil => cases h
  | cons c t ih =>
    rw [breakAt] at h
    split at h
    next hc =>
      obtain ⟨rfl, -⟩ := Prod.mk.inj (Option.some.inj h)
      exact ⟨rfl, Nesting.eq_start_of_isTop (Bool.and_eq_true_iff.1 hc).1⟩
    next hc =>
      obtain ⟨⟨b, e, a⟩, hb, he⟩ := Option.map_eq_some_iff.1 h
      simp only [Prod.mk.injEq] at he
      obtain ⟨rfl, rfl, rfl⟩ := he
      obtain ⟨hnone, hstart⟩ := ih hb
      exact ⟨breakAt_cons_eq_none_iff.2 ⟨Bool.eq_false_iff.2 hc, hnone⟩, hstart⟩

/-- The first separator of a text is that of every text that goes on behind it. -/
theorem breakAt_append_of_some {before after : Text} {d : Char}
    (h : breakAt stops k t = some (before, d, after)) (s : Text) :
    breakAt stops k (t ++ s) = some (before, d, after ++ s) := by
  obtain ⟨hnone, hstart⟩ := eq_none_of_breakAt h
  obtain ⟨rfl, hstop⟩ := breakAt_eq_some h
  rw [List.append_assoc, List.cons_append]
  exact breakAt_append_cons hnone (by rw [hstart]; rfl) hstop _

/-- There is nothing to cut at if the scan is inside something wherever a separator stands. -/
theorem breakAt_eq_none_iff :
    breakAt stops k t = none ↔
      ∀ front c back, t = front ++ c :: back → stops c = true → (k.after front).isTop = false := by
  induction t generalizing k with
  | nil => simp [breakAt]
  | cons c t ih =>
    rw [breakAt_cons_eq_none_iff, ih]
    constructor
    · rintro ⟨hc, ht⟩ front d back heq hd
      cases front with
      | nil =>
        obtain rfl := (List.cons.inj heq).1
        simpa [hd] using hc
      | cons e front =>
        obtain ⟨rfl, hfront⟩ := List.cons.inj heq
        exact ht front d back hfront hd
    · intro h
      refine ⟨?_, fun front d back heq hd => h (c :: front) d back (congrArg (c :: ·) heq) hd⟩
      cases hc : stops c with
      | false => exact Bool.and_false _
      | true => exact Bool.and_eq_false_imp.2 fun htop => absurd (h [] c t rfl hc) (by simp [htop])

theorem breakAt_mono {stops' : Char → Bool} (hs : ∀ c, stops' c = true → stops c = true)
    (h : breakAt stops k t = none) : breakAt stops' k t = none := by
  induction t generalizing k with
  | nil => rfl
  | cons c t ih =>
    obtain ⟨hc, ht⟩ := breakAt_cons_eq_none_iff.1 h
    refine breakAt_cons_eq_none_iff.2 ⟨?_, ih ht⟩
    rw [Bool.eq_false_iff, ne_eq, Bool.and_eq_true] at hc ⊢
    exact fun hstop => hc ⟨hstop.1, hs c hstop.2⟩

theorem breakAt_or_eq_none {stops' : Char → Bool} (h : breakAt stops k t = none)
    (h' : breakAt stops' k t = none) : breakAt (fun c => stops c || stops' c) k t = none := by
  induction t generalizing k with
  | nil => rfl
  | cons c t ih =>
    obtain ⟨hc, ht⟩ := breakAt_cons_eq_none_iff.1 h
    obtain ⟨hc', ht'⟩ := breakAt_cons_eq_none_iff.1 h'
    refine breakAt_cons_eq_none_iff.2 ⟨?_, ih ht ht'⟩
    rw [Bool.and_or_distrib_left, hc, hc', Bool.or_false]

end Nesting

/-! ## Searching for the end of a block -/

section Block

variable {k k' : Quoting} {depth depth' : Nat}

/-- The number of open blocks behind one more character, if it does not close the outermost. -/
def depthAfter? (k : Quoting) (depth : Nat) (c : Char) : Option Nat :=
  if k.isPlain && c = '}' then
    match depth with
    | 0 => none
    | d + 1 => some d
  else some (if k.isPlain && c = '{' then depth + 1 else depth)

/-- The state of the search for the end of a block behind a text, and the number of blocks open
there, if the end is not in the text. -/
def blockAfter? (k : Quoting) (depth : Nat) : Text → Option (Quoting × Nat)
  | [] => some (k, depth)
  | c :: t => (depthAfter? k depth c).bind fun d => blockAfter? (k.step c) d t

theorem closeBlock_cons (k : Quoting) (depth : Nat) (c : Char) (t : Text) :
    closeBlock k depth (c :: t) =
      match depthAfter? k depth c with
      | none => some ([], t)
      | some d => (closeBlock (k.step c) d t).map fun (body, rest) => (c :: body, rest) := by
  unfold depthAfter?
  cases depth <;> rw [closeBlock] <;> cases k.isPlain && decide (c = '}') <;> rfl

theorem depthAfter?_add {d : Nat} (h : depthAfter? k depth c = some d) (n : Nat) :
    depthAfter? k (depth + n) c = some (d + n) := by
  unfold depthAfter? at h ⊢
  split at h
  next hclose =>
    rw [if_pos hclose]
    cases depth with
    | zero => cases h
    | succ e =>
      obtain rfl := Option.some.inj h
      rw [Nat.add_right_comm]
  next hclose =>
    obtain rfl := Option.some.inj h
    rw [if_neg hclose]
    split
    · rw [Nat.add_right_comm]
    · rfl

theorem closeBlock_append (h : blockAfter? k depth t = some (k', depth')) (rest : Text) :
    closeBlock k depth (t ++ rest) =
      (closeBlock k' depth' rest).map fun (body, rest) => (t ++ body, rest) := by
  induction t generalizing k depth with
  | nil =>
    obtain ⟨rfl, rfl⟩ := Prod.mk.inj (Option.some.inj h)
    simp
  | cons c t ih =>
    obtain ⟨d, hd, ht⟩ := Option.bind_eq_some_iff.1 h
    rw [List.cons_append, closeBlock_cons, hd]
    dsimp only
    rw [ih ht, Option.map_map]
    rfl

theorem closeBlock_append_of_some {body : Text} (h : closeBlock k depth t = some (body, rest))
    (s : Text) : closeBlock k depth (t ++ s) = some (body, rest ++ s) := by
  induction t generalizing k depth body with
  | nil => cases depth <;> cases h
  | cons c t ih =>
    rw [closeBlock_cons] at h
    rw [List.cons_append, closeBlock_cons]
    split at h
    next =>
      obtain ⟨rfl, rfl⟩ := Prod.mk.inj (Option.some.inj h)
      rfl
    next =>
      obtain ⟨⟨b, r⟩, hb, he⟩ := Option.map_eq_some_iff.1 h
      obtain ⟨rfl, rfl⟩ := Prod.mk.inj he
      simp only [ih hb, Option.map_some]

theorem blockAfter?_append (h : blockAfter? k depth s = some (k', depth')) (t : Text) :
    blockAfter? k depth (s ++ t) = blockAfter? k' depth' t := by
  induction s generalizing k depth with
  | nil =>
    obtain ⟨rfl, rfl⟩ := Prod.mk.inj (Option.some.inj h)
    rfl
  | cons c s ih =>
    obtain ⟨d, hd, hs⟩ := Option.bind_eq_some_iff.1 h
    rw [List.cons_append, blockAfter?, hd, Option.bind_some, ih hs]

/-- Further blocks around a text stay open in it. -/
theorem blockAfter?_add (h : blockAfter? k depth t = some (k', depth')) (n : Nat) :
    blockAfter? k (depth + n) t = some (k', depth' + n) := by
  induction t generalizing k depth with
  | nil =>
    obtain ⟨rfl, rfl⟩ := Prod.mk.inj (Option.some.inj h)
    rfl
  | cons c t ih =>
    obtain ⟨d, hd, ht⟩ := Option.bind_eq_some_iff.1 h
    rw [blockAfter?, depthAfter?_add hd, Option.bind_some, ih ht]

/-- Where the search for the end of a block takes a whole text for the block, it goes over it. -/
theorem blockAfter?_of_closeBlock (h : closeBlock k depth (t ++ ['}']) = some (t, [])) :
    blockAfter? k depth t = some (Quoting.start, 0) := by
  induction t generalizing k depth with
  | nil =>
    obtain ⟨q, e⟩ := k
    cases depth <;> cases q <;> cases e <;>
      simp_all [closeBlock, Quoting.isPlain, blockAfter?, Quoting.start]
  | cons c t ih =>
    rw [List.cons_append, closeBlock_cons] at h
    split at h
    next =>
      simp at h
    next d hd =>
      obtain ⟨⟨b, r⟩, hb, he⟩ := Option.map_eq_some_iff.1 h
      simp only [Prod.mk.injEq, List.cons.injEq, true_and] at he
      obtain ⟨rfl, rfl⟩ := he
      rw [blockAfter?, hd, Option.bind_some, ih hb]

end Block

/-! ## Literals -/

section Literal

variable {k : Nesting} {quote : Char} {body : Text}

/-- Inside a literal, and behind a backslash, no character has a meaning but for the literal. -/
theorem Nesting.step_of_not_plain (h : k.quoting.isPlain = false) (c : Char) :
    k.step c = ⟨k.quoting.step c, k.parens, k.brackets⟩ := by
  simp [Nesting.step, h]

/-- Only the marks that open and close change the depths. -/
theorem Nesting.step_of_not_mem (h : c ∉ ['(', ')', '[', ']']) :
    k.step c = ⟨k.quoting.step c, k.parens, k.brackets⟩ := by
  simp only [List.mem_cons, List.not_mem_nil, not_or, or_false] at h
  unfold Nesting.step
  simp [h]

theorem breakAt_cons_of_not_plain (h : k.quoting.isPlain = false) :
    breakAt stops k (c :: t) = none ↔ breakAt stops (k.step c) t = none := by
  rw [breakAt_cons_eq_none_iff, Nesting.isTop, h]
  exact and_iff_right rfl

theorem blockAfter?_cons_of_not_plain {k : Quoting} (h : k.isPlain = false) (depth : Nat) :
    blockAfter? k depth (c :: t) = blockAfter? (k.step c) depth t := by
  simp [blockAfter?, depthAfter?, h]

/-- Inside a literal both searches go by a character as the literal does. -/
theorem passes_cons_iff {k k' : Quoting} (h : k.isPlain = false) (hstep : k.step c = k')
    {parens brackets depth : Nat} {n : Nesting} {o : Option (Quoting × Nat)} :
    (breakAt stops ⟨k, parens, brackets⟩ (c :: t) = none ∧
        Nesting.after ⟨k, parens, brackets⟩ (c :: t) = n ∧ blockAfter? k depth (c :: t) = o) ↔
      breakAt stops ⟨k', parens, brackets⟩ t = none ∧
        Nesting.after ⟨k', parens, brackets⟩ t = n ∧ blockAfter? k' depth t = o := by
  rw [breakAt_cons_of_not_plain h, Nesting.after_cons, Nesting.step_of_not_plain h,
    blockAfter?_cons_of_not_plain h, hstep]

theorem Literal.passes (h : Literal quote body) (stops : Char → Bool)
    (parens brackets depth : Nat) :
    breakAt stops ⟨⟨some quote, false⟩, parens, brackets⟩ body = none ∧
      Nesting.after ⟨⟨some quote, false⟩, parens, brackets⟩ body =
        ⟨Quoting.start, parens, brackets⟩ ∧
      blockAfter? ⟨some quote, false⟩ depth body = some (Quoting.start, depth) := by
  induction h with
  | close hslash _ =>
    have hend : Quoting.step ⟨some quote, false⟩ quote = Quoting.start := by
      simp [Quoting.step, hslash]
    exact (passes_cons_iff rfl hend).2 ⟨rfl, rfl, rfl⟩
  | escape c _ ih =>
    have hopen : Quoting.step ⟨some quote, false⟩ '\\' = ⟨some quote, true⟩ := rfl
    have hclose : Quoting.step ⟨some quote, true⟩ c = ⟨some quote, false⟩ := rfl
    exact (passes_cons_iff rfl hopen).2 ((passes_cons_iff rfl hclose).2 ih)
  | @char c _ hslash _ hquote _ ih =>
    have hsame : Quoting.step ⟨some quote, false⟩ c = ⟨some quote, false⟩ := by
      simp [Quoting.step, hslash, hquote]
    exact (passes_cons_iff rfl hsame).2 ih

theorem Quoting.start_step (hslash : c ≠ '\\') (hquote : isQuote c = false) :
    Quoting.start.step c = Quoting.start := by
  simp [Quoting.step, Quoting.start, hslash, hquote]

theorem Quoting.start_step_quote (hquote : isQuote quote = true) :
    Quoting.start.step quote = ⟨some quote, false⟩ := by
  have hslash : quote ≠ '\\' := by
    rintro rfl
    exact absurd hquote (by decide)
  simp [Quoting.step, Quoting.start, hslash, hquote]

theorem Nesting.step_quote (hk : k.quoting = Quoting.start) (hquote : isQuote quote = true) :
    k.step quote = ⟨⟨some quote, false⟩, k.parens, k.brackets⟩ := by
  have hmark : quote ∉ ['(', ')', '[', ']'] := by
    intro hm
    have hnone : ∀ c ∈ ['(', ')', '[', ']'], isQuote c = false := Text.forall_mem_of_all (by decide)
    rw [hnone quote hm] at hquote
    cases hquote
  rw [Nesting.step_of_not_mem hmark, hk, Quoting.start_step_quote hquote]

theorem breakAt_literal (hk : k.quoting = Quoting.start) (hquote : isQuote quote = true)
    (h : Literal quote body) (hstop : stops quote = false) :
    breakAt stops k (quote :: body) = none ∧ k.after (quote :: body) = k := by
  obtain ⟨hcut, hafter, -⟩ := h.passes stops k.parens k.brackets 0
  rw [breakAt_cons_eq_none_iff, hstop, Nesting.after_cons, Nesting.step_quote hk hquote, hcut,
    hafter, ← hk]
  exact ⟨⟨Bool.and_false _, rfl⟩, rfl⟩

theorem blockAfter?_literal (hquote : isQuote quote = true) (h : Literal quote body) (depth : Nat) :
    blockAfter? Quoting.start depth (quote :: body) = some (Quoting.start, depth) := by
  have hbrace : quote ≠ '{' ∧ quote ≠ '}' := by
    constructor <;> (rintro rfl; exact absurd hquote (by decide))
  obtain ⟨-, -, hblock⟩ := h.passes (fun _ => false) 0 0 depth
  simpa [blockAfter?, depthAfter?, Quoting.start_step_quote hquote, hbrace] using hblock

end Literal

/-! ## Collapsing white space -/

theorem not_isBlank_of_isQuote {c : Char} (h : isQuote c = true) : Text.isBlank c = false := by
  simp only [isQuote, Bool.or_eq_true, decide_eq_true_eq] at h
  rcases h with rfl | rfl <;> decide

theorem not_isQuote_of_isBlank {c : Char} (h : Text.isBlank c = true) : isQuote c = false := by
  cases hq : isQuote c with
  | false => rfl
  | true => exact absurd h (Bool.eq_false_iff.1 (not_isBlank_of_isQuote hq))

section Collapse

variable {k : Spot} {spaced : Bool}

def Spot.after (k : Spot) (t : Text) : Spot := t.foldl Spot.step k

@[simp] theorem Spot.after_nil (k : Spot) : k.after [] = k := rfl

@[simp] theorem Spot.after_cons (k : Spot) (c : Char) (t : Text) :
    k.after (c :: t) = (k.step c).after t := rfl

theorem Spot.after_append (k : Spot) (s t : Text) : k.after (s ++ t) = (k.after s).after t :=
  List.foldl_append

theorem collapseFrom_append (k : Spot) (s t : Text) :
    collapseFrom k (s ++ t) = collapseFrom k s ++ collapseFrom (k.after s) t := by
  induction s generalizing k with
  | nil => rfl
  | cons c s ih => rw [List.cons_append, collapseFrom, collapseFrom, ih, List.append_assoc]; rfl

theorem length_emit_le (k : Spot) (c : Char) : (k.emit c).length ≤ 1 := by
  unfold Spot.emit
  split
  · exact Nat.le_refl 1
  · split
    · exact Nat.le_refl 1
    · split
      · split <;> decide
      · exact Nat.le_refl 1

theorem length_collapseFrom_le (k : Spot) (t : Text) : (collapseFrom k t).length ≤ t.length := by
  induction t generalizing k with
  | nil => exact Nat.le_refl 0
  | cons c t ih =>
    have hemit := length_emit_le k c
    have htail := ih (k.step c)
    rw [collapseFrom, List.length_append, List.length_cons]
    omega

theorem withoutBlanks_emit (k : Spot) (c : Char) :
    Text.withoutBlanks (k.emit c) = Text.withoutBlanks [c] := by
  unfold Spot.emit
  split
  · rfl
  · split
    · rfl
    · split
      next hc =>
        rw [Text.withoutBlanks_of_all (t := [c]) (List.forall_mem_singleton.2 hc)]
        split <;> rfl
      · rfl

theorem withoutBlanks_collapseFrom (k : Spot) (t : Text) :
    Text.withoutBlanks (collapseFrom k t) = Text.withoutBlanks t := by
  induction t generalizing k with
  | nil => rfl
  | cons c t ih =>
    rw [collapseFrom, Text.withoutBlanks_append, withoutBlanks_emit, ih,
      ← Text.withoutBlanks_append, List.singleton_append]

theorem withoutBlanks_collapse (t : Text) :
    Text.withoutBlanks (collapse t) = Text.withoutBlanks t := by
  rw [collapse, Text.withoutBlanks_trim, withoutBlanks_collapseFrom]

theorem collapseFrom_collapseFrom (k : Spot) (t : Text) :
    collapseFrom k (collapseFrom k t) = collapseFrom k t := by
  induction t generalizing k with
  | nil => rfl
  | cons c t ih =>
    have hcopied : k.emit c = [c] → collapseFrom k (k.emit c ++ collapseFrom (k.step c) t) =
        k.emit c ++ collapseFrom (k.step c) t := by
      intro hc
      rw [hc, List.singleton_append, collapseFrom, hc, ih, List.singleton_append]
    rw [collapseFrom]
    cases k with
    | inside q e => exact hcopied rfl
    | between spaced =>
      by_cases hq : isQuote c = true
      · exact hcopied (if_pos hq)
      · by_cases hb : Text.isBlank c = true
        · have hstep : (Spot.between spaced).step c = .between true := by
            rw [Spot.step, if_neg hq, hb]
          rw [hstep, Spot.emit, if_neg hq, if_pos hb]
          cases spaced with
          | true => exact ih (.between true)
          | false =>
            have hspace : (Spot.between false).step ' ' = .between true := by decide
            rw [if_neg Bool.false_ne_true, List.singleton_append, collapseFrom, hspace, ih]
            rfl
        · exact hcopied (by rw [Spot.emit, if_neg hq, if_neg hb])

theorem Spot.after_literal {quote : Char} {body : Text} (h : Literal quote body) :
    (Spot.inside quote false).after body = .between false := by
  induction h with
  | close hslash _ => rw [Spot.after_cons, Spot.step, if_neg hslash, if_pos rfl, Spot.after_nil]
  | escape c _ ih => exact ih
  | char hslash _ hquote _ ih =>
    rw [Spot.after_cons, Spot.step, if_neg hslash, if_neg hquote, ih]

/-- Behind a text without comments every literal is closed. -/
theorem Uncommented.exists_after (h : Uncommented t) (spaced : Bool) :
    ∃ spaced', (Spot.between spaced).after t = .between spaced' := by
  induction h generalizing spaced with
  | nil => exact ⟨spaced, rfl⟩
  | literal quote body t hq hbody ht ih =>
    rw [List.cons_append, Spot.after_cons, Spot.step, if_pos hq, Spot.after_append,
      Spot.after_literal hbody]
    exact ih false
  | cons c t hq hc ht ih =>
    rw [Spot.after_cons, Spot.step, if_neg (Bool.eq_false_iff.1 hq)]
    exact ih (Text.isBlank c)

theorem Spot.step_eq_between {k : Spot} {spaced : Bool} (h : k.step c = .between spaced)
    (hc : Text.isBlank c = false) : spaced = false := by
  unfold Spot.step at h
  split at h
  · split at h
    · cases h
    · exact (Spot.between.inj h).symm.trans hc
  · cases h
  · split at h
    · cases h
    · split at h
      · exact (Spot.between.inj h).symm
      · cases h

/-- Behind a text without comments that ends in no blank there is no space either. -/
theorem Uncommented.after_eq (h : Uncommented t) (hne : t ≠ [])
    (hlast : ∀ c, t.getLast? = some c → Text.isBlank c = false) (spaced : Bool) :
    (Spot.between spaced).after t = .between false := by
  obtain ⟨spaced', hafter⟩ := h.exists_after spaced
  obtain ⟨s, c, rfl⟩ := (List.eq_nil_or_concat t).resolve_left hne
  rw [List.concat_eq_append] at hafter hlast ⊢
  rw [hafter]
  rw [Spot.after_append] at hafter
  rw [Spot.step_eq_between hafter (hlast c (by simp))]

/-- A text that collapsing copies, its ends included. -/
def Stable (t : Text) : Prop := collapseFrom (.between false) t = t

/-- A text that is copied behind a space starts with none. -/
theorem head?_of_spaced (h : collapseFrom (.between true) t = t) (hc : t.head? = some c) :
    Text.isBlank c = false := by
  obtain ⟨t, rfl⟩ := List.head?_eq_some_iff.1 hc
  cases hb : Text.isBlank c with
  | false => rfl
  | true =>
    have hemit : (Spot.between true).emit c = [] := by
      simp [Spot.emit, not_isQuote_of_isBlank hb, hb]
    have hlength := length_collapseFrom_le ((Spot.between true).step c) t
    rw [collapseFrom, hemit, List.nil_append] at h
    rw [h, List.length_cons] at hlength
    exact absurd hlength (Nat.not_succ_le_self _)

/-- Before a text that starts with no blank it does not matter whether there is a space. -/
theorem collapseFrom_between (h : ∀ c, t.head? = some c → Text.isBlank c = false)
    (a b : Bool) : collapseFrom (.between a) t = collapseFrom (.between b) t := by
  cases t with
  | nil => rfl
  | cons c t =>
    have hc := h c rfl
    simp [collapseFrom, Spot.emit, Spot.step, hc]

theorem stable_of_spaced (h : collapseFrom (.between spaced) t = t) : Stable t := by
  cases spaced with
  | false => exact h
  | true => exact (collapseFrom_between (fun _ => head?_of_spaced h) false true).trans h

theorem Stable.parts (h : Stable (s ++ t)) :
    Stable s ∧ collapseFrom ((Spot.between false).after s) t = t := by
  have hlength := length_collapseFrom_le (.between false) s
  have hlength' := length_collapseFrom_le ((Spot.between false).after s) t
  have hall := congrArg List.length h
  rw [Stable, collapseFrom_append] at h
  rw [collapseFrom_append, List.length_append, List.length_append] at hall
  exact List.append_inj h (by omega)

/-- What stands behind closed literals in a stable text is stable. -/
theorem Stable.right (h : Stable (s ++ t)) (hs : (Spot.between false).after s = .between spaced) :
    Stable t :=
  stable_of_spaced (hs ▸ h.parts.2)

theorem Stable.append (hs : Stable s) (hafter : (Spot.between false).after s = .between spaced)
    (ht : collapseFrom (.between spaced) t = t) : Stable (s ++ t) := by
  rw [Stable, collapseFrom_append, hafter, ht, hs]

theorem exists_after_of_blank (h : ∀ c ∈ t, Text.isBlank c = true) (spaced : Bool) :
    ∃ spaced', (Spot.between spaced).after t = .between spaced' := by
  induction t generalizing spaced with
  | nil => exact ⟨spaced, rfl⟩
  | cons c t ih =>
    rw [List.forall_mem_cons] at h
    rw [Spot.after_cons, Spot.step, if_neg (Bool.eq_false_iff.1 (not_isQuote_of_isBlank h.1))]
    exact ih h.2 _

/-- White space around a text without comments does not matter to its literals. -/
theorem Uncommented.exists_after_of_trim (h : Uncommented (Text.trim Text.isBlank t))
    (spaced : Bool) : ∃ spaced', (Spot.between spaced).after t = .between spaced' := by
  obtain ⟨front, back, ht, hfront, hback⟩ := Text.exists_eq_append_trim Text.isBlank t
  obtain ⟨a, ha⟩ := exists_after_of_blank hfront spaced
  obtain ⟨b, hb⟩ := h.exists_after a
  obtain ⟨c, hc⟩ := exists_after_of_blank hback b
  refine ⟨c, ?_⟩
  rw [ht, Spot.after_append, ha, Spot.after_append, hb, hc]

theorem Stable.trim (h : Stable t) : Stable (Text.trim Text.isBlank t) := by
  obtain ⟨front, back, ht, hfront, -⟩ := Text.exists_eq_append_trim Text.isBlank t
  obtain ⟨spaced, hafter⟩ := exists_after_of_blank hfront false
  rw [ht] at h
  exact (h.right hafter).parts.1

theorem stable_collapse (t : Text) : Stable (collapse t) :=
  Stable.trim (collapseFrom_collapseFrom (.between false) t)

theorem trim_collapse (t : Text) : Text.trim Text.isBlank (collapse t) = collapse t :=
  Text.trim_trim _ _

theorem Stable.collapse_eq (h : Stable t) (htrim : Text.trim Text.isBlank t = t) :
    collapse t = t := by
  rw [collapse, h, htrim]

/-- White space at the start of a stable text is a space. -/
theorem Stable.dropWhile_isBlank (h : Stable t) :
    t.dropWhile Text.isBlank = t.dropWhile (· = ' ') := by
  cases t with
  | nil => rfl
  | cons c t =>
    cases hb : Text.isBlank c with
    | false =>
      have hc : c ≠ ' ' := by
        rintro rfl
        exact absurd hb (by decide)
      rw [List.dropWhile_cons_of_neg (Bool.eq_false_iff.1 hb),
        List.dropWhile_cons_of_neg (by simpa using hc)]
    | true =>
      have hquote := Bool.eq_false_iff.1 (not_isQuote_of_isBlank hb)
      rw [Stable, collapseFrom, Spot.emit, if_neg hquote, if_pos hb, if_neg Bool.false_ne_true,
        List.singleton_append, Spot.step, if_neg hquote, hb] at h
      obtain ⟨rfl, ht⟩ := List.cons.inj h
      have hhead : ∀ c, t.head? = some c → Text.isBlank c = false := fun _ => head?_of_spaced ht
      have hspace : ∀ c, t.head? = some c → decide (c = ' ') = false := by
        intro c hc
        rw [decide_eq_false_iff_not]
        rintro rfl
        exact absurd (hhead ' ' hc) (by decide)
      rw [List.dropWhile_cons_of_pos hb, List.dropWhile_cons_of_pos (by decide)]
      exact (Text.trimStart_eq_self hhead).trans (Text.trimStart_eq_self hspace).symm

theorem isBlank_of_mem_collapseFrom (h : ∀ c ∈ t, Text.isBlank c = true) (spaced : Bool) :
    ∀ c ∈ collapseFrom (.between spaced) t, Text.isBlank c = true := by
  induction t generalizing spaced with
  | nil => exact List.forall_mem_nil _
  | cons c t ih =>
    rw [List.forall_mem_cons] at h
    have hquote := Bool.eq_false_iff.1 (not_isQuote_of_isBlank h.1)
    rw [collapseFrom, Spot.emit, if_neg hquote, if_pos h.1, Spot.step, if_neg hquote]
    refine List.forall_mem_append.2 ⟨?_, ih h.2 _⟩
    split
    · exact List.forall_mem_nil _
    · exact List.forall_mem_singleton.2 (by decide)

/-- Collapsing starts with the first character that is not blank. -/
theorem head?_collapse (t : Text) : (collapse t).head? = (t.dropWhile Text.isBlank).head? := by
  have hfront : ∀ c ∈ t.takeWhile Text.isBlank, Text.isBlank c = true :=
    List.all_eq_true.1 List.all_takeWhile
  obtain ⟨spaced, hafter⟩ := exists_after_of_blank hfront false
  have hsplit : collapse t =
      Text.trim Text.isBlank (collapseFrom (.between spaced) (t.dropWhile Text.isBlank)) := by
    rw [collapse]
    conv => lhs; rw [← List.takeWhile_append_dropWhile (p := Text.isBlank) (l := t)]
    rw [collapseFrom_append, hafter,
      Text.trim_append_of_all (isBlank_of_mem_collapseFrom hfront false)]
  rw [hsplit]
  cases hw : t.dropWhile Text.isBlank with
  | nil => rfl
  | cons c w =>
    have hc : Text.isBlank c = false := by
      have hhead := List.head?_dropWhile_not Text.isBlank t
      rw [hw] at hhead
      simpa using hhead
    have hemit : (Spot.between spaced).emit c = [c] := by
      simp [Spot.emit, hc]
    rw [collapseFrom, hemit, List.singleton_append, Text.trim, Text.trimStart_cons hc,
      Text.trimEnd_cons_of_false hc, List.head?_cons, List.head?_cons]

end Collapse

/-! ## Separators in collapsed texts -/

section Blanks

variable {k : Nesting} {spot : Spot}

theorem Quoting.isQuote_of_quote_step {k : Quoting} (h : ∀ q, k.quote = some q → isQuote q = true)
    (c : Char) : ∀ q, (k.step c).quote = some q → isQuote q = true := by
  intro q hq
  unfold Quoting.step at hq
  split at hq
  · exact h q hq
  · split at hq
    · exact h q hq
    · split at hq
      next r hr =>
        split at hq
        · cases hq
        · exact h q hq
      next =>
        split at hq
        next hc => exact Option.some.inj hq ▸ hc
        next => exact h q hq

def Nesting.Quoted (k : Nesting) : Prop := ∀ q, k.quoting.quote = some q → isQuote q = true

theorem Nesting.quoted_start : Nesting.start.Quoted := nofun

theorem Nesting.Quoted.step (h : k.Quoted) (c : Char) : (k.step c).Quoted := by
  rw [Nesting.Quoted, Nesting.quoting_step]
  exact Quoting.isQuote_of_quote_step h c

theorem not_mem_of_isBlank (h : Text.isBlank c = true) :
    c ∉ ['\\', '"', '\'', '(', ')', '[', ']'] := by
  intro hm
  have hnone : ∀ c ∈ ['\\', '"', '\'', '(', ')', '[', ']'], Text.isBlank c = false :=
    Text.forall_mem_of_all (by decide)
  rw [hnone c hm] at h
  cases h

/-- White space does nothing but to end an escape. -/
theorem Nesting.Quoted.step_blank (hk : k.Quoted) (h : Text.isBlank c = true) :
    k.step c = ⟨⟨k.quoting.quote, false⟩, k.parens, k.brackets⟩ := by
  obtain ⟨⟨quote, escaped⟩, parens, brackets⟩ := k
  have hmarks := not_mem_of_isBlank h
  simp only [List.mem_cons, List.not_mem_nil, or_false, not_or] at hmarks
  obtain ⟨hslash, hdouble, hsingle, hp, hp', hb, hb'⟩ := hmarks
  have hquote : isQuote c = false := not_isQuote_of_isBlank h
  have hquoting : Quoting.step ⟨quote, escaped⟩ c = ⟨quote, false⟩ := by
    unfold Quoting.step
    cases escaped with
    | true => rfl
    | false =>
      cases quote with
      | none => simp [hslash, hquote]
      | some q =>
        have hne : c ≠ q := by
          rintro rfl
          rw [hk c rfl] at hquote
          cases hquote
        simp [hslash, hne]
  unfold Nesting.step
  simp only [hquoting]
  split <;> rfl

theorem Spot.step_inside_ne (q : Char) (escaped : Bool) (c : Char) :
    (Spot.inside q escaped).step c ≠ .between true := by
  cases escaped with
  | true => exact nofun
  | false =>
    rw [Spot.step]
    split
    · exact nofun
    · split
      · decide
      · exact nofun

/-- Where a text has no separator, it has none with its white space collapsed either. Behind a
space that was copied no escape is open. -/
theorem breakAt_collapseFrom_eq_none (hs : ∀ c, stops c = true → Text.isBlank c = false)
    (hk : k.Quoted) (hspot : spot = .between true → k.quoting.escaped = false)
    (h : breakAt stops k t = none) : breakAt stops k (collapseFrom spot t) = none := by
  induction t generalizing k spot with
  | nil => rfl
  | cons c t ih =>
    obtain ⟨hc, ht⟩ := breakAt_cons_eq_none_iff.1 h
    have hcopied : spot.emit c = [c] → spot.step c ≠ .between true →
        breakAt stops k (spot.emit c ++ collapseFrom (spot.step c) t) = none := by
      intro hemit hstep
      rw [hemit]
      exact breakAt_cons_eq_none_iff.2 ⟨hc, ih (hk.step c) (fun h => absurd h hstep) ht⟩
    rw [collapseFrom]
    cases spot with
    | inside q escaped => exact hcopied rfl (Spot.step_inside_ne q escaped c)
    | between spaced =>
      by_cases hquote : isQuote c = true
      · refine hcopied (if_pos hquote) ?_
        rw [Spot.step, if_pos hquote]
        exact nofun
      · cases hblank : Text.isBlank c with
        | false =>
          refine hcopied (by rw [Spot.emit, if_neg hquote, hblank]; rfl) ?_
          rw [Spot.step, if_neg hquote, hblank]
          decide
        | true =>
          have hstep : (Spot.between spaced).step c = .between true := by
            rw [Spot.step, if_neg hquote, hblank]
          have htail : breakAt stops (k.step c) (collapseFrom (.between true) t) = none :=
            ih (hk.step c) (fun _ => by rw [hk.step_blank hblank]) ht
          rw [hstep, Spot.emit, if_neg hquote, if_pos hblank]
          cases spaced with
          | true =>
            have hescaped := hspot rfl
            have hsame : k.step c = k := by
              rw [hk.step_blank hblank, ← hescaped]
            rw [hsame] at htail
            exact htail
          | false =>
            have hspace : Text.isBlank ' ' = true := by decide
            refine breakAt_cons_eq_none_iff.2 ⟨?_, ?_⟩
            · cases hstop : stops ' ' with
              | false => rw [Bool.and_false]
              | true => exact absurd (hs ' ' hstop) (by decide)
            · rw [hk.step_blank hspace, ← hk.step_blank hblank]
              exact htail

theorem breakAt_trim_eq_none (h : breakAt stops Nesting.start t = none) :
    breakAt stops Nesting.start (Text.trim Text.isBlank t) = none := by
  obtain ⟨front, back, ht, hfront, -⟩ := Text.exists_eq_append_trim Text.isBlank t
  have hafter : Nesting.start.after front = Nesting.start := by
    clear ht
    induction front with
    | nil => rfl
    | cons c front ih =>
      rw [List.forall_mem_cons] at hfront
      rw [Nesting.after_cons, Nesting.quoted_start.step_blank hfront.1]
      exact ih hfront.2
  rw [ht, breakAt_append_eq_none_iff, hafter, breakAt_append_eq_none_iff] at h
  exact h.2.1

theorem breakAt_collapse_eq_none (hs : ∀ c, stops c = true → Text.isBlank c = false)
    (h : breakAt stops Nesting.start t = none) : breakAt stops Nesting.start (collapse t) = none :=
  breakAt_trim_eq_none (breakAt_collapseFrom_eq_none hs Nesting.quoted_start (fun _ => rfl) h)

end Blanks

end Css

end PrettyPayload
