import PrettyPayload.Proofs.Css.Scan

/-!
# Scans pass over neat texts

Four scans go over a stylesheet: the search for a separator, the search for the end of a block, the
removal of comments and the collapsing of white space. Each of them passes over a neat text: no
separator in it counts, and it is copied as it stands. The search for the end of a block counts
braces, so that it needs a clean text. A statement `_of_neatFrom` or `_of_cleanFrom` starts anywhere
in the text, for the induction.
-/

namespace PrettyPayload

namespace Css

variable {nested stops : Char → Bool} {k : Nesting} {last : Option Char} {c : Char} {t rest : Text}

theorem after_of_neatFrom (h : neatFrom nested k last t = true) : k.after t = Nesting.start := by
  induction t generalizing k last with
  | nil => exact (eq_start_of_neatFrom_nil h).1
  | cons c t ih => exact ih (neatFrom_cons.1 h).2

/-! ## Searching for a separator -/

theorem breakAt_eq_none_of_neatFrom
    (hs : ∀ c, stops c = true → nested c = true ∧ c ≠ '{' ∧ c ≠ '}')
    (h : neatFrom nested k last t = true) : breakAt stops k t = none := by
  induction t generalizing k last with
  | nil => rfl
  | cons c t ih =>
    obtain ⟨hc, ht⟩ := neatFrom_cons.1 h
    refine breakAt_cons_eq_none_iff.2 ⟨?_, ih ht⟩
    rw [Bool.eq_false_iff, ne_eq, Bool.and_eq_true]
    rintro ⟨htop, hstop⟩
    obtain rfl := Nesting.eq_start_of_isTop htop
    obtain ⟨hnested, hopen, hclose⟩ := hs c hstop
    rcases (tolerates_of_quoting_eq_start rfl hc).2.2.2 hnested with h | h | h | h
    · exact hopen h
    · exact hclose h
    · exact h rfl
    · exact h rfl

theorem breakAt_brace_of_cleanFrom (h : cleanFrom nested k last t = true) :
    breakAt (fun c => c = '{' || c = '}') k t = none := by
  induction t generalizing k last with
  | nil => rfl
  | cons c t ih =>
    obtain ⟨hc, ht⟩ := cleanFrom_cons.1 h
    refine breakAt_cons_eq_none_iff.2 ⟨?_, ih ht⟩
    rw [Bool.eq_false_iff, ne_eq, Bool.and_eq_true]
    rintro ⟨htop, hstop⟩
    obtain rfl := Nesting.eq_start_of_isTop htop
    obtain ⟨hopen, hclose⟩ := ne_brace_of_admits rfl hc
    simp [hopen, hclose] at hstop

theorem breakAt_eq_none_of_isClean
    (hs : ∀ c, stops c = true → nested c = true ∨ c = '{' ∨ c = '}')
    (h : isClean nested t = true) : breakAt stops Nesting.start t = none := by
  have hmarks : breakAt (fun c => nested c && !(c = '{' || c = '}')) Nesting.start t = none := by
    refine breakAt_eq_none_of_neatFrom (fun c hc => ?_) (neatFrom_of_cleanFrom h)
    simpa using hc
  refine breakAt_mono (fun c hc => ?_) (breakAt_or_eq_none hmarks (breakAt_brace_of_cleanFrom h))
  rcases hs c hc with hn | rfl | rfl
  · rw [hn, Bool.true_and, Bool.not_or_self]
  · simp
  · simp

/-! ## Searching for the end of a block -/

theorem closeBlock_append_of_cleanFrom {depth : Nat} (hk : k.quoting.Regular)
    (h : cleanFrom nested k last t = true) :
    closeBlock k.quoting depth (t ++ rest) =
      (closeBlock Quoting.start depth rest).map fun (body, rest) => (t ++ body, rest) := by
  induction t generalizing k last with
  | nil =>
    obtain ⟨rfl, -⟩ := eq_start_of_neatFrom_nil (neatFrom_of_cleanFrom h)
    simp [Nesting.start]
  | cons c t ih =>
    obtain ⟨hc, ht⟩ := cleanFrom_cons.1 h
    have hbrace : k.quoting.isPlain = true → c ≠ '{' ∧ c ≠ '}' := by
      intro hp
      rcases hk with hk | ⟨q, e, hk, -⟩
      · exact ne_brace_of_admits hk hc
      · simp [hk, Quoting.isPlain] at hp
    have hclose : ¬(k.quoting.isPlain && decide (c = '}')) = true := by
      simpa using fun hp => (hbrace hp).2
    have hopen : ¬(k.quoting.isPlain && decide (c = '{')) = true := by
      simpa using fun hp => (hbrace hp).1
    have step : closeBlock k.quoting depth (c :: (t ++ rest)) =
        (closeBlock (k.quoting.step c) depth (t ++ rest)).map
          fun (body, rest) => (c :: body, rest) := by
      cases depth <;> rw [closeBlock, if_neg hclose, if_neg hopen]
    rw [List.cons_append, step, ← Nesting.quoting_step, ih (hk.step (tolerates_of_admits hc)) ht,
      Option.map_map]
    rfl

theorem closeBlock_append_of_isClean {depth : Nat} (h : isClean nested t = true) :
    closeBlock Quoting.start depth (t ++ rest) =
      (closeBlock Quoting.start depth rest).map fun (body, rest) => (t ++ body, rest) :=
  closeBlock_append_of_cleanFrom (k := Nesting.start) Quoting.regular_start h

/-! ## Collapsing white space -/

/-- The spot of the collapsing scan that belongs to a state of the other scans. -/
def spotOf (k : Quoting) (last : Option Char) : Spot :=
  match k.quote with
  | none => .between (last = some ' ')
  | some q => .inside q k.escaped

theorem emit_spotOf (hk : k.quoting.Regular) (hc : k.tolerates nested last c = true) :
    (spotOf k.quoting last).emit c = [c] ∧
      (spotOf k.quoting last).step c = spotOf (k.step c).quoting (some c) := by
  rw [Nesting.quoting_step]
  rcases hk with hk | ⟨q, e, hk, hquote⟩
  · obtain ⟨hslash, -, hb, -⟩ := tolerates_of_quoting_eq_start hk hc
    rw [hk]
    by_cases hq : isQuote c = true
    · simp [spotOf, Quoting.start, Quoting.step, Spot.emit, Spot.step, hslash, hq]
    · cases hblank : Text.isBlank c with
      | false =>
        have hne : c ≠ ' ' := by
          rintro rfl
          exact absurd hblank (by decide)
        simp [spotOf, Quoting.start, Quoting.step, Spot.emit, Spot.step, hslash, hq, hblank, hne]
      | true =>
        obtain ⟨rfl, hlast⟩ := hb hblank
        have hspace : last ≠ some ' ' := by
          rintro rfl
          simp at hlast
        simp [spotOf, Quoting.start, Quoting.step, Spot.emit, Spot.step, isQuote, hblank, hspace]
  · rw [hk]
    cases e with
    | true => simp [spotOf, Quoting.step, Spot.emit, Spot.step]
    | false =>
      by_cases hslash : c = '\\'
      · simp [spotOf, Quoting.step, Spot.emit, Spot.step, hslash]
      · by_cases hcq : c = q
        · subst hcq
          have hne : c ≠ ' ' := by
            rintro rfl
            exact absurd hquote (by decide)
          simp [spotOf, Quoting.step, Quoting.start, Spot.emit, Spot.step, hslash, hne]
        · simp [spotOf, Quoting.step, Spot.emit, Spot.step, hslash, hcq]

theorem collapseFrom_of_neatFrom (hk : k.quoting.Regular) (h : neatFrom nested k last t = true) :
    collapseFrom (spotOf k.quoting last) t = t := by
  induction t generalizing k last with
  | nil => rfl
  | cons c t ih =>
    obtain ⟨hc, ht⟩ := neatFrom_cons.1 h
    obtain ⟨hemit, hstep⟩ := emit_spotOf hk hc
    rw [collapseFrom, hemit, hstep, ih (hk.step hc) ht]
    rfl

theorem isBlank_head_of_isNeat (h : isNeat nested t = true) (hc : t.head? = some c) :
    Text.isBlank c = false := by
  cases t with
  | nil => cases hc
  | cons d t =>
    obtain rfl : d = c := by simpa using hc
    obtain ⟨-, -, hb, -⟩ := tolerates_of_quoting_eq_start rfl (neatFrom_cons.1 h).1
    rw [Bool.eq_false_iff]
    intro hblank
    simpa using (hb hblank).2

theorem isBlank_getLast_of_neatFrom (hk : k.quoting.Regular) (h : neatFrom nested k last t = true)
    (hc : t.getLast? = some c) : Text.isBlank c = false := by
  induction t generalizing k last with
  | nil => cases hc
  | cons d t ih =>
    obtain ⟨hd, ht⟩ := neatFrom_cons.1 h
    cases t with
    | cons e t =>
      rw [List.getLast?_cons_cons] at hc
      exact ih (hk.step hd) ht hc
    | nil =>
      obtain rfl : d = c := by simpa using hc
      obtain ⟨hstart, hspace⟩ := eq_start_of_neatFrom_nil ht
      have hq : k.quoting.step d = Quoting.start := by
        rw [← Nesting.quoting_step, hstart]
        rfl
      rcases hk with hk | ⟨q, e, hk, hquote⟩
      · obtain ⟨-, -, hb, -⟩ := tolerates_of_quoting_eq_start hk hd
        rw [Bool.eq_false_iff]
        intro hblank
        exact hspace (by rw [(hb hblank).1])
      · -- The character that ends the literal is its quotation mark.
        have hdq : d = q := by
          rw [hk] at hq
          cases e <;> by_cases hslash : d = '\\' <;>
            simp_all [Quoting.step, Quoting.start]
        rw [hdq]
        exact not_isBlank_of_isQuote hquote

theorem collapse_of_isNeat (h : isNeat nested t = true) : collapse t = t := by
  have hcopy : collapseFrom (spotOf Nesting.start.quoting none) t = t :=
    collapseFrom_of_neatFrom Quoting.regular_start h
  rw [collapse, show Spot.between false = spotOf Nesting.start.quoting none from rfl, hcopy]
  exact Text.trim_eq_self (fun _ => isBlank_head_of_isNeat h) fun _ =>
    isBlank_getLast_of_neatFrom (k := Nesting.start) Quoting.regular_start h

/-! ## Removing comments -/

/-- A literal that a neat text opens is closed in it, and what follows goes on neat. -/
theorem takeLiteral_of_neatFrom {quote : Char} (hk : k.quoting = ⟨some quote, false⟩)
    (h : neatFrom nested k last t = true) :
    ∃ body s, takeLiteral quote t = some (body, s) ∧
      neatFrom nested ⟨Quoting.start, k.parens, k.brackets⟩ (some quote) s = true := by
  have hstep : ∀ c, k.step c = ⟨k.quoting.step c, k.parens, k.brackets⟩ := by
    intro c
    simp [Nesting.step, hk, Quoting.isPlain]
  fun_induction takeLiteral quote t generalizing k last with
  | case1 =>
    have := (eq_start_of_neatFrom_nil h).1
    rw [this] at hk
    cases hk
  | case2 =>
    have hend := (eq_start_of_neatFrom_nil (neatFrom_cons.1 h).2).1
    rw [hstep, hk] at hend
    cases hend
  | case3 d t ih =>
    have hd := (neatFrom_cons.1 (neatFrom_cons.1 h).2).2
    have htwo : (k.step '\\').step d = k := by
      obtain ⟨q, p, b⟩ := k
      obtain rfl : q = ⟨some quote, false⟩ := hk
      rfl
    rw [htwo] at hd
    obtain ⟨body, s, hbody, hs⟩ := ih hk hd hstep
    exact ⟨'\\' :: d :: body, s, by rw [hbody]; rfl, hs⟩
  | case4 =>
    have hc := (neatFrom_cons.1 h).1
    simp [Nesting.tolerates, Nesting.admits, hk] at hc
  | case5 t hslash hfeed =>
    have ht := (neatFrom_cons.1 h).2
    rw [hstep, hk] at ht
    exact ⟨[quote], t, rfl, by simpa [Quoting.step, hslash] using ht⟩
  | case6 c t hslash hfeed hc ih =>
    have ht := (neatFrom_cons.1 h).2
    have hsame : k.step c = k := by
      rw [hstep, hk]
      obtain ⟨q, p, b⟩ := k
      obtain rfl : q = ⟨some quote, false⟩ := hk
      simp [Quoting.step, hslash, hc]
    rw [hsame] at ht
    obtain ⟨body, s, hbody, hs⟩ := ih hk ht hstep
    exact ⟨c :: body, s, by rw [hbody]; rfl, hs⟩

/-- There are no comments in a neat text. The recursion is on the length of the text, since it goes
on behind a literal. -/
theorem uncommented_of_neatFrom {k : Nesting} {last : Option Char} {t : Text}
    (hk : k.quoting = Quoting.start) (h : neatFrom nested k last t = true) : Uncommented t := by
  match t with
  | [] => exact .nil
  | c :: t =>
    obtain ⟨hc, ht⟩ := neatFrom_cons.1 h
    have hslash := (tolerates_of_quoting_eq_start hk hc).1
    cases hq : isQuote c with
    | true =>
      have hstep : (k.step c).quoting = ⟨some c, false⟩ := by
        simp [hk, Quoting.step, Quoting.start, hslash, hq]
      obtain ⟨body, s, hbody, hs⟩ := takeLiteral_of_neatFrom hstep ht
      have hsplit := takeLiteral_eq_some hbody
      have hshort : s.length ≤ t.length := by simp [hsplit]
      rw [hsplit]
      exact .literal c body s hq (literal_of_takeLiteral hbody)
        (uncommented_of_neatFrom (k := ⟨Quoting.start, _, _⟩) rfl hs)
    | false =>
      have hstep : (k.step c).quoting = Quoting.start := by
        simp [hk, Quoting.step, Quoting.start, hslash, hq]
      refine .cons c t hq ?_ (uncommented_of_neatFrom hstep ht)
      rintro rfl hstar
      obtain ⟨t, rfl⟩ := List.head?_eq_some_iff.1 hstar
      exact (tolerates_of_quoting_eq_start hstep (neatFrom_cons.1 ht).1).2.1 rfl rfl
termination_by t.length
decreasing_by
  all_goals
    simp only [List.length_cons]
    omega

end Css

end PrettyPayload
