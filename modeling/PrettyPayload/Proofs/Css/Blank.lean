import PrettyPayload.Proofs.Css.Scan
import PrettyPayload.Proofs.Text.Words

/-!
# White space between texts

White space outside literals has no meaning of its own: each scan is behind it where it was in front
of it, unless a backslash stands before it, and no name, literal or comment goes on over it. What it
does is to keep words apart, and of a run of it one space is copied. So texts that differ in their
runs alone have the same words (`Spaced`).
-/

namespace PrettyPayload

namespace Css

variable {s t v : Text} {stops : Char → Bool} {k : Nesting} {c : Char}

/-! ## Scans over blanks -/

theorem Quoting.start_step_of_blank (h : Text.isBlank c = true) :
    Quoting.start.step c = Quoting.start := by
  have hstep := congrArg Nesting.quoting (Nesting.quoted_start.step_blank h)
  rwa [Nesting.quoting_step] at hstep

theorem Nesting.Quoted.after_blanks (hk : k.Quoted) (he : k.quoting.escaped = false)
    (h : ∀ c ∈ s, Text.isBlank c = true) : k.after s = k := by
  induction s with
  | nil => rfl
  | cons c s ih =>
    rw [List.forall_mem_cons] at h
    have hstep : k.step c = k := by rw [hk.step_blank h.1, ← he]
    rw [Nesting.after_cons, hstep, ih h.2]

theorem breakAt_of_blanks (hs : ∀ c, stops c = true → Text.isBlank c = false)
    (h : ∀ c ∈ s, Text.isBlank c = true) (k : Nesting) : breakAt stops k s = none := by
  induction s generalizing k with
  | nil => rfl
  | cons c s ih =>
    rw [List.forall_mem_cons] at h
    refine breakAt_cons_eq_none_iff.2 ⟨?_, ih h.2 _⟩
    cases hc : stops c with
    | false => rw [Bool.and_false]
    | true => rw [hs c hc] at h; exact absurd h.1 Bool.false_ne_true

theorem depthAfter?_of_blank (h : Text.isBlank c = true) (k : Quoting) (depth : Nat) :
    depthAfter? k depth c = some depth := by
  have hbrace : c ≠ '{' ∧ c ≠ '}' := by
    constructor <;> (rintro rfl; exact absurd h (by decide))
  simp [depthAfter?, hbrace]

theorem blockAfter?_of_blanks (hk : k.Quoted) (he : k.quoting.escaped = false)
    (h : ∀ c ∈ s, Text.isBlank c = true) (depth : Nat) :
    blockAfter? k.quoting depth s = some (k.quoting, depth) := by
  induction s with
  | nil => rfl
  | cons c s ih =>
    rw [List.forall_mem_cons] at h
    have hstep : k.step c = k := by rw [hk.step_blank h.1, ← he]
    rw [blockAfter?, depthAfter?_of_blank h.1, Option.bind_some, ← Nesting.quoting_step, hstep,
      ih h.2]

theorem stripCommentsAfter_of_blanks (h : ∀ c ∈ s, Text.isBlank c = true) (last : Option Char) :
    stripCommentsAfter last (s ++ t) = (s ++ ·) <$> stripCommentsAfter (s.getLast?.or last) t := by
  induction s generalizing last with
  | nil => simp
  | cons c s ih =>
    rw [List.forall_mem_cons] at h
    have hslash : c = '/' → (s ++ t).head? ≠ some '*' := by
      rintro rfl
      exact absurd h.1 (by decide)
    have hlast : (c :: s).getLast?.or last = s.getLast?.or (some c) := by
      rw [List.getLast?_cons]
      cases s.getLast? <;> rfl
    rw [List.cons_append, stripCommentsAfter_cons hslash (not_isQuote_of_isBlank h.1), ih h.2,
      hlast, ← comp_map]
    rfl

theorem any_isNameChar_of_blanks (hne : s ≠ []) (h : ∀ c ∈ s, Text.isBlank c = true)
    (last : Option Char) : (s.getLast?.or last).any isNameChar = false := by
  obtain ⟨c, hc⟩ := Option.ne_none_iff_exists'.1 (mt List.getLast?_eq_none_iff.1 hne)
  rw [hc, Option.some_or, Option.any_some]
  exact not_isNameChar_of_isBlank (h c (List.mem_of_getLast? hc))

theorem collapseFrom_of_blanks (h : ∀ c ∈ s, Text.isBlank c = true) :
    collapseFrom (.between true) (s ++ t) = collapseFrom (.between true) t := by
  induction s with
  | nil => rfl
  | cons c s ih =>
    rw [List.forall_mem_cons] at h
    have hquote := Bool.eq_false_iff.1 (not_isQuote_of_isBlank h.1)
    rw [List.cons_append, collapseFrom, Spot.emit, if_neg hquote, if_pos h.1, if_pos rfl, Spot.step,
      if_neg hquote, h.1, ih h.2, List.nil_append]

/-! ## Runs of ASCII white space -/

def IsRun (t : Text) : Prop := t ≠ [] ∧ ∀ c ∈ t, Text.isAsciiBlank c = true

theorem IsRun.isBlank (h : IsRun t) : ∀ c ∈ t, Text.isBlank c = true := fun c hc =>
  isBlank_of_isAsciiBlank (h.2 c hc)

/-- A run of white space keeps the words in front of it and behind it apart. -/
theorem words_append_run (u s : Text) (hv : IsRun v) :
    Text.words (u ++ (v ++ s)) = Text.words u ++ Text.words s := by
  obtain ⟨c, v, rfl⟩ := List.exists_cons_of_ne_nil hv.1
  obtain ⟨hc, hblank⟩ := List.forall_mem_cons.1 hv.isBlank
  rw [List.cons_append, Text.words, Text.wordsBy_append_cons hc,
    Text.wordsBy_append_of_all hblank]
  rfl

/-- Of a run of white space one space is copied, if none stands before it. -/
theorem collapseFrom_run (hv : IsRun v) (spaced : Bool) (s : Text) :
    collapseFrom (.between spaced) (v ++ s) =
      (Spot.between spaced).emit ' ' ++ collapseFrom (.between true) s := by
  obtain ⟨c, v, rfl⟩ := List.exists_cons_of_ne_nil hv.1
  obtain ⟨hc, hblank⟩ := List.forall_mem_cons.1 hv.isBlank
  have hquote := not_isQuote_of_isBlank hc
  rw [List.cons_append, collapseFrom]
  simp [Spot.emit, Spot.step, hquote, hc, collapseFrom_of_blanks hblank,
    show isQuote ' ' = false by decide, show Text.isBlank ' ' = true by decide]

/-- Two texts that differ in their runs of white space alone. -/
inductive Spaced : Text → Text → Prop
  | nil : Spaced [] []
  | cons (c : Char) {s t : Text} (h : Spaced s t) : Spaced (c :: s) (c :: t)
  | run {v w s t : Text} (hv : IsRun v) (hw : IsRun w) (h : Spaced s t) : Spaced (v ++ s) (w ++ t)

namespace Spaced

theorem words_append (h : Spaced s t) (u : Text) : Text.words (u ++ s) = Text.words (u ++ t) := by
  induction h generalizing u with
  | nil => rfl
  | @cons c s t _ ih =>
    rw [List.append_cons u c s, List.append_cons u c t]
    exact ih (u ++ [c])
  | run hv hw _ ih =>
    have hrest := ih []
    rw [words_append_run u _ hv, words_append_run u _ hw]
    exact congrArg (Text.words u ++ ·) hrest

theorem excerpt_append (h : Spaced s t) (u : Text) : excerpt (u ++ s) = excerpt (u ++ t) := by
  rw [excerpt, h.words_append u, excerpt]

/-- Texts that differ in white space alone start with the same character, or both with white space.
-/
theorem head?_cases (h : Spaced s t) :
    s.head? = t.head? ∨ ∃ c d, s.head? = some c ∧ t.head? = some d ∧
      Text.isAsciiBlank c = true ∧ Text.isAsciiBlank d = true := by
  cases h with
  | nil => exact Or.inl rfl
  | cons c h => exact Or.inl rfl
  | run hv hw h =>
    obtain ⟨c, v, rfl⟩ := List.exists_cons_of_ne_nil hv.1
    obtain ⟨d, w, rfl⟩ := List.exists_cons_of_ne_nil hw.1
    exact Or.inr ⟨c, d, rfl, rfl, hv.2 c List.mem_cons_self, hw.2 d List.mem_cons_self⟩

theorem any_isNameChar_head? (h : Spaced s t) :
    s.head?.any isNameChar = t.head?.any isNameChar := by
  rcases h.head?_cases with heq | ⟨c, d, hs, ht, hc, hd⟩
  · rw [heq]
  · have hc' := not_isNameChar_of_isBlank (isBlank_of_isAsciiBlank hc)
    have hd' := not_isNameChar_of_isBlank (isBlank_of_isAsciiBlank hd)
    rw [hs, ht, Option.any_some, Option.any_some, hc', hd']

end Spaced

end Css

end PrettyPayload
