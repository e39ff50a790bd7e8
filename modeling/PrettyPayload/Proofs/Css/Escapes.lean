import PrettyPayload.Proofs.Css.Blank
import PrettyPayload.Proofs.Css.Quotes

/-!
# White space that is escaped

To the searches white space behind a backslash is a character like any other, but the collapsing of
white space knows escapes inside literals alone. So it takes an escaped blank for the start of a
run: another blank than the space is changed into one, the rest of the run is dropped, and at the
end of a text the blank is cut off. `bareWords_collapse_iff` says that nothing else is lost: the
words of a text, with the escapes in them, come through unless one of these happens.
-/

namespace PrettyPayload

namespace Css

variable {s t w : Text} {c : Char} {k : Quoting} {p : Spot}

/-! ## Words -/

def pushWord (word : Text) (words : List Text) : List Text :=
  if word = [] then words else word :: words

/-- What a text from a state of the searches on adds to the word it starts in, and the words behind
that one. White space that is escaped or in a literal parts no words. -/
def wordsFrom (k : Quoting) : Text → Text × List Text
  | [] => ([], [])
  | c :: t =>
    let more := wordsFrom (k.step c) t
    if k.isPlain && Text.isBlank c then ([], pushWord more.1 more.2) else (c :: more.1, more.2)

def bareWords (t : Text) : List Text :=
  let words := wordsFrom Quoting.start t
  pushWord words.1 words.2

/-- The characters of a text that are escaped outside literals, from a state of the searches on. -/
def escapesFrom (k : Quoting) : Text → Text
  | [] => []
  | c :: t =>
    if k = ⟨none, true⟩ then c :: escapesFrom (k.step c) t else escapesFrom (k.step c) t

/-- A blank that is escaped or in a literal has something behind it, and if it is escaped, it is a
space and has no further blank behind it. -/
def BlanksKept (k : Quoting) (t : Text) : Prop :=
  ∀ front c back, t = front ++ c :: back → Text.isBlank c = true →
    (k.after front).isPlain = false →
    back ≠ [] ∧
      ((k.after front).quote = none → c = ' ' ∧ back.head?.any Text.isBlank = false)

instance (k : Quoting) (t : Text) : Decidable (BlanksKept k t) :=
  Text.decidableForallSplit

theorem forall_mem_pushWord {P : Text → Prop} (hnil : P []) (word : Text) (words : List Text) :
    (∀ w ∈ pushWord word words, P w) ↔ P word ∧ ∀ w ∈ words, P w := by
  unfold pushWord
  split
  next h => rw [h]; exact (and_iff_right hnil).symm
  next => exact List.forall_mem_cons

theorem wordsFrom_cons_of_blank (h : Text.isBlank c = true) (t : Text) :
    wordsFrom Quoting.start (c :: t) = ([], bareWords t) := by
  rw [wordsFrom, Quoting.start_step_of_blank h, h]
  rfl

theorem wordsFrom_cons (h : (k.isPlain && Text.isBlank c) = false) (t : Text) :
    wordsFrom k (c :: t) = (c :: (wordsFrom (k.step c) t).1, (wordsFrom (k.step c) t).2) := by
  exact if_neg (Bool.eq_false_iff.1 h)

theorem eq_start_of_isPlain (h : k.isPlain = true) : k = Quoting.start := by
  obtain ⟨q, e⟩ := k
  cases q <;> cases e <;> simp_all [Quoting.isPlain, Quoting.start]

theorem bareWords_cons_of_blank (h : Text.isBlank c = true) (t : Text) :
    bareWords (c :: t) = bareWords t := by
  rw [bareWords, wordsFrom_cons_of_blank h]
  rfl

/-- White space parts words where the searches read it for itself. -/
theorem start_and_isBlank_of_bare (h : (k.isPlain && Text.isBlank c) = true) :
    k = Quoting.start ∧ Text.isBlank c = true := by
  obtain ⟨hplain, hblank⟩ := Bool.and_eq_true_iff.1 h
  exact ⟨eq_start_of_isPlain hplain, hblank⟩

theorem bareWords_append_of_blanks (h : ∀ c ∈ s, Text.isBlank c = true) (t : Text) :
    bareWords (s ++ t) = bareWords t := by
  induction s with
  | nil => rfl
  | cons c s ih =>
    rw [List.forall_mem_cons] at h
    rw [List.cons_append, bareWords_cons_of_blank h.1, ih h.2]

/-- White space behind a text adds no words, unless the text escapes it or leaves a literal open. -/
theorem wordsFrom_append_of_blanks (hs : k.after s = Quoting.start)
    (h : ∀ c ∈ t, Text.isBlank c = true) : wordsFrom k (s ++ t) = wordsFrom k s := by
  induction s generalizing k with
  | nil =>
    obtain rfl : k = Quoting.start := hs
    induction t with
    | nil => rfl
    | cons c t ih =>
      rw [List.forall_mem_cons] at h
      rw [List.nil_append] at ih ⊢
      rw [wordsFrom_cons_of_blank h.1, bareWords, ih h.2]
      rfl
  | cons c s ih =>
    rw [List.cons_append, wordsFrom, ih hs]
    rfl

theorem escapesFrom_eq (k : Quoting) (t : Text) :
    escapesFrom k t = escapesFrom k (wordsFrom k t).1 ++
      (wordsFrom k t).2.flatMap (escapesFrom Quoting.start) := by
  induction t generalizing k with
  | nil => rfl
  | cons c t ih =>
    cases hbare : k.isPlain && Text.isBlank c with
    | true =>
      obtain ⟨rfl, hblank⟩ := start_and_isBlank_of_bare hbare
      have hskip : escapesFrom Quoting.start (c :: t) = escapesFrom Quoting.start t := by
        rw [escapesFrom, if_neg (by decide), Quoting.start_step_of_blank hblank]
      rw [wordsFrom_cons_of_blank hblank, hskip, ih, bareWords]
      unfold pushWord
      split
      next hnil => rw [hnil]
      next => rfl
    | false =>
      rw [wordsFrom_cons hbare, escapesFrom, escapesFrom, ih (k.step c)]
      split <;> rfl

theorem escapes_eq_of_bareWords (h : bareWords s = bareWords t) :
    escapesFrom Quoting.start s = escapesFrom Quoting.start t := by
  have hwords : ∀ t, escapesFrom Quoting.start t =
      (bareWords t).flatMap (escapesFrom Quoting.start) := by
    intro t
    rw [escapesFrom_eq, bareWords]
    unfold pushWord
    split
    next hnil => rw [hnil]; rfl
    next => rfl
  rw [hwords s, h, ← hwords t]

/-! ## Blanks that are kept -/

def Quoting.Quoted (k : Quoting) : Prop := ∀ q, k.quote = some q → isQuote q = true

theorem Quoting.quoted_start : Quoting.start.Quoted := fun _ h => by cases h

theorem Quoting.Quoted.step (h : k.Quoted) (c : Char) : (k.step c).Quoted := by
  have hstep := Nesting.Quoted.step (k := ⟨k, 0, 0⟩) h c
  rwa [Nesting.Quoted, Nesting.quoting_step] at hstep

theorem Quoting.Quoted.step_blank (h : k.Quoted) (hc : Text.isBlank c = true) :
    k.step c = ⟨k.quote, false⟩ := by
  have hstep := congrArg Nesting.quoting (Nesting.Quoted.step_blank (k := ⟨k, 0, 0⟩) h hc)
  rwa [Nesting.quoting_step] at hstep

theorem blanksKept_nil (k : Quoting) : BlanksKept k [] := by
  intro front c back h
  exact absurd h.symm (by simp)

theorem blanksKept_cons :
    BlanksKept k (c :: t) ↔
      (Text.isBlank c = true → k.isPlain = false →
        t ≠ [] ∧ (k.quote = none → c = ' ' ∧ t.head?.any Text.isBlank = false)) ∧
      BlanksKept (k.step c) t :=
  Text.forall_split_cons

/-- A word that a text goes on with starts as the text does, if no white space parts them. -/
theorem head?_wordsFrom (k : Quoting) (t : Text) :
    (wordsFrom k t).1.head? = t.head?.filter fun c => !(k.isPlain && Text.isBlank c) := by
  cases t with
  | nil => rfl
  | cons c t =>
    rw [List.head?_cons, Option.filter_some]
    cases hbare : k.isPlain && Text.isBlank c with
    | true =>
      obtain ⟨rfl, hblank⟩ := start_and_isBlank_of_bare hbare
      rw [wordsFrom_cons_of_blank hblank]
      rfl
    | false =>
      rw [wordsFrom_cons hbare]
      rfl

theorem blanksKept_iff_wordsFrom (hk : k.Quoted) :
    BlanksKept k t ↔
      BlanksKept k (wordsFrom k t).1 ∧ ∀ w ∈ (wordsFrom k t).2, BlanksKept Quoting.start w := by
  induction t generalizing k with
  | nil => exact ⟨fun _ => ⟨blanksKept_nil k, List.forall_mem_nil _⟩, fun _ => blanksKept_nil k⟩
  | cons c t ih =>
    cases hbare : k.isPlain && Text.isBlank c with
    | true =>
      obtain ⟨rfl, hblank⟩ := start_and_isBlank_of_bare hbare
      rw [wordsFrom_cons_of_blank hblank, blanksKept_cons, Quoting.start_step_of_blank hblank,
        ih hk, bareWords, forall_mem_pushWord (blanksKept_nil _)]
      exact ⟨fun h => ⟨blanksKept_nil _, h.2⟩, fun h => ⟨fun _ h => absurd h (by decide), h.2⟩⟩
    | false =>
      rw [wordsFrom_cons hbare, blanksKept_cons, blanksKept_cons, ih (hk.step c), and_assoc]
      refine and_congr_left fun _ => forall_congr' fun hblank => forall_congr' fun hplain => ?_
      have hhead := head?_wordsFrom (k.step c) t
      rw [hk.step_blank hblank] at hhead ⊢
      generalize (wordsFrom ⟨k.quote, false⟩ t).1 = w at hhead
      rw [ne_eq, ne_eq, ← List.head?_eq_none_iff, ← List.head?_eq_none_iff, hhead]
      cases hq : k.quote with
      | none =>
        cases t with
        | nil => simp
        | cons d t => cases hd : Text.isBlank d <;> simp [Quoting.isPlain, hd]
      | some q => cases t <;> simp [Quoting.isPlain]

theorem blanksKept_iff_of_bareWords (h : bareWords s = bareWords t) :
    BlanksKept Quoting.start s ↔ BlanksKept Quoting.start t := by
  have hwords : ∀ t, BlanksKept Quoting.start t ↔
      ∀ w ∈ bareWords t, BlanksKept Quoting.start w := fun t => by
    rw [blanksKept_iff_wordsFrom Quoting.quoted_start, bareWords,
      forall_mem_pushWord (blanksKept_nil _)]
  rw [hwords s, h, ← hwords t]

/-! ## Copies -/

/-- From two states on, the collapsing of white space and the searches stay in the same literals all
over a text. -/
def Together (p : Spot) (k : Quoting) (t : Text) : Prop :=
  ∀ front back, t = front ++ back → (p.after front).Agrees (k.after front)

theorem EscapesNoQuote.together (h : EscapesNoQuote t) :
    Together (.between false) Quoting.start t := by
  rintro front back rfl
  exact h.of_append.agrees

theorem Together.agrees (h : Together p k t) : p.Agrees k := h [] t rfl

theorem Together.tail (h : Together p k (c :: t)) : Together (p.step c) (k.step c) t := by
  rintro front back rfl
  exact h (c :: front) back rfl

/-- How a character is copied: as it is, as a character that parts no words or as a blank that does;
or as a space, for an escaped blank. -/
theorem Together.emit_cases (h : Together p k (c :: t))
    (hp : p = .between true → k = Quoting.start) :
    (p.emit c = [c] ∧ (k.isPlain && Text.isBlank c) = false ∧ p.step c ≠ .between true ∧
        (k = ⟨none, true⟩ → Text.isBlank c = false)) ∨
      Text.isBlank c = true ∧ p.step c = .between true ∧ k.step c = Quoting.start ∧
        (k = Quoting.start ∧ p.emit c = (if p = .between true then [] else [' ']) ∨
          k = ⟨none, true⟩ ∧ p.emit c = [' ']) := by
  have hagrees := h.agrees
  have hagrees' := h.tail.agrees
  cases hagrees with
  | inside quote escaped =>
    exact Or.inl ⟨rfl, rfl, Spot.step_inside_ne quote escaped c, fun h => by cases h⟩
  | between spaced escaped =>
    cases hquote : isQuote c with
    | true =>
      have hblank := not_isBlank_of_isQuote hquote
      refine Or.inl ⟨by rw [Spot.emit, if_pos hquote], by rw [hblank, Bool.and_false], ?_,
        fun _ => hblank⟩
      rw [Spot.step, if_pos hquote]
      exact fun h => by cases h
    | false =>
      have hno := Bool.eq_false_iff.1 hquote
      have hstep : (Spot.between spaced).step c = .between (Text.isBlank c) := by
        rw [Spot.step, if_neg hno]
      cases hblank : Text.isBlank c with
      | false =>
        refine Or.inl ⟨by rw [Spot.emit, if_neg hno, hblank]; rfl, Bool.and_false _, ?_,
          fun _ => rfl⟩
        rw [hstep, hblank]
        decide
      | true =>
        have hk : Quoting.step ⟨none, escaped⟩ c = Quoting.start :=
          Quoting.Quoted.step_blank (fun _ h => by cases h) hblank
        refine Or.inr ⟨rfl, by rw [hstep, hblank], hk, ?_⟩
        cases escaped with
        | false =>
          refine Or.inl ⟨rfl, ?_⟩
          rw [Spot.emit, if_neg hno, if_pos hblank]
          cases spaced <;> rfl
        | true =>
          refine Or.inr ⟨rfl, ?_⟩
          cases spaced with
          | true => cases hp rfl
          | false => rw [Spot.emit, if_neg hno, if_pos hblank]; rfl

/-- Before a text that is copied it does not matter whether there is a space. -/
theorem Together.of_between {a : Bool} (h : Together (.between a) k t) (b : Bool) :
    Together (.between b) k t := by
  intro front back ht
  cases front with
  | nil =>
    have hagrees := h.agrees
    cases hagrees
    exact .between _ _
  | cons c front => exact h (c :: front) back ht

theorem wordsFrom_collapseFrom (h : Together p k t) (hp : p = .between true → k = Quoting.start)
    (hkept : BlanksKept k t) :
    (p ≠ .between true → wordsFrom k (collapseFrom p t) = wordsFrom k t) ∧
      (p = .between true → bareWords (collapseFrom p t) = bareWords t) := by
  induction t generalizing p k with
  | nil => exact ⟨fun _ => rfl, fun _ => rfl⟩
  | cons c t ih =>
    obtain ⟨hc, hrest⟩ := blanksKept_cons.1 hkept
    rw [collapseFrom]
    rcases h.emit_cases hp with
      ⟨hemit, hbare, hstep, -⟩ | ⟨hblank, hstep, hk, ⟨rfl, hemit⟩ | ⟨rfl, hemit⟩⟩
    · have htail := (ih h.tail (fun h => absurd h hstep) hrest).1 hstep
      have hwords : wordsFrom k (p.emit c ++ collapseFrom (p.step c) t) = wordsFrom k (c :: t) := by
        rw [hemit, List.singleton_append, wordsFrom_cons hbare, htail, wordsFrom_cons hbare]
      refine ⟨fun _ => hwords, fun hspaced => ?_⟩
      obtain rfl := hp hspaced
      rw [bareWords, hwords, bareWords]
    · have htail := (ih h.tail (fun _ => hk) hrest).2 hstep
      rw [hemit]
      constructor
      · intro hspaced
        have hspace : Text.isBlank ' ' = true := by decide
        rw [if_neg hspaced, List.singleton_append, wordsFrom_cons_of_blank hspace, htail,
          wordsFrom_cons_of_blank hblank]
      · intro hspaced
        rw [if_pos hspaced, List.nil_append, htail, bareWords_cons_of_blank hblank]
    · -- a single escaped space: what follows is copied as if no space stood before it
      obtain ⟨-, hnext⟩ := hc hblank rfl
      obtain ⟨rfl, hhead⟩ := hnext rfl
      have htogether := hstep ▸ h.tail
      have hcopy : collapseFrom (.between true) t = collapseFrom (.between false) t :=
        collapseFrom_between (fun d hd => by simpa [hd] using hhead) _ _
      have htail := (ih (htogether.of_between false) (by simp) hrest).1 (by simp)
      refine ⟨fun _ => ?_, fun hspaced => absurd (hp hspaced) (by decide)⟩
      rw [hemit, hstep, hcopy, List.singleton_append, wordsFrom_cons rfl, htail, wordsFrom_cons rfl]

/-- An escaped blank is a space, and no blank follows it. -/
def SpacesEscaped (k : Quoting) (t : Text) : Prop :=
  ∀ front c back, t = front ++ c :: back → Text.isBlank c = true → k.after front = ⟨none, true⟩ →
    c = ' ' ∧ back.head?.any Text.isBlank = false

theorem SpacesEscaped.cons
    (hc : Text.isBlank c = true → k = ⟨none, true⟩ → c = ' ' ∧ t.head?.any Text.isBlank = false)
    (ht : SpacesEscaped (k.step c) t) : SpacesEscaped k (c :: t) :=
  Text.forall_split_cons.2 ⟨hc, ht⟩

/-- In a copy of any text the space is the only blank that is escaped. -/
theorem spacesEscaped_collapseFrom (h : Together p k t)
    (hp : p = .between true → k = Quoting.start) :
    SpacesEscaped k (collapseFrom p t) := by
  induction t generalizing p k with
  | nil =>
    intro front c back heq
    exact absurd heq.symm (by simp [collapseFrom])
  | cons c t ih =>
    have hspace : Quoting.start.step ' ' = Quoting.start := by decide
    rw [collapseFrom]
    rcases h.emit_cases hp with
      ⟨hemit, -, hstep, hescaped⟩ | ⟨-, hstep, hk, ⟨rfl, hemit⟩ | ⟨rfl, hemit⟩⟩
    · rw [hemit]
      refine .cons (fun hblank hk => ?_) (ih h.tail fun h => absurd h hstep)
      rw [hescaped hk] at hblank
      cases hblank
    · have htail := ih h.tail fun _ => hk
      rw [hk] at htail
      rw [hemit]
      split
      · exact htail
      · exact .cons (fun _ hk => by cases hk) (hspace ▸ htail)
    · have htail := ih h.tail fun _ => hk
      rw [hk, hstep] at htail
      rw [hemit, hstep, List.singleton_append]
      refine .cons (fun _ _ => ⟨rfl, ?_⟩) htail
      have hcopy := collapseFrom_collapseFrom (.between true) t
      cases hhead : (collapseFrom (.between true) t).head? with
      | none => rfl
      | some d => exact head?_of_spaced hcopy hhead

theorem Quoting.after_blanks (h : ∀ c ∈ s, Text.isBlank c = true) :
    Quoting.start.after s = Quoting.start := by
  induction s with
  | nil => rfl
  | cons c s ih =>
    rw [List.forall_mem_cons] at h
    exact (congrArg (Quoting.after · s) (Quoting.start_step_of_blank h.1)).trans (ih h.2)

theorem Quoting.after_append (k : Quoting) (s t : Text) : k.after (s ++ t) = (k.after s).after t :=
  List.foldl_append

/-- Where the ends of a text are cut off, what is left keeps its blanks. -/
theorem SpacesEscaped.blanksKept_trim (h : SpacesEscaped Quoting.start t) :
    BlanksKept Quoting.start (Text.trim Text.isBlank t) := by
  obtain ⟨start, rest, ht, hstart, -⟩ := Text.exists_eq_append_trim Text.isBlank t
  have hlast : ∀ c, (Text.trim Text.isBlank t).getLast? = some c → Text.isBlank c = false :=
    fun c hc => Text.getLast?_trimEnd hc
  generalize Text.trim Text.isBlank t = u at ht hlast
  subst ht
  rintro front c back rfl hblank hplain
  have hback : back ≠ [] := by
    rintro rfl
    exact absurd (hlast c (by simp)) (by simp [hblank])
  refine ⟨hback, fun hquote => ?_⟩
  obtain ⟨d, back, rfl⟩ := List.exists_cons_of_ne_nil hback
  have hafter : Quoting.start.after (start ++ front) = ⟨none, true⟩ := by
    rw [Quoting.after_append, Quoting.after_blanks hstart]
    generalize Quoting.start.after front = k at hplain hquote
    obtain ⟨q, e⟩ := k
    obtain rfl : q = none := hquote
    cases e with
    | false => cases hplain
    | true => rfl
  exact h (start ++ front) c (d :: back ++ rest) (by simp) hblank hafter

theorem Quoting.Quoted.after (h : k.Quoted) (t : Text) : (k.after t).Quoted := by
  induction t generalizing k with
  | nil => exact h
  | cons c t ih => exact ih (h.step c)

theorem BlanksKept.right (h : BlanksKept k (s ++ t)) : BlanksKept (k.after s) t := by
  rintro front c back rfl
  rw [← Quoting.after_append]
  exact h (s ++ front) c back (by simp)

/-- No text ends in white space that is escaped or in a literal and keeps its blanks. -/
theorem not_blanksKept (hk : k.Quoted) (hplain : k.isPlain = false) (hne : t ≠ [])
    (ht : ∀ c ∈ t, Text.isBlank c = true) : ¬BlanksKept k t := by
  induction t generalizing k with
  | nil => exact absurd rfl hne
  | cons c t ih =>
    intro h
    obtain ⟨hblank, hrest⟩ := List.forall_mem_cons.1 ht
    obtain ⟨hc, hkept⟩ := blanksKept_cons.1 h
    obtain ⟨hnext, hescaped⟩ := hc hblank hplain
    cases hquote : k.quote with
    | none =>
      obtain ⟨d, t, rfl⟩ := List.exists_cons_of_ne_nil hnext
      have hd : Text.isBlank d = false := (hescaped hquote).2
      rw [hrest d List.mem_cons_self] at hd
      cases hd
    | some q =>
      have hstep : k.step c = ⟨some q, false⟩ := by rw [hk.step_blank hblank, hquote]
      exact ih (hk.step c) (by rw [hstep]; rfl) hnext hrest hkept

/-- The white space at the ends of a text that keeps its blanks is in no word. -/
theorem BlanksKept.bareWords_trim (h : BlanksKept Quoting.start t) :
    bareWords (Text.trim Text.isBlank t) = bareWords t := by
  obtain ⟨front, back, ht, hfront, hback⟩ := Text.exists_eq_append_trim Text.isBlank t
  generalize Text.trim Text.isBlank t = u at ht
  rw [ht] at h ⊢
  have hu : BlanksKept Quoting.start (u ++ back) := by
    have hright := h.right
    rwa [Quoting.after_blanks hfront] at hright
  rw [bareWords_append_of_blanks hfront]
  by_cases hnil : back = []
  · rw [hnil, List.append_nil]
  · have hplain : (Quoting.start.after u).isPlain = true := by
      by_contra hopen
      exact not_blanksKept (Quoting.quoted_start.after u) (Bool.eq_false_iff.2 hopen) hnil hback
        hu.right
    rw [bareWords, bareWords, wordsFrom_append_of_blanks (eq_start_of_isPlain hplain) hback]

/-- If no quote is escaped, the words of a text come through the collapsing of white space exactly
if each escaped blank is a space with something other than white space behind it, and the text ends
with no blank in an open literal. Then the escapes come through, too. -/
theorem bareWords_collapse_iff (h : EscapesNoQuote t) :
    (bareWords (collapse t) = bareWords t ↔ BlanksKept Quoting.start t) ∧
      (BlanksKept Quoting.start t →
        escapesFrom Quoting.start (collapse t) = escapesFrom Quoting.start t) := by
  have hcopy : SpacesEscaped Quoting.start (collapseFrom (.between false) t) :=
    spacesEscaped_collapseFrom h.together (by simp)
  have hwords : BlanksKept Quoting.start t → bareWords (collapse t) = bareWords t := by
    intro hkept
    have hsame : bareWords (collapseFrom (.between false) t) = bareWords t := by
      rw [bareWords, (wordsFrom_collapseFrom h.together (by simp) hkept).1 (by simp), bareWords]
    have hkept' := (blanksKept_iff_of_bareWords hsame).2 hkept
    exact hkept'.bareWords_trim.trans hsame
  refine ⟨⟨fun hsame => ?_, hwords⟩, fun hkept => escapes_eq_of_bareWords (hwords hkept)⟩
  exact (blanksKept_iff_of_bareWords hsame).1 hcopy.blanksKept_trim

/-- An escaped space in a name, a run of white space, and a literal with white space and an escaped
quote in it. -/
def escapedSpace : Text := "a\\ b \n c[d=\"e  \\\"\"]".toList

/-- The two words of the sample come through with the escape and the literal as they are. -/
theorem bareWords_collapse_escapedSpace :
    EscapesNoQuote escapedSpace ∧
      collapse escapedSpace = "a\\ b c[d=\"e  \\\"\"]".toList ∧
      bareWords escapedSpace = ["a\\ b".toList, "c[d=\"e  \\\"\"]".toList] ∧
      bareWords (collapse escapedSpace) = bareWords escapedSpace ∧
      escapesFrom Quoting.start escapedSpace = [' '] ∧
      escapesFrom Quoting.start (collapse escapedSpace) = [' '] := by
  have he : EscapesNoQuote escapedSpace := by decide +kernel
  have hkept : BlanksKept Quoting.start escapedSpace := by decide +kernel
  have hescapes : escapesFrom Quoting.start escapedSpace = [' '] := by decide
  exact ⟨he, by decide +kernel, by decide, (bareWords_collapse_iff he).1.2 hkept, hescapes,
    ((bareWords_collapse_iff he).2 hkept).trans hescapes⟩

def escapedTab : Text := "c\\\td".toList

/-- An escaped tab becomes an escaped space, also in what is read from a source. An escaped space at
the end is cut off, and behind another one white space is dropped, so that two words become one. -/
theorem bareWords_collapse_fails_at_escapedTab :
    EscapesNoQuote escapedTab ∧ collapse escapedTab = "c\\ d".toList ∧
      escapesFrom Quoting.start escapedTab = ['\t'] ∧
      escapesFrom Quoting.start (collapse escapedTab) = [' '] ∧
      bareWords (collapse escapedTab) ≠ bareWords escapedTab ∧
      parseDeclarations ("b:".toList ++ escapedTab) = .ok [⟨['b'], "c\\ d".toList, false⟩] ∧
      collapse "c\\ ".toList = "c\\".toList ∧
      escapesFrom Quoting.start (collapse "c\\ ".toList) = [] ∧
      bareWords "c\\  d".toList = ["c\\ ".toList, ['d']] ∧
      bareWords (collapse "c\\  d".toList) = ["c\\ d".toList] := by
  decide +kernel

end Css

end PrettyPayload
