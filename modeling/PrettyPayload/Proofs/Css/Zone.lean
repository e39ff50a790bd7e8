import PrettyPayload.Proofs.Css.Scan

/-!
# Zones of a source

Every character of a stylesheet's source stands in a literal, in a comment or outside of both.
`Zone` tells which, one character after the other: a comment is opened by a slash and a star that
stand outside, and it ends at the next star and slash, so of either mark the first character has to
be known when the second is read. A literal that meets an unescaped line feed is broken, and then
the source is refused. The zone at the end of a source tells whether its comments can be removed,
and why not (`Zone.fits`).
-/

namespace PrettyPayload

namespace Css

variable {c : Char} {s t : Text}

/-- Where a source is read: outside literals and comments, right behind a slash or not; in a
literal, right behind a backslash or not; in a comment, right behind a star or not; or behind a
literal that was not closed on its line. -/
inductive Zone where
  | outside (slashed : Bool)
  | literal (quote : Char) (escaped : Bool)
  | comment (starred : Bool)
  | broken
  deriving DecidableEq, Repr

namespace Zone

def start : Zone := outside false

def step : Zone → Char → Zone
  | outside slashed, c =>
    if slashed && c = '*' then comment false
    else if isQuote c then literal c false
    else outside (c = '/')
  | literal quote true, _ => literal quote false
  | literal quote false, c =>
    if c = '\\' then literal quote true
    else if c = '\n' then broken
    else if c = quote then start
    else literal quote false
  | comment starred, c => if starred && c = '/' then start else comment (c = '*')
  | broken, _ => broken

def after (z : Zone) (t : Text) : Zone := t.foldl step z

@[simp] theorem after_nil (z : Zone) : z.after [] = z := rfl

@[simp] theorem after_cons (z : Zone) (c : Char) (t : Text) :
    z.after (c :: t) = (z.step c).after t := rfl

theorem after_append (z : Zone) (s t : Text) : z.after (s ++ t) = (z.after s).after t :=
  List.foldl_append

example : start.after "a\"b\"/* c".toList = comment false := by decide

theorem step_outside (slashed : Bool) (hc : slashed = true → c ≠ '*') (hquote : isQuote c = false) :
    (outside slashed).step c = outside (c = '/') := by
  have hopen : ¬(slashed && decide (c = '*')) = true := by
    rw [Bool.and_eq_true, decide_eq_true_eq]
    exact fun h => hc h.1 h.2
  rw [step, if_neg hopen, hquote, if_neg Bool.false_ne_true]

theorem step_outside_quote {quote : Char} (slashed : Bool) (hquote : isQuote quote = true) :
    (outside slashed).step quote = literal quote false := by
  have hne : quote ≠ '*' := by
    rintro rfl
    exact absurd hquote (by decide)
  rw [step, if_neg (by simp [hne]), if_pos hquote]

theorem step_comment {starred : Bool} (h : starred = true → c ≠ '/') :
    (comment starred).step c = comment (c = '*') := by
  rw [step, if_neg]
  rw [Bool.and_eq_true, decide_eq_true_eq]
  exact fun hc => h hc.1 hc.2

/-- Outside literals and comments, or behind a literal that was broken off. -/
def isFree : Zone → Bool
  | outside _ => true
  | broken => true
  | _ => false

/-- Behind white space no mark of a comment is open. -/
theorem step_blank (slashed : Bool) (h : Text.isBlank c = true) :
    (outside slashed).step c = start := by
  have hmark : c ≠ '*' ∧ c ≠ '/' := by
    constructor <;> (rintro rfl; exact absurd h (by decide))
  rw [step_outside slashed (fun _ => hmark.1) (not_isQuote_of_isBlank h), start,
    decide_eq_false hmark.2]

theorem after_of_blanks (slashed : Bool) (hne : t ≠ []) (h : ∀ c ∈ t, Text.isBlank c = true) :
    (outside slashed).after t = start := by
  induction t generalizing slashed with
  | nil => exact absurd rfl hne
  | cons c t ih =>
    rw [List.forall_mem_cons] at h
    rw [after_cons, step_blank slashed h.1]
    by_cases hnil : t = []
    · rw [hnil, after_nil]
    · exact ih false hnil h.2

end Zone

/-! ## Characters outside literals and comments -/

section EachOutside

variable {p : Char → Text → Prop} {z : Zone} {quote : Char} {body rest : Text} {slashed : Bool}

/-- Something holds of each character that stands outside literals and comments, and of what is
behind it. The marks around literals and comments are outside, but for the last mark. -/
def EachOutside (p : Char → Text → Prop) (z : Zone) (t : Text) : Prop :=
  ∀ front c back slashed, t = front ++ c :: back → z.after front = .outside slashed → p c back

theorem eachOutside_nil (p : Char → Text → Prop) (z : Zone) : EachOutside p z [] := by
  intro front c back slashed h
  exact absurd h.symm (List.append_ne_nil_of_right_ne_nil front (List.cons_ne_nil c back))

theorem eachOutside_cons :
    EachOutside p z (c :: t) ↔
      (∀ slashed, z = .outside slashed → p c t) ∧ EachOutside p (z.step c) t := by
  constructor
  · intro h
    refine ⟨fun slashed hz => h [] c t slashed rfl hz, fun front d back slashed ht hz => ?_⟩
    exact h (c :: front) d back slashed (congrArg (c :: ·) ht) hz
  · rintro ⟨hc, ht⟩ front d back slashed heq hz
    cases front with
    | nil =>
      obtain ⟨rfl, rfl⟩ := List.cons.inj heq
      exact hc slashed hz
    | cons e front =>
      obtain ⟨rfl, htail⟩ := List.cons.inj heq
      exact ht front d back slashed htail hz

instance decidableEachOutside (p : Char → Text → Prop) [∀ c t, Decidable (p c t)] :
    (z : Zone) → (t : Text) → Decidable (EachOutside p z t)
  | z, [] => isTrue (eachOutside_nil p z)
  | z, c :: t =>
    have := decidableEachOutside p (z.step c) t
    decidable_of_iff' _ eachOutside_cons

theorem eachOutside_cons_of_plain (hc : slashed = true → c ≠ '*') (hquote : isQuote c = false) :
    EachOutside p (.outside slashed) (c :: t) ↔
      p c t ∧ EachOutside p (.outside (c = '/')) t := by
  rw [eachOutside_cons, Zone.step_outside slashed hc hquote]
  exact and_congr_left' ⟨fun h => h slashed rfl, fun h _ _ => h⟩

theorem eachOutside_literal (hquote : isQuote quote = true) (h : Literal quote body) :
    EachOutside p (.outside slashed) (quote :: body ++ t) ↔
      p quote (body ++ t) ∧ EachOutside p Zone.start t := by
  have hinside : EachOutside p (.literal quote false) (body ++ t) ↔ EachOutside p Zone.start t := by
    have hpass : ∀ {escaped : Bool} {c : Char} {u : Text},
        EachOutside p (.literal quote escaped) (c :: u) ↔
          EachOutside p ((Zone.literal quote escaped).step c) u := fun {escaped c u} => by
      rw [eachOutside_cons]
      exact and_iff_right fun _ hz => by cases hz
    induction h with
    | close hslash hfeed =>
      rw [List.cons_append, hpass, Zone.step, if_neg hslash, if_neg hfeed, if_pos rfl]
      rfl
    | escape c _ ih =>
      rw [List.cons_append, hpass, Zone.step, if_pos rfl, List.cons_append, hpass, Zone.step]
      exact ih
    | char hslash hfeed hne _ ih =>
      rw [List.cons_append, hpass, Zone.step, if_neg hslash, if_neg hfeed, if_neg hne]
      exact ih
  rw [List.cons_append, eachOutside_cons, Zone.step_outside_quote slashed hquote, hinside]
  exact and_congr_left' ⟨fun h => h slashed rfl, fun h _ _ => h⟩

theorem eachOutside_comment (h : skipComment t = some rest) :
    EachOutside p (.outside slashed) ('/' :: '*' :: t) ↔
      p '/' ('*' :: t) ∧ p '*' t ∧ EachOutside p Zone.start rest := by
  have hinside : ∀ starred : Bool, (starred = true → t.head? ≠ some '/') →
      (EachOutside p (.comment starred) t ↔ EachOutside p Zone.start rest) := by
    have hpass : ∀ {starred : Bool} {c : Char} {u : Text},
        EachOutside p (.comment starred) (c :: u) ↔
          EachOutside p ((Zone.comment starred).step c) u := fun {starred c u} => by
      rw [eachOutside_cons]
      exact and_iff_right fun _ hz => by cases hz
    fun_induction skipComment t with
    | case1 => cases h
    | case2 t =>
      intro starred _
      obtain rfl := Option.some.inj h
      have hstep : (Zone.comment starred).step '*' = .comment true :=
        Zone.step_comment fun _ => by decide
      rw [hpass, hstep, hpass]
      rfl
    | case3 c t hend ih =>
      intro starred hstarred
      rw [hpass, Zone.step_comment fun hs hc => hstarred hs (congrArg some hc)]
      refine ih h _ fun hc hslash => ?_
      obtain ⟨u, rfl⟩ := List.head?_eq_some_iff.1 hslash
      exact hend u (of_decide_eq_true hc) rfl
  have hopen : (Zone.outside slashed).step '/' = .outside true :=
    Zone.step_outside slashed (fun _ => by decide) (by decide)
  have hstar : (Zone.outside true).step '*' = .comment false := rfl
  rw [eachOutside_cons, hopen, eachOutside_cons, hstar, hinside false Bool.false_ne_true.elim]
  exact and_congr ⟨fun h => h slashed rfl, fun h _ _ => h⟩
    (and_congr_left' ⟨fun h => h true rfl, fun h _ _ => h⟩)

end EachOutside

/-! ## What the removal of comments is in -/

section Fits

variable {rest body : Text} {quote : Char} {last : Option Char}

namespace Zone

theorem after_concat (z : Zone) (t : Text) (c : Char) :
    z.after (t ++ [c]) = (z.after t).step c :=
  after_append z t [c]

theorem step_literal (quote : Char) (escaped : Bool) (c : Char) :
    (∃ escaped', (literal quote escaped).step c = literal quote escaped') ∨
      (literal quote escaped).step c = start ∨ (literal quote escaped).step c = broken := by
  cases escaped with
  | true => exact Or.inl ⟨false, rfl⟩
  | false =>
    rw [step]
    split
    · exact Or.inl ⟨true, rfl⟩
    · split
      · exact Or.inr (Or.inr rfl)
      · split
        · exact Or.inr (Or.inl rfl)
        · exact Or.inl ⟨false, rfl⟩

/-- Behind a slash outside literals and comments its place was outside, too. -/
theorem exists_of_slashed (h : start.after t = outside true) :
    ∃ front slashed, t = front ++ ['/'] ∧ start.after front = outside slashed := by
  rcases List.eq_nil_or_concat t with rfl | ⟨front, c, rfl⟩
  · cases h
  · rw [List.concat_eq_append, after_concat] at h
    refine ⟨front, ?_⟩
    cases hz : start.after front with
    | outside slashed =>
      rw [hz, step] at h
      split at h
      · cases h
      · split at h
        · cases h
        · obtain rfl : c = '/' := by simpa using h
          exact ⟨slashed, List.concat_eq_append, rfl⟩
    | literal quote escaped =>
      rcases step_literal quote escaped c with ⟨_, hstep⟩ | hstep | hstep <;>
        (rw [hz, hstep] at h; cases h)
    | comment starred =>
      rw [hz, step] at h
      split at h <;> cases h
    | broken =>
      rw [hz] at h
      cases h

theorem after_literal (h : Literal quote body) (rest : Text) :
    (Zone.literal quote false).after (body ++ rest) = Zone.start.after rest := by
  induction h with
  | close hslash hfeed =>
    rw [List.cons_append, after_cons, step, if_neg hslash, if_neg hfeed, if_pos rfl]
    rfl
  | escape c _ ih => exact ih
  | char hslash hfeed hquote _ ih =>
    rw [List.cons_append, after_cons, step, if_neg hslash, if_neg hfeed, if_neg hquote]
    exact ih

theorem after_broken (t : Text) : broken.after t = broken := by
  induction t with
  | nil => rfl
  | cons c t ih => exact ih

theorem after_open_literal (h : takeLiteral quote t = none) :
    (∃ escaped, (Zone.literal quote false).after t = literal quote escaped) ∨
      (Zone.literal quote false).after t = broken := by
  fun_induction takeLiteral quote t with
  | case1 => exact Or.inl ⟨false, rfl⟩
  | case2 => exact Or.inl ⟨true, rfl⟩
  | case3 d t ih => exact ih (Option.map_eq_none_iff.1 h)
  | case4 t => exact Or.inr (after_broken t)
  | case5 => cases h
  | case6 c t hslash hfeed hquote ih =>
    rw [after_cons, step, if_neg hslash, if_neg hfeed, if_neg hquote]
    exact ih (Option.map_eq_none_iff.1 h)

/-- Behind its opening a comment goes on up to where it is skipped, or else to the end. -/
theorem after_comment (starred : Bool) (t : Text)
    (hstarred : starred = true → t.head? ≠ some '/') :
    match skipComment t with
    | some rest => (Zone.comment starred).after t = Zone.start.after rest
    | none => ∃ starred', (Zone.comment starred).after t = comment starred' := by
  fun_induction skipComment t generalizing starred with
  | case1 => exact ⟨starred, rfl⟩
  | case2 t =>
    have hstep : (Zone.comment starred).step '*' = .comment true := step_comment fun _ => by decide
    rw [after_cons, hstep]
    rfl
  | case3 c t hend ih =>
    rw [after_cons, step_comment fun hs hc => hstarred hs (congrArg some hc)]
    refine ih _ fun hc hslash => ?_
    obtain ⟨u, rfl⟩ := List.head?_eq_some_iff.1 hslash
    exact hend u (of_decide_eq_true hc) rfl

theorem after_marks (slashed : Bool) (t : Text) :
    (Zone.outside slashed).after ('/' :: '*' :: t) = (Zone.comment false).after t := by
  rw [after_cons, step_outside slashed (fun _ => by decide) (by decide)]
  rfl

theorem after_closed_comment (slashed : Bool) (h : skipComment t = some rest) :
    (Zone.outside slashed).after ('/' :: '*' :: t) = Zone.start.after rest := by
  have hafter := after_comment false t Bool.false_ne_true.elim
  rw [h] at hafter
  exact (after_marks slashed t).trans hafter

theorem after_open_comment (slashed : Bool) (h : skipComment t = none) :
    ∃ starred, (Zone.outside slashed).after ('/' :: '*' :: t) = comment starred := by
  have hafter := after_comment false t Bool.false_ne_true.elim
  rw [h] at hafter
  rw [after_marks]
  exact hafter

/-- The zone at the end of a text fits what the removal of comments made of it. -/
inductive Fits : Except Error Text → Zone → Prop
  | outside (u : Text) (slashed : Bool) : Fits (.ok u) (.outside slashed)
  | literal (near : Text) (quote : Char) (escaped : Bool) :
      Fits (.error (.unterminatedString near)) (.literal quote escaped)
  | broken (near : Text) : Fits (.error (.unterminatedString near)) .broken
  | comment (starred : Bool) : Fits (.error .unterminatedComment) (.comment starred)

theorem Fits.map {x : Except Error Text} {z : Zone} (h : Fits x z) (f : Text → Text) :
    Fits (f <$> x) z := by
  cases h with
  | outside u slashed => exact .outside (f u) slashed
  | literal near q e => exact .literal near q e
  | broken near => exact .broken near
  | comment starred => exact .comment starred

theorem fits_after {slashed : Bool} (hstar : slashed = true → t.head? ≠ some '*') :
    Fits (stripCommentsAfter last t) ((Zone.outside slashed).after t) := by
  fun_induction stripCommentsAfter last t generalizing slashed with
  | case1 => exact .outside [] slashed
  | case2 last c t hopen hskip =>
    obtain ⟨rfl, hhead⟩ := hopen
    obtain ⟨t, rfl⟩ := List.head?_eq_some_iff.1 hhead
    obtain ⟨starred, hafter⟩ := after_open_comment slashed hskip
    rw [List.tail_cons] at hafter
    rw [hafter]
    exact .comment starred
  | case3 last c t hopen rest hskip hfuse ih =>
    obtain ⟨rfl, hhead⟩ := hopen
    obtain ⟨t, rfl⟩ := List.head?_eq_some_iff.1 hhead
    rw [List.tail_cons] at hskip
    rw [after_closed_comment slashed hskip]
    exact (ih Bool.false_ne_true.elim).map _
  | case4 last c t hopen rest hskip hfuse ih =>
    obtain ⟨rfl, hhead⟩ := hopen
    obtain ⟨t, rfl⟩ := List.head?_eq_some_iff.1 hhead
    rw [List.tail_cons] at hskip
    rw [after_closed_comment slashed hskip]
    exact ih Bool.false_ne_true.elim
  | case5 last c t hopen hq hliteral =>
    rw [after_cons, step_outside_quote slashed hq]
    rcases after_open_literal hliteral with ⟨e, hafter⟩ | hafter
    · rw [hafter]
      exact .literal _ c e
    · rw [hafter]
      exact .broken _
  | case6 last c t hopen hq literal rest hliteral ih =>
    rw [after_cons, step_outside_quote slashed hq, takeLiteral_eq_some hliteral,
      after_literal (literal_of_takeLiteral hliteral)]
    exact (ih Bool.false_ne_true.elim).map _
  | case7 last c t hopen hq ih =>
    have hplain : slashed = true → c ≠ '*' := fun hslashed hc =>
      hstar hslashed (congrArg some hc)
    rw [after_cons, step_outside slashed hplain (Bool.eq_false_iff.2 hq)]
    refine (ih fun hc hhead => ?_).map _
    exact hopen ⟨of_decide_eq_true hc, hhead⟩

theorem fits (t : Text) : Fits (stripComments t) (start.after t) :=
  fits_after Bool.false_ne_true.elim

end Zone

end Fits

end Css

end PrettyPayload
