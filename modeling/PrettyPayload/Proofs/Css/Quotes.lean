import Mathlib.Data.List.Induction
import PrettyPayload.Css.Reader
import PrettyPayload.Proofs.Css.Residue
import PrettyPayload.Proofs.Text.Split

/-!
# The scans and the quotes of a text

Four scans keep track of literals: the search for a separator, the search for the end of a block,
the collapsing of white space and the removal of comments. To the two searches a backslash hides the
character behind it everywhere, to the other two only inside a literal, so that a quote that is
escaped in a name opens a literal for these alone. `quotesAgree_iff` says that this is the only
difference: the four agree on every quote of a text exactly if none is escaped outside literals.

What the removal of comments takes for a literal shows in what it refuses: a text without comments
is refused as long as a literal is open at its end.
-/

namespace PrettyPayload

namespace Css

variable {s t : Text} {c : Char}

/-! ## Inside literals -/

/-- The state of the search for the end of a block behind a text. -/
def Quoting.after (k : Quoting) (t : Text) : Quoting := t.foldl Quoting.step k

/-- The search for a separator is inside a literal at the end of a text. -/
def SearchInside (t : Text) : Prop := (Nesting.start.after t).quoting.quote ≠ none

/-- The search for the end of a block, whatever number of blocks is open, is inside a literal at the
end of a text. -/
def BlockInside (t : Text) : Prop :=
  ∃ depth k depth', blockAfter? Quoting.start depth t = some (k, depth') ∧ k.quote ≠ none

/-- The collapsing of white space is inside a literal at the end of a text. -/
def CollapseInside (t : Text) : Prop := ∃ q e, (Spot.between false).after t = .inside q e

def StripInside (t : Text) : Prop := ∀ u, stripComments t ≠ .ok u

/-- A character behind a text opens or closes a literal for a scan. -/
def Turns (inside : Text → Prop) (front : Text) (c : Char) : Prop :=
  ¬(inside (front ++ [c]) ↔ inside front)

/-- All four scans of a text agree on every quote: it opens or closes a literal for all of them, or
for none. -/
def QuotesAgree (t : Text) : Prop :=
  ∀ front c back, t = front ++ c :: back → isQuote c = true →
    (Turns StripInside front c ↔ Turns SearchInside front c) ∧
    (Turns CollapseInside front c ↔ Turns SearchInside front c) ∧
    (Turns BlockInside front c ↔ Turns SearchInside front c)

/-- There are no comments in a text: a slash and a star in a row stand in a literal. -/
def Commentless (t : Text) : Prop :=
  ∀ front back, t = front ++ '/' :: '*' :: back → StripInside front

/-- A text can be gone on with so that it is accepted: no literal in it is broken off by a line
feed. -/
def Unbroken (t : Text) : Prop := ∃ u v, stripComments (t ++ u) = .ok v

def EscapesNoQuote (t : Text) : Prop :=
  ∀ front c back, t = front ++ c :: back → isQuote c = true →
    (Nesting.start.after front).quoting ≠ ⟨none, true⟩

instance (t : Text) : Decidable (EscapesNoQuote t) :=
  Text.decidableForallSplit

/-! ## What is refused -/

/-- A text is refused unless its end is outside literals and comments. -/
theorem stripInside_iff : StripInside t ↔ ∀ slashed, Zone.start.after t ≠ .outside slashed := by
  have hfits := Zone.fits t
  rw [StripInside]
  generalize stripComments t = x at *
  generalize Zone.start.after t = z at *
  cases hfits <;> simp

/-! ## The zones of a text without comments -/

theorem Commentless.of_append (h : Commentless (s ++ t)) : Commentless s := by
  rintro front back rfl
  exact h front (back ++ t) (by simp)

theorem Unbroken.of_append (h : Unbroken (s ++ t)) : Unbroken s := by
  obtain ⟨u, v, hok⟩ := h
  exact ⟨t ++ u, v, by rwa [← List.append_assoc]⟩

theorem EscapesNoQuote.of_append (h : EscapesNoQuote (s ++ t)) : EscapesNoQuote s := by
  rintro front c back rfl hq
  exact h front c (back ++ t) (by simp) hq

/-- A text whose slashes and stars are in literals ends in no comment. -/
theorem Commentless.not_comment (h : Commentless t) (starred : Bool) :
    Zone.start.after t ≠ .comment starred := by
  induction t using List.reverseRecOn generalizing starred with
  | nil => exact nofun
  | append_singleton t c ih =>
    intro hcomment
    rw [Zone.after_concat] at hcomment
    cases hz : Zone.start.after t with
    | outside slashed =>
      rw [hz, Zone.step] at hcomment
      split at hcomment
      next hopen =>
        obtain ⟨rfl, rfl⟩ : slashed = true ∧ c = '*' := by simpa using hopen
        obtain ⟨front, slashed, rfl, hfront⟩ := Zone.exists_of_slashed hz
        exact stripInside_iff.1 (h front [] (by simp)) slashed hfront
      next => split at hcomment <;> cases hcomment
    | literal quote escaped =>
      rcases Zone.step_literal quote escaped c with ⟨_, hstep⟩ | hstep | hstep <;>
        (rw [hz, hstep] at hcomment; cases hcomment)
    | comment starred => exact ih h.of_append starred hz
    | broken =>
      rw [hz] at hcomment
      cases hcomment

/-- A text that can be gone on with ends behind no broken literal. -/
theorem Unbroken.not_broken (h : Unbroken t) : Zone.start.after t ≠ .broken := by
  intro hbroken
  obtain ⟨u, v, hok⟩ := h
  have hfits := Zone.fits (t ++ u)
  rw [hok, Zone.after_append, hbroken, Zone.after_broken] at hfits
  cases hfits

/-! ## Scans side by side -/

/-- The collapsing of white space and the searches are in the same literal, or in none. -/
inductive Spot.Agrees : Spot → Quoting → Prop
  | between (spaced escaped : Bool) : Agrees (.between spaced) ⟨none, escaped⟩
  | inside (quote : Char) (escaped : Bool) : Agrees (.inside quote escaped) ⟨some quote, escaped⟩

/-- The removal of comments and the collapsing of white space are in the same literal, or in none.
-/
inductive Zone.Agrees : Zone → Spot → Prop
  | outside (slashed spaced : Bool) : Agrees (.outside slashed) (.between spaced)
  | inside (quote : Char) (escaped : Bool) : Agrees (.literal quote escaped) (.inside quote escaped)

/-- Outside literals a character that is no quote opens none. -/
theorem Quoting.exists_step (hq : isQuote c = false) (escaped : Bool) :
    ∃ escaped', Quoting.step ⟨none, escaped⟩ c = ⟨none, escaped'⟩ := by
  unfold Quoting.step
  cases escaped with
  | true => exact ⟨false, rfl⟩
  | false => by_cases hslash : c = '\\' <;> simp [hslash, hq]

/-- A character keeps the two together unless it is an escaped quote. -/
theorem Spot.Agrees.step {p : Spot} {k : Quoting} (h : p.Agrees k)
    (hescaped : isQuote c = true → k ≠ ⟨none, true⟩) : (p.step c).Agrees (k.step c) := by
  cases h with
  | between spaced escaped =>
    cases hq : isQuote c with
    | true =>
      have hk : Quoting.step ⟨none, escaped⟩ c = ⟨some c, false⟩ := by
        have hplain : escaped = false := by simpa using hescaped hq
        rw [hplain]
        exact Quoting.start_step_quote hq
      rw [Spot.step, if_pos hq, hk]
      exact .inside c false
    | false =>
      obtain ⟨escaped', hk⟩ := Quoting.exists_step hq escaped
      rw [Spot.step, hq, if_neg Bool.false_ne_true, hk]
      exact .between _ _
  | inside quote escaped =>
    cases escaped with
    | true => exact .inside quote false
    | false =>
      by_cases hslash : c = '\\'
      · subst hslash
        exact .inside quote true
      · by_cases hclose : c = quote
        · subst hclose
          have hk : Quoting.step ⟨some c, false⟩ c = Quoting.start := by simp [Quoting.step, hslash]
          rw [Spot.step, if_neg hslash, if_pos rfl, hk]
          exact .between false false
        · have hk : Quoting.step ⟨some quote, false⟩ c = ⟨some quote, false⟩ := by
            simp [Quoting.step, hslash, hclose]
          rw [Spot.step, if_neg hslash, if_neg hclose, hk]
          exact .inside quote false

/-- A character keeps the two together unless it opens a comment or breaks a literal off. -/
theorem Zone.Agrees.step {z : Zone} {p : Spot} (h : z.Agrees p)
    (hcomment : ∀ starred, z.step c ≠ .comment starred) (hbroken : z.step c ≠ .broken) :
    (z.step c).Agrees (p.step c) := by
  cases h with
  | outside slashed spaced =>
    have hopen : ¬(slashed && decide (c = '*')) = true := fun hopen => by
      rw [Zone.step, if_pos hopen] at hcomment
      exact hcomment false rfl
    rw [Zone.step, if_neg hopen, Spot.step]
    split
    · exact .inside c false
    · exact .outside _ _
  | inside quote escaped =>
    cases escaped with
    | true => exact .inside quote false
    | false =>
      have hfeed : c ≠ '\n' := by
        rintro rfl
        rw [Zone.step, if_neg (by decide), if_pos rfl] at hbroken
        exact hbroken rfl
      rw [Zone.step, if_neg hfeed, Spot.step]
      split
      · exact .inside quote true
      · split
        · exact .outside false false
        · exact .inside quote false

theorem Quoting.after_concat (k : Quoting) (t : Text) (c : Char) :
    k.after (t ++ [c]) = (k.after t).step c :=
  List.foldl_append

theorem Spot.after_concat (k : Spot) (t : Text) (c : Char) :
    k.after (t ++ [c]) = (k.after t).step c :=
  List.foldl_append

theorem Nesting.quoting_after (k : Nesting) (t : Text) :
    (k.after t).quoting = k.quoting.after t := by
  induction t generalizing k with
  | nil => rfl
  | cons c t ih => rw [Nesting.after_cons, ih, Nesting.quoting_step]; rfl

/-- Without escaped quotes the searches and the collapsing of white space stay together. -/
theorem EscapesNoQuote.agrees (h : EscapesNoQuote t) :
    ((Spot.between false).after t).Agrees (Quoting.start.after t) := by
  induction t using List.reverseRecOn with
  | nil => exact .between false false
  | append_singleton t c ih =>
    rw [Spot.after_concat, Quoting.after_concat]
    refine (ih h.of_append).step fun hq => ?_
    exact Nesting.quoting_after Nesting.start t ▸ h t c [] rfl hq

/-- Without comments and broken literals the removal of comments stays together with the collapsing
of white space. -/
theorem Commentless.agrees (hc : Commentless t) (hu : Unbroken t) :
    (Zone.start.after t).Agrees ((Spot.between false).after t) := by
  induction t using List.reverseRecOn with
  | nil => exact .outside false false
  | append_singleton t c ih =>
    have hcomment := hc.not_comment
    have hbroken := hu.not_broken
    rw [Zone.after_concat] at hcomment hbroken ⊢
    rw [Spot.after_concat]
    exact (ih hc.of_append hu.of_append).step hcomment hbroken

theorem quoting_of_blockAfter? {k k' : Quoting} {depth depth' : Nat}
    (h : blockAfter? k depth t = some (k', depth')) : k' = k.after t := by
  induction t generalizing k depth with
  | nil => exact (Prod.mk.inj (Option.some.inj h)).1.symm
  | cons c t ih =>
    obtain ⟨d, -, ht⟩ := Option.bind_eq_some_iff.1 h
    exact ih ht

theorem exists_depthAfter? {depth : Nat} (h : 0 < depth) (k : Quoting) (c : Char) :
    ∃ d, depthAfter? k depth c = some d ∧ depth ≤ d + 1 := by
  obtain ⟨d, rfl⟩ := Nat.exists_eq_add_of_lt h
  unfold depthAfter?
  split
  · exact ⟨_, rfl, Nat.le_refl _⟩
  · refine ⟨_, rfl, ?_⟩
    split <;> omega

/-- The search for the end of a block gets over a text if enough blocks are open. -/
theorem exists_blockAfter? {depth : Nat} (h : t.length ≤ depth) (k : Quoting) :
    ∃ depth', blockAfter? k depth t = some (k.after t, depth') := by
  induction t generalizing k depth with
  | nil => exact ⟨depth, rfl⟩
  | cons c t ih =>
    rw [List.length_cons] at h
    obtain ⟨d, hd, hle⟩ := exists_depthAfter? (Nat.lt_of_lt_of_le (Nat.succ_pos _) h) k c
    obtain ⟨depth', ht⟩ := ih (Nat.le_of_succ_le_succ (Nat.le_trans h hle)) (k.step c)
    rw [blockAfter?, hd, Option.bind_some, ht]
    exact ⟨depth', rfl⟩

theorem blockInside_iff : BlockInside t ↔ SearchInside t := by
  rw [SearchInside, Nesting.quoting_after]
  constructor
  · rintro ⟨depth, k, depth', hpass, hquote⟩
    exact quoting_of_blockAfter? hpass ▸ hquote
  · intro hquote
    obtain ⟨depth', hpass⟩ := exists_blockAfter? (Nat.le_refl t.length) Quoting.start
    exact ⟨t.length, _, depth', hpass, hquote⟩

theorem stripInside_iff_collapseInside (hc : Commentless t) (hu : Unbroken t) :
    StripInside t ↔ CollapseInside t := by
  have hagrees := hc.agrees hu
  rw [stripInside_iff, CollapseInside]
  generalize Zone.start.after t = z at *
  generalize (Spot.between false).after t = p at *
  cases hagrees <;> simp

theorem EscapesNoQuote.collapseInside_iff (h : EscapesNoQuote t) :
    CollapseInside t ↔ SearchInside t := by
  have hagrees := h.agrees
  rw [CollapseInside, SearchInside, Nesting.quoting_after, Nesting.start]
  generalize (Spot.between false).after t = p at *
  generalize Quoting.start.after t = k at *
  cases hagrees <;> simp

/-! ## Quotes -/

/-- At the first escaped quote the collapsing of white space enters a literal, and the searches do
not. -/
theorem EscapesNoQuote.turns (h : EscapesNoQuote t) (hq : isQuote c = true)
    (hk : Quoting.start.after t = ⟨none, true⟩) :
    Turns CollapseInside t c ∧ ¬Turns SearchInside t c := by
  have hagrees := h.agrees
  rw [hk] at hagrees
  have hstart : Nesting.start.quoting = Quoting.start := rfl
  have hafter : Quoting.start.after (t ++ [c]) = Quoting.start := by
    rw [Quoting.after_concat, hk]
    rfl
  constructor
  · rw [Turns, CollapseInside, CollapseInside, Spot.after_concat]
    generalize (Spot.between false).after t = p at hagrees
    cases hagrees
    simp [Spot.step, hq]
  · rw [Turns, SearchInside, SearchInside, Nesting.quoting_after, Nesting.quoting_after, hstart,
      hafter, hk, not_not]
    exact iff_of_false (fun h => h rfl) fun h => h rfl

/-- In a text without comments and broken literals all four scans agree on every quote, exactly if
no quote is escaped outside literals. Then such a text is refused only for a literal that the
searches find open at its end, too. -/
theorem quotesAgree_iff (hc : Commentless t) (hu : Unbroken t) :
    (QuotesAgree t ↔ EscapesNoQuote t) ∧
      (EscapesNoQuote t →
        ((∃ near, stripComments t = .error (.unterminatedString near)) ↔ SearchInside t)) := by
  refine ⟨⟨fun hagree => ?_, fun he => ?_⟩, fun he => ?_⟩
  · -- the scans are together up to the first escaped quote, and part there
    clear hc hu
    induction t using List.reverseRecOn with
    | nil => exact fun front c back heq => absurd heq.symm (by simp)
    | append_singleton t c ih =>
      have ht : EscapesNoQuote t := by
        refine ih ?_
        rintro front d back rfl
        exact hagree front d (back ++ [c]) (by simp)
      rintro front d back heq hq hk
      rcases List.eq_nil_or_concat back with rfl | ⟨back, e, rfl⟩
      · obtain ⟨rfl, hd⟩ := List.append_inj' heq rfl
        obtain rfl := (List.cons.inj hd).1
        rw [Nesting.quoting_after] at hk
        obtain ⟨hcollapse, hsearch⟩ := ht.turns hq hk
        exact hsearch ((hagree t c [] rfl hq).2.1.1 hcollapse)
      · rw [List.concat_eq_append, ← List.cons_append, ← List.append_assoc] at heq
        exact ht front d back (List.append_inj' heq rfl).1 hq hk
  · rintro front c back rfl -
    have hinside : ∀ s rest, front ++ c :: back = s ++ rest →
        (StripInside s ↔ SearchInside s) ∧ (CollapseInside s ↔ SearchInside s) := by
      intro s rest heq
      rw [heq] at hc hu he
      have hcollapse := he.of_append.collapseInside_iff
      exact ⟨(stripInside_iff_collapseInside hc.of_append hu.of_append).trans hcollapse, hcollapse⟩
    obtain ⟨hstrip, hcollapse⟩ := hinside front (c :: back) rfl
    obtain ⟨hstrip', hcollapse'⟩ := hinside (front ++ [c]) back (by simp)
    simp only [Turns, blockInside_iff, hstrip, hcollapse, hstrip', hcollapse', and_self]
  · rw [← he.collapseInside_iff, ← stripInside_iff_collapseInside hc hu, StripInside]
    have hfits := Zone.fits t
    have hcomment := hc.not_comment
    generalize stripComments t = x at *
    generalize Zone.start.after t = z at *
    cases hfits with
    | comment starred => exact absurd rfl (hcomment starred)
    | _ => simp

theorem commentless_of_stripComments (h : stripComments t = .ok t) : Commentless t := by
  have hopens : EachOutside OpensNone Zone.start t :=
    ((stripping_of_stripComments h).uncommented_iff_opensNone Bool.false_ne_true.elim).1
      (uncommented_of_stripComments h)
  rintro front back rfl
  rw [stripInside_iff]
  intro slashed hz
  exact hopens front '/' ('*' :: back) slashed rfl hz rfl rfl

/-- An escaped letter, an escaped quote in a literal and a literal that is left open. -/
def openName : Text := "a\\b[c=\"/*\\\"\"] 'd".toList

/-- The scans agree on the quotes of the sample, which is refused for its open literal. -/
theorem quotesAgree_openName :
    Commentless openName ∧ Unbroken openName ∧ EscapesNoQuote openName ∧ QuotesAgree openName ∧
      SearchInside openName ∧
      ∃ near, stripComments openName = .error (.unterminatedString near) := by
  have hclosed : stripComments (openName ++ ['\'']) = .ok (openName ++ ['\'']) := by decide +kernel
  have hc : Commentless openName := (commentless_of_stripComments hclosed).of_append
  have hu : Unbroken openName := ⟨['\''], _, hclosed⟩
  have he : EscapesNoQuote openName := by decide
  have hsearch : SearchInside openName := by
    rw [SearchInside]
    decide
  exact ⟨hc, hu, he, (quotesAgree_iff hc hu).1.2 he, hsearch,
    ((quotesAgree_iff hc hu).2 he).2 hsearch⟩

def escapedName : Text := "a\\\"b\x7bc:d\x7d".toList

/-- The removal of comments and the collapsing of white space take the escaped quote for the start
of a literal, and the stylesheet is refused. The searches go over it and find a rule. -/
theorem quotes_part_at_escapedName :
    Commentless escapedName ∧ ¬QuotesAgree escapedName ∧
      Turns StripInside "a\\".toList '"' ∧ Turns CollapseInside "a\\".toList '"' ∧
      ¬Turns SearchInside "a\\".toList '"' ∧
      parseStylesheet escapedName = .error (.unterminatedString "\"b\x7bc:d\x7d".toList) ∧
      readItems true escapedName =
        .ok [.block (.style ["a\\\"b".toList]) [.declaration ⟨['c'], ['d'], false⟩]] := by
  have hfront : stripComments "a\\".toList = .ok "a\\".toList := by decide +kernel
  have he : EscapesNoQuote "a\\".toList := by decide
  have hc : Commentless "a\\".toList := commentless_of_stripComments hfront
  have hstrip := stripInside_iff_collapseInside hc ⟨[], _, hfront⟩
  obtain ⟨hcollapse, hsearch⟩ := he.turns (c := '"') rfl rfl
  refine ⟨?_, fun hagree => ?_, ?_, hcollapse, hsearch, by decide +kernel, by decide +kernel⟩
  · intro front back heq
    have hmem : '/' ∈ escapedName := heq ▸ List.mem_append_right front List.mem_cons_self
    exact absurd hmem (by decide)
  · exact hsearch ((hagree "a\\".toList '"' "b\x7bc:d\x7d".toList rfl rfl).2.1.1 hcollapse)
  · have hbefore : ¬StripInside "a\\".toList := by
      rw [hstrip]
      exact fun ⟨_, _, h⟩ => by cases h
    have hafter : StripInside ("a\\".toList ++ ['"']) := by
      rw [stripInside_iff]
      decide
    exact fun hturn => hbefore (hturn.1 hafter)

end Css

end PrettyPayload
