import Mathlib.Data.List.Basic
import PrettyPayload.Proofs.Css.Zone

/-!
# What the removal of comments leaves

The removal of comments goes through a source once and does not look at its result. A comment
between two name characters leaves a space behind, but a comment between a slash and a star leaves
nothing, and the two then open a comment in the result: from `//**/*` the text `/*` is left.
`stripComments_residue` says that this is all that goes wrong: where no slash meets a star across
comments, no comment is left, and the text without comments is its own text without comments.
-/

namespace PrettyPayload

namespace Css

variable {s t u rest : Text} {c quote : Char} {last : Option Char} {slashed : Bool}

/-! ## Slashes before comments -/

inductive Skips : Text → Text → Prop
  | one {t rest : Text} (h : skipComment t = some rest) : Skips ('/' :: '*' :: t) rest
  | more {t next rest : Text} (h : skipComment t = some next) (hnext : Skips next rest) :
      Skips ('/' :: '*' :: t) rest

theorem skips_comment_iff (h : skipComment t = some rest) :
    Skips ('/' :: '*' :: t) u ↔ rest = u ∨ Skips rest u := by
  constructor
  · rintro (hskip | ⟨hskip, hnext⟩)
    · exact Or.inl (Option.some.inj (h.symm.trans hskip))
    · exact Or.inr (Option.some.inj (h.symm.trans hskip) ▸ hnext)
  · rintro (rfl | hnext)
    · exact .one h
    · exact .more h hnext

theorem not_skips_cons (h : c = '/' → t.head? ≠ some '*') (rest : Text) :
    ¬Skips (c :: t) rest := by
  intro hskips
  cases hskips with
  | one hskip => exact h rfl rfl
  | more hskip hnext => exact h rfl rfl

/-- If it is a slash that is outside, then no star follows. -/
def OpensNone (c : Char) (back : Text) : Prop := c = '/' → back.head? ≠ some '*'

/-- If it is a slash that is outside, then no star follows the comments behind it. -/
def JoinsNone (c : Char) (back : Text) : Prop := c = '/' → ∀ rest, ¬Skips back ('*' :: rest)

theorem opensNone_of_ne (h : c ≠ '/') (back : Text) : OpensNone c back := fun hc => absurd hc h

theorem joinsNone_of_ne (h : c ≠ '/') (back : Text) : JoinsNone c back := fun hc => absurd hc h

/-! ## Texts without comments -/

theorem uncommented_cons_iff (hquote : isQuote c = false) :
    Uncommented (c :: t) ↔ OpensNone c t ∧ Uncommented t := by
  constructor
  · intro h
    cases h with
    | literal quote body t hq hbody ht =>
      rw [hq] at hquote
      cases hquote
    | cons c t hq hc ht => exact ⟨hc, ht⟩
  · rintro ⟨hc, ht⟩
    exact .cons c t hquote hc ht

theorem uncommented_literal_iff {body : Text} (hquote : isQuote quote = true)
    (hbody : Literal quote body) : Uncommented (quote :: body ++ t) ↔ Uncommented t := by
  refine ⟨fun h => ?_, .literal quote body t hquote hbody⟩
  generalize hu : quote :: body ++ t = u at h
  cases h with
  | nil => cases hu
  | literal quote' body' t' hq hbody' ht =>
    obtain rfl := (List.cons.inj hu).1
    have htail : body ++ t = body' ++ t' := (List.cons.inj hu).2
    have htake := hbody.takeLiteral_append t
    rw [htail, hbody'.takeLiteral_append t'] at htake
    obtain ⟨-, rfl⟩ := Prod.mk.inj (Option.some.inj htake)
    exact ht
  | cons c t' hq hc ht =>
    obtain ⟨rfl, -⟩ := List.cons.inj hu
    rw [hquote] at hq
    cases hq

theorem stripComments_eq_self_iff : stripComments t = .ok t ↔ Uncommented t :=
  ⟨uncommented_of_stripComments, fun h => h.stripCommentsAfter_eq none⟩

theorem ne_mark_of_isQuote (h : isQuote quote = true) : quote ≠ '*' ∧ quote ≠ '/' := by
  constructor <;> (rintro rfl; exact absurd h (by decide))

/-! ## What is left -/

/-- No slash that is part of a comment's marks meets a star behind it. -/
theorem eachOutside_comment_iff (h : skipComment t = some rest) :
    EachOutside JoinsNone (.outside slashed) ('/' :: '*' :: t) ↔
      EachOutside JoinsNone Zone.start rest := by
  have hslash : JoinsNone '/' ('*' :: t) := fun _ rest =>
    not_skips_cons (c := '*') (fun hc => absurd hc (by decide)) ('*' :: rest)
  rw [eachOutside_comment h]
  exact (and_iff_right hslash).trans (and_iff_right (joinsNone_of_ne (by decide) t))

/-- The first character that is left behind a character of no name is a star if it was there, or if
it follows comments. -/
theorem Stripping.head?_eq_star_iff (h : Stripping last s t) (hlast : last.any isNameChar = false) :
    t.head? = some '*' ↔ s.head? = some '*' ∨ ∃ rest, Skips s ('*' :: rest) := by
  induction h with
  | nil last =>
    have hnone : ∀ rest, ¬Skips [] rest := fun rest hskips => by cases hskips
    simp [hnone]
  | space _ hfuse _ _ =>
    rw [fuses, hlast, Bool.false_and] at hfuse
    cases hfuse
  | @comment last t rest u hskip _ _ ih =>
    have hhead : ('/' :: '*' :: t).head? ≠ some '*' := by simp
    refine (ih hlast).trans ?_
    rw [or_iff_right hhead]
    simp only [skips_comment_iff hskip, exists_or, List.head?_eq_some_iff]
  | @literal last quote t body rest u hq _ _ _ =>
    have hne := ne_mark_of_isQuote hq
    have hnone := not_skips_cons (t := t) fun h => absurd h hne.2
    simp [hne.1, hnone]
  | cons hc _ _ _ =>
    have hnone := not_skips_cons hc
    simp [hnone]

/-- The text that is left has no comment if no slash of the source meets a star across comments. -/
theorem Stripping.uncommented_iff_joinsNone (h : Stripping last s t)
    (hstar : slashed = true → s.head? ≠ some '*') :
    Uncommented t ↔ EachOutside JoinsNone (.outside slashed) s := by
  induction h generalizing slashed with
  | nil last => exact iff_of_true .nil (eachOutside_nil _ _)
  | space hskip _ _ ih =>
    rw [uncommented_cons_iff (by decide), eachOutside_comment_iff hskip]
    exact (and_iff_right (opensNone_of_ne (by decide) _)).trans (ih Bool.false_ne_true.elim)
  | comment hskip _ _ ih =>
    rw [eachOutside_comment_iff hskip]
    exact ih Bool.false_ne_true.elim
  | literal hq hliteral _ ih =>
    have hbody := literal_of_takeLiteral hliteral
    obtain rfl := takeLiteral_eq_some hliteral
    rw [uncommented_literal_iff hq hbody, ← List.cons_append, eachOutside_literal hq hbody]
    have hnone := joinsNone_of_ne (ne_mark_of_isQuote hq).2
    exact (ih Bool.false_ne_true.elim).trans (and_iff_right (hnone _)).symm
  | @cons last c s t hc hq h ih =>
    have hplain : slashed = true → c ≠ '*' := fun hslashed heq =>
      hstar hslashed (congrArg some heq)
    rw [uncommented_cons_iff hq, eachOutside_cons_of_plain hplain hq,
      ← ih fun heq => hc (of_decide_eq_true heq)]
    refine and_congr_left' (forall_congr' fun heq => ?_)
    subst heq
    rw [ne_eq, h.head?_eq_star_iff (by decide), or_iff_right (hc rfl), not_exists]

theorem Stripping.uncommented_iff_opensNone (h : Stripping last s t)
    (hstar : slashed = true → t.head? ≠ some '*') :
    Uncommented t ↔ EachOutside OpensNone (.outside slashed) t := by
  -- behind a character that is left, no star opens a comment, or the text is none of the two
  have hcons : ∀ {slashed : Bool} {c : Char} {u : Text}, isQuote c = false →
      (slashed = true → c ≠ '*') →
      ((decide (c = '/') = true → u.head? ≠ some '*') →
        (Uncommented u ↔ EachOutside OpensNone (.outside (c = '/')) u)) →
      (Uncommented (c :: u) ↔ EachOutside OpensNone (.outside slashed) (c :: u)) := by
    intro slashed c u hq hc ih
    rw [uncommented_cons_iff hq, eachOutside_cons_of_plain hc hq]
    exact and_congr_right fun hopens => ih fun heq => hopens (of_decide_eq_true heq)
  induction h generalizing slashed with
  | nil last => exact iff_of_true .nil (eachOutside_nil _ _)
  | space _ _ _ ih =>
    exact hcons (by decide) (fun _ => by decide) fun _ => ih Bool.false_ne_true.elim
  | comment _ _ _ ih => exact ih hstar
  | literal hq hliteral _ ih =>
    have hbody := literal_of_takeLiteral hliteral
    rw [uncommented_literal_iff hq hbody, eachOutside_literal hq hbody]
    have hnone := opensNone_of_ne (ne_mark_of_isQuote hq).2
    exact (ih Bool.false_ne_true.elim).trans (and_iff_right (hnone _)).symm
  | cons hc hq _ ih =>
    exact hcons hq (fun hslashed heq => hstar hslashed (congrArg some heq)) fun hopens => ih hopens

/-- The text that is left of a source has no `/*` outside literals, and it is what is left of
itself, unless a slash of the source meets a star across comments. -/
theorem stripComments_residue (h : stripComments s = .ok t) :
    (EachOutside OpensNone Zone.start t ↔ EachOutside JoinsNone Zone.start s) ∧
      (stripComments t = .ok t ↔ EachOutside JoinsNone Zone.start s) := by
  have hread := stripping_of_stripComments h
  have hjoins : Uncommented t ↔ EachOutside JoinsNone Zone.start s :=
    hread.uncommented_iff_joinsNone Bool.false_ne_true.elim
  have hopens : Uncommented t ↔ EachOutside OpensNone Zone.start t :=
    hread.uncommented_iff_opensNone Bool.false_ne_true.elim
  exact ⟨hopens.symm.trans hjoins, stripComments_eq_self_iff.trans hjoins⟩

/-- From a source with a comment between names, and marks in a literal, no comment is left. -/
theorem stripComments_residue_names :
    stripComments "a/* b */c/**/ \"/*\"/d".toList = .ok "a c \"/*\"/d".toList ∧
      EachOutside JoinsNone Zone.start "a/* b */c/**/ \"/*\"/d".toList ∧
      EachOutside OpensNone Zone.start "a c \"/*\"/d".toList := by
  have hread : stripComments "a/* b */c/**/ \"/*\"/d".toList = .ok "a c \"/*\"/d".toList := by
    decide +kernel
  have hagain : stripComments "a c \"/*\"/d".toList = .ok "a c \"/*\"/d".toList := by
    decide +kernel
  obtain ⟨hopens, hself⟩ := stripComments_residue hread
  exact ⟨hread, hself.1 hagain, hopens.2 (hself.1 hagain)⟩

/-- A slash and a star with a comment between them are left as the mark of another comment, which is
removed when the text is read again. -/
theorem stripComments_joins_marks :
    stripComments "b://**/*c*/".toList = .ok "b:/*c*/".toList ∧
      ¬EachOutside OpensNone Zone.start "b:/*c*/".toList ∧
      stripComments "b:/*c*/".toList = .ok "b:".toList := by
  refine ⟨by decide +kernel, fun h => ?_, by decide +kernel⟩
  exact h "b:".toList '/' "*c*/".toList false rfl rfl rfl rfl

end Css

end PrettyPayload
