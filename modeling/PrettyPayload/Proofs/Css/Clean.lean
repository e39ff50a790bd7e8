import PrettyPayload.Css.Reader
import PrettyPayload.Proofs.Text.Trim

/-!
# Clean texts

A selector, prelude, property or value is clean if every scan of a stylesheet passes over it
without a trace: its literals are closed, what it opens it closes, its white space is collapsed, and
no mark of the stylesheet stands in it where the mark would count. `cleanFrom` carries the state of
the scan and the character before it along, so that cleanness can be checked and computed piece by
piece. The parameter `nested` holds the marks that may occur only inside parentheses, brackets and
literals; braces may occur only inside literals. In a list of declarations on one line braces mean
nothing; there a text needs to be no more than neat, that is, clean but for braces.
-/

namespace PrettyPayload

namespace Css

/-! ## Names and blanks -/

def blankPoints : List Nat :=
  [9, 10, 11, 12, 13, 0x20, 0x85, 0xA0, 0x1680, 0x2000, 0x2001, 0x2002, 0x2003, 0x2004, 0x2005,
    0x2006, 0x2007, 0x2008, 0x2009, 0x200A, 0x2028, 0x2029, 0x202F, 0x205F, 0x3000]

theorem toNat_mem_blankPoints {c : Char} (h : Text.isBlank c = true) :
    c.toNat ∈ blankPoints := by
  have hv : c.toNat = c.val.toNat := rfl
  simp only [Text.isBlank, Bool.or_eq_true, Bool.and_eq_true, decide_eq_true_eq,
    UInt32.le_iff_toNat_le, ← UInt32.toNat_inj, UInt32.reduceToNat, ← hv] at h
  simp only [blankPoints, List.mem_cons, List.not_mem_nil, or_false]
  omega

theorem isNameChar_of_mem_blankPoints : ∀ n ∈ blankPoints, isNameChar (Char.ofNat n) = false := by
  decide +kernel

theorem isBlank_of_isNameChar {c : Char} (h : isNameChar c = true) : Text.isBlank c = false := by
  cases hb : Text.isBlank c with
  | false => rfl
  | true =>
    have hn := isNameChar_of_mem_blankPoints c.toNat (toNat_mem_blankPoints hb)
    rw [Char.ofNat_toNat, h] at hn
    cases hn

theorem not_isNameChar_of_isBlank {c : Char} (h : Text.isBlank c = true) :
    isNameChar c = false := by
  rw [Bool.eq_false_iff]
  intro hc
  rw [isBlank_of_isNameChar hc] at h
  cases h

theorem isBlank_of_isAsciiBlank {c : Char} (h : Text.isAsciiBlank c = true) :
    Text.isBlank c = true := by
  simp only [Text.isAsciiBlank, Bool.or_eq_true, decide_eq_true_eq] at h
  rcases h with (((rfl | rfl) | rfl) | rfl) | rfl <;> decide

/-! ## Cleanness -/

/-- The marks that a prelude or value may hold only where they do not count. -/
def endsStatement (c : Char) : Bool := c = ';'

def endsSelector (c : Char) : Bool := c = ';' || c = ','

def endsProperty (c : Char) : Bool := c = ';' || c = ':'

/-- Whether a clean text may hold `c` where the scan of it stands at `k`, right behind `last`. -/
def Nesting.admits (nested : Char → Bool) (k : Nesting) (last : Option Char) (c : Char) : Bool :=
  if k.quoting.quote.isSome then k.quoting.escaped || c ≠ '\n'
  else
    c ≠ '\\' && c ≠ '{' && c ≠ '}' && !(last = some '/' && c = '*') &&
      (!Text.isBlank c || c = ' ' && last.any (· ≠ ' ')) &&
      (!nested c || k.parens ≠ 0 || k.brackets ≠ 0)

/-- Whether a clean text may go on with `t` where the scan of it stands at `k`, right behind
`last`, and end there. -/
def cleanFrom (nested : Char → Bool) : Nesting → Option Char → Text → Bool
  | k, last, [] => k = Nesting.start && last ≠ some ' '
  | k, last, c :: t => k.admits nested last c && cleanFrom nested (k.step c) (some c) t

/-- Whether a text is clean. Backslashes occur only inside literals, which are closed and have no
unescaped line feed. Outside of them there are no braces and no comments, white space is single
spaces between other characters, the marks in `nested` stand inside parentheses or brackets, and no
parenthesis or bracket stays open. -/
def isClean (nested : Char → Bool) (t : Text) : Bool := cleanFrom nested Nesting.start none t

example : isClean endsStatement "url(a;b) \"\\\" \x7b\" c".toList = true := by decide

@[simp] theorem isClean_nil (nested : Char → Bool) : isClean nested [] = true := rfl

/-! ## Neat texts -/

/-- Whether a neat text may hold `c` where the scan of it stands at `k`, right behind `last`. -/
def Nesting.tolerates (nested : Char → Bool) (k : Nesting) (last : Option Char) (c : Char) : Bool :=
  c = '{' || c = '}' || k.admits nested last c

/-- Whether a neat text may go on with `t` where the scan of it stands at `k`, right behind `last`,
and end there. -/
def neatFrom (nested : Char → Bool) : Nesting → Option Char → Text → Bool
  | k, last, [] => k = Nesting.start && last ≠ some ' '
  | k, last, c :: t => k.tolerates nested last c && neatFrom nested (k.step c) (some c) t

/-- Whether a text is neat: clean but for braces, which may stand anywhere. A list of declarations
on one line is not cut at braces. -/
def isNeat (nested : Char → Bool) (t : Text) : Bool := neatFrom nested Nesting.start none t

section

variable {nested : Char → Bool} {k : Nesting} {last : Option Char} {c : Char} {t : Text}

theorem cleanFrom_cons :
    cleanFrom nested k last (c :: t) = true ↔
      k.admits nested last c = true ∧ cleanFrom nested (k.step c) (some c) t = true := by
  rw [cleanFrom, Bool.and_eq_true]

theorem neatFrom_cons :
    neatFrom nested k last (c :: t) = true ↔
      k.tolerates nested last c = true ∧ neatFrom nested (k.step c) (some c) t = true := by
  rw [neatFrom, Bool.and_eq_true]

theorem eq_start_of_neatFrom_nil (h : neatFrom nested k last [] = true) :
    k = Nesting.start ∧ last ≠ some ' ' := by
  simpa [neatFrom] using h

theorem tolerates_of_admits (h : k.admits nested last c = true) :
    k.tolerates nested last c = true := by
  rw [Nesting.tolerates, h, Bool.or_true]

theorem neatFrom_of_cleanFrom (h : cleanFrom nested k last t = true) :
    neatFrom nested k last t = true := by
  induction t generalizing k last with
  | nil => exact h
  | cons c t ih =>
    obtain ⟨hc, ht⟩ := cleanFrom_cons.1 h
    exact neatFrom_cons.2 ⟨tolerates_of_admits hc, ih ht⟩

theorem ne_brace_of_admits (hk : k.quoting = Quoting.start) (h : k.admits nested last c = true) :
    c ≠ '{' ∧ c ≠ '}' := by
  simp only [Nesting.admits, hk, Quoting.start, Option.isSome_none, Bool.false_eq_true, if_false,
    Bool.and_eq_true, decide_eq_true_eq] at h
  exact ⟨h.1.1.1.1.2, h.1.1.1.2⟩

/-- Outside literals a neat text goes on with a character that is tolerated for itself. -/
theorem tolerates_of_quoting_eq_start (hk : k.quoting = Quoting.start)
    (h : k.tolerates nested last c = true) :
    c ≠ '\\' ∧ (last = some '/' → c ≠ '*') ∧
      (Text.isBlank c = true → c = ' ' ∧ last.any (· ≠ ' ') = true) ∧
      (nested c = true → c = '{' ∨ c = '}' ∨ k.parens ≠ 0 ∨ k.brackets ≠ 0) := by
  simp only [Nesting.tolerates, Bool.or_eq_true, decide_eq_true_eq, or_assoc] at h
  rcases h with rfl | rfl | h
  · exact ⟨by decide, fun _ => by decide, fun hb => absurd hb (by decide), fun _ => Or.inl rfl⟩
  · exact ⟨by decide, fun _ => by decide, fun hb => absurd hb (by decide),
      fun _ => Or.inr (Or.inl rfl)⟩
  · obtain ⟨q, p, b⟩ := k
    obtain rfl : q = Quoting.start := hk
    cases hb : Text.isBlank c <;> cases hn : nested c <;>
      simp_all [Nesting.admits, Quoting.start, Decidable.or_iff_not_imp_left]

/-! ## Inside literals and outside -/

/-- A scan that has met no backslash outside a literal is in a literal or behind nothing. -/
def Quoting.Regular (k : Quoting) : Prop :=
  k = Quoting.start ∨ ∃ q e, k = ⟨some q, e⟩ ∧ isQuote q = true

theorem Quoting.regular_start : Quoting.start.Regular := Or.inl rfl

@[simp] theorem Nesting.quoting_step (k : Nesting) (c : Char) :
    (k.step c).quoting = k.quoting.step c := by
  unfold Nesting.step
  dsimp only
  split
  · split <;> rfl
  · rfl

/-- The scan of a neat text stays regular. -/
theorem Quoting.Regular.step (hk : k.quoting.Regular) (h : k.tolerates nested last c = true) :
    (k.step c).quoting.Regular := by
  rw [Nesting.quoting_step]
  rcases hk with hk | ⟨q, e, hk, hquote⟩
  · have hc := (tolerates_of_quoting_eq_start hk h).1
    rw [hk]
    by_cases hi : isQuote c = true
    · exact Or.inr ⟨c, false, by simp [Quoting.step, Quoting.start, hc, hi], hi⟩
    · exact Or.inl (by simp [Quoting.step, Quoting.start, hc, hi])
  · rw [hk]
    cases e with
    | true => exact Or.inr ⟨q, false, by simp [Quoting.step], hquote⟩
    | false =>
      by_cases hb : c = '\\'
      · exact Or.inr ⟨q, true, by simp [Quoting.step, hb], hquote⟩
      · by_cases hc : c = q
        · subst hc
          exact Or.inl (by simp [Quoting.step, hb])
        · exact Or.inr ⟨q, false, by simp [Quoting.step, hb, hc], hquote⟩

end

end Css

end PrettyPayload
