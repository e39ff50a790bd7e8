import PrettyPayload.Format.Css
import PrettyPayload.Proofs.Css.Returnless

/-!
# Formatted stylesheets

Formatting keeps the stylesheet of a payload, and a formatted payload is formatted already, as long
as the texts of the stylesheet are closed and none of its selectors starts like a mark of an HTML
comment. Without that the separators of the written form may end up inside a text, behind a
parenthesis that stays open or a backslash that the end of a value is trimmed down to.
-/

namespace PrettyPayload

namespace Format

open Css

variable {options : Options} {t : Text} {sheet : Stylesheet}

theorem withoutReturns_withLineEndings (options : Options) (h : '\r' ∉ t) :
    Text.withoutReturns (withLineEndings options t) = t := by
  have hnewline : Text.withoutReturns options.newline = ['\n'] := by
    unfold Options.newline
    cases options.lineEnding <;> rfl
  unfold withLineEndings
  induction t with
  | nil => rfl
  | cons c t ih =>
    rw [List.mem_cons, not_or] at h
    by_cases hc : c = '\n'
    · rw [hc, Text.replaceChar_cons_self, Text.withoutReturns, List.filter_append,
        ← Text.withoutReturns, ← Text.withoutReturns, hnewline, ih h.2]
      rfl
    · rw [Text.replaceChar_cons_of_ne _ hc, Text.withoutReturns, List.filter_cons_of_pos,
        ← Text.withoutReturns, ih h.2]
      simpa using Ne.symm h.1

theorem css_eq_ok_of_parseStylesheet (options : Options)
    (h : parseStylesheet (Text.withoutReturns t) = .ok sheet) :
    css options t = ⟨[], .ok (withLineEndings options (sheet.pretty options.indent))⟩ := by
  rw [css, h]

theorem not_mem_pretty {indent s : Text} (hi : '\r' ∉ indent) (hs : '\r' ∉ s)
    (h : parseStylesheet s = .ok sheet) : '\r' ∉ sheet.pretty indent :=
  sheet.not_mem_pretty (by decide) (by decide) hi hs h

/-- A stylesheet or list of declarations that was read is read again from what is written of it, and
a formatted stylesheet is formatted to itself, if the texts are closed. -/
theorem css_keeps_closed {indent : Text} (hi : ∀ c ∈ indent, c = ' ' ∨ c = '\t') :
    (∀ s sheet, parseStylesheet s = .ok sheet → Item.AllFaithful true sheet.rules →
      parseStylesheet (sheet.pretty indent) = .ok sheet) ∧
    (∀ options s sheet, options.indent = indent →
      parseStylesheet (Text.withoutReturns s) = .ok sheet → Item.AllFaithful true sheet.rules →
      ∃ o, css options s = ⟨[], .ok o⟩ ∧ css options o = ⟨[], .ok o⟩) ∧
    ∀ s ds, parseDeclarations s = .ok ds → (∀ d ∈ ds, d.FaithfulInLine) →
      parseDeclarations (compact ds) = .ok ds := by
  have hblank : ∀ c ∈ indent, Text.isAsciiBlank c = true := by
    intro c hc
    rcases hi c hc with rfl | rfl <;> decide
  have hreturn : '\r' ∉ indent := fun hc => (hi '\r' hc).elim (by decide) (by decide)
  refine ⟨fun s sheet h hsheet => parseStylesheet_pretty_of_parse hblank h hsheet, ?_,
    fun s ds h hds => parseDeclarations_compact_of_parse h hds⟩
  rintro options s sheet rfl h hsheet
  refine ⟨_, css_eq_ok_of_parseStylesheet options h, css_eq_ok_of_parseStylesheet options ?_⟩
  have hs : '\r' ∉ Text.withoutReturns s := by simp [Text.withoutReturns]
  rw [withoutReturns_withLineEndings options (not_mem_pretty hreturn hs h)]
  exact parseStylesheet_pretty_of_parse hblank h hsheet

/-- A stylesheet with escaped marks, comments, separators in parentheses and in a literal, and a
bracket that closes nothing. -/
def escapedPayload : Text :=
  ("a\\,b , c/**/d:is( e,f)\x7bg:h( ;\\) ) /*i*/;j :k\\ l!IMPORTANT ;@media m\x7bn:'\x7d'\x7d;" ++
    "o:p]\x7d@import q").toList

def escapedSheet : Stylesheet where
  rules :=
    [.block (.style ["a\\,b".toList, "c d:is( e,f)".toList])
        [.declaration ⟨['g'], "h( ;\\) )".toList, false⟩,
          .declaration ⟨['j'], "k\\ l".toList, true⟩,
          .block (.atRule "media".toList ['m']) [.declaration ⟨['n'], "'\x7d'".toList, false⟩],
          .declaration ⟨['o'], "p]".toList, false⟩],
      .statement "import".toList ['q']]
  all_isRule := by simp

theorem allFaithful_escapedSheet : Item.AllFaithful true escapedSheet.rules := by
  have hselectors : Head.Faithful true (.style ["a\\,b".toList, "c d:is( e,f)".toList]) :=
    ⟨by decide +kernel, by decide +kernel⟩
  have hg : Declaration.Faithful ⟨['g'], "h( ;\\) )".toList, false⟩ :=
    ⟨by decide +kernel, by decide +kernel⟩
  have hj : Declaration.Faithful ⟨['j'], "k\\ l".toList, true⟩ :=
    ⟨by decide +kernel, by decide +kernel⟩
  have hn : Declaration.Faithful ⟨['n'], "'\x7d'".toList, false⟩ :=
    ⟨by decide +kernel, by decide +kernel⟩
  have ho : Declaration.Faithful ⟨['o'], "p]".toList, false⟩ :=
    ⟨by decide +kernel, by decide +kernel⟩
  have hmedia : Head.Faithful false (.atRule "media".toList ['m']) :=
    show Closed ['m'] by decide +kernel
  have himport : Item.Faithful true (.statement "import".toList ['q']) :=
    show Closed ['q'] by decide +kernel
  exact ⟨⟨hselectors, hg, hj, ⟨hmedia, hn, trivial⟩, ho, trivial⟩, himport, trivial⟩

/-- The sample is read again from its written form and formatted to itself, and a declaration with a
brace that nothing opens is read again from one line. -/
theorem css_keeps_escapedSheet :
    (parseStylesheet escapedPayload = .ok escapedSheet ∧
      parseStylesheet (escapedSheet.pretty ['\t']) = .ok escapedSheet) ∧
    (∃ o, css ⟨['\t'], .crlf, true⟩ escapedPayload = ⟨[], .ok o⟩ ∧
      css ⟨['\t'], .crlf, true⟩ o = ⟨[], .ok o⟩) ∧
    parseDeclarations (compact [⟨['j'], "k\\ l\x7d".toList, true⟩]) =
      .ok [⟨['j'], "k\\ l\x7d".toList, true⟩] := by
  have hread : parseStylesheet escapedPayload = .ok escapedSheet := by decide +kernel
  have hds : parseDeclarations "j :k\\ l\x7d!IMPORTANT ;".toList =
      .ok [⟨['j'], "k\\ l\x7d".toList, true⟩] := by decide +kernel
  have hfaithful : ∀ d ∈ [(⟨['j'], "k\\ l\x7d".toList, true⟩ : Declaration)], d.FaithfulInLine :=
    List.forall_mem_singleton.2 ⟨by decide +kernel, by decide +kernel⟩
  have hindent : ∀ c ∈ ['\t'], c = ' ' ∨ c = '\t' := by simp
  have hkeeps := css_keeps_closed hindent
  exact ⟨⟨hread, hkeeps.1 _ _ hread allFaithful_escapedSheet⟩,
    hkeeps.2.1 _ _ _ rfl hread allFaithful_escapedSheet, hkeeps.2.2 _ _ hds hfaithful⟩

def openSheet : Stylesheet where
  rules := [.block (.style [['a']]) [.declaration ⟨['b'], "c(".toList, false⟩]]
  all_isRule := by simp

/-- A stylesheet with a value that ends in the backslash of an escaped space. -/
def cutSheet : Stylesheet where
  rules :=
    [.block (.style [['a']])
      [.declaration ⟨['b'], "c\\".toList, false⟩, .declaration ⟨['d'], ['e'], false⟩]]
  all_isRule := by simp

/-- A parenthesis that stays open takes the semicolon that is written behind it into the value, and
so does the backslash that is left of an escaped space at the end of a value. -/
theorem css_loses_open_texts :
    (parseStylesheet "a\x7bb:c(\x7d".toList = .ok openSheet ∧
      parseStylesheet (openSheet.pretty ['\t']) ≠ .ok openSheet) ∧
    (∃ o, css ⟨['\t'], .lf, true⟩ "a\x7bb:c\\ ;d:e\x7d".toList = ⟨[], .ok o⟩ ∧
      css ⟨['\t'], .lf, true⟩ o ≠ ⟨[], .ok o⟩) ∧
    ∃ ds, parseDeclarations "b:c\\ ;d:e".toList = .ok ds ∧
      parseDeclarations (compact ds) ≠ .ok ds := by
  have hread : parseStylesheet "a\x7bb:c\\ ;d:e\x7d".toList = .ok cutSheet := by decide +kernel
  have hagain : (css ⟨['\t'], .lf, true⟩
      (withLineEndings ⟨['\t'], .lf, true⟩ (cutSheet.pretty ['\t']))).result.toOption ≠
        some (withLineEndings ⟨['\t'], .lf, true⟩ (cutSheet.pretty ['\t'])) := by decide +kernel
  refine ⟨⟨by decide +kernel, by decide +kernel⟩,
    ⟨_, css_eq_ok_of_parseStylesheet _ hread, fun h => hagain (by rw [h]; rfl)⟩,
    [⟨['b'], "c\\".toList, false⟩, ⟨['d'], ['e'], false⟩], by decide +kernel, by decide +kernel⟩

end Format

end PrettyPayload
