import PrettyPayload.Proofs.Markup.Spread
import PrettyPayload.Proofs.Text.Words

/-!
# Text that was laid out

A text is split into lines at line feeds alone, but its lines are trimmed of every blank, so
carriage returns, form feeds and tabs around a line do no harm. What the layout of a text puts
around its segments is therefore gone when the text is read again, whatever the line ending and
whatever blanks the indent is made of, and no word of the text is lost or changed.
-/

namespace PrettyPayload

namespace Markup

variable {options : Options}

/-- White space that a line ending and an indent make up. -/
theorem blank_of_lineGap (hindent : ∀ c ∈ options.indent, Text.isAsciiBlank c = true)
    (depth : Nat) :
    ∀ c ∈ lineGap options depth, Text.isAsciiBlank c = true := by
  have hnewline : ∀ c ∈ options.newline, Text.isAsciiBlank c = true := by
    rw [Options.newline]
    cases options.lineEnding <;> exact Text.forall_mem_of_all (by decide)
  exact List.forall_mem_append.2 ⟨hnewline, Text.forall_mem_times depth hindent⟩

theorem lineFeed_mem_lineGap (options : Options) (depth : Nat) : '\n' ∈ lineGap options depth := by
  refine List.mem_append_left _ ?_
  rw [Options.newline]
  cases options.lineEnding <;> decide

/-- Segments on lines of their own are told apart again, whatever blanks the last line is made
of. -/
theorem segments_flatMap_lineGap (hindent : ∀ c ∈ options.indent, Text.isAsciiBlank c = true)
    (depth : Nat) {lines : List Text} (hlines : ∀ line ∈ lines, IsSegment line) {last : Text}
    (hlast : ∀ c ∈ last, Text.isAsciiBlank c = true) (hfeed : '\n' ∈ last) :
    segments (lines.flatMap (lineGap options depth ++ ·) ++ last) = lines := by
  induction lines with
  | nil => exact segments_eq_nil_iff.2 (List.all_eq_true.2 hlast)
  | cons line lines ih =>
    rw [List.forall_mem_cons] at hlines
    have hgap := blank_of_lineGap hindent depth
    rw [List.flatMap_cons, List.append_assoc, List.append_assoc, segments_append_of_blanks hgap]
    cases lines with
    | nil =>
      have hnil := segments_append_of_lineFeed hlines.1 hlast hfeed []
      rw [List.append_nil] at hnil
      exact hnil
    | cons next lines =>
      have hrest := ih hlines.2
      rw [List.flatMap_cons, List.append_assoc, List.append_assoc,
        segments_append_of_blanks hgap] at hrest
      rw [List.flatMap_cons, List.append_assoc, List.append_assoc,
        segments_append_of_lineFeed hlines.1 hgap (lineFeed_mem_lineGap options depth), hrest]

/-- The words of a text are those of its segments, whatever else keeps words apart. -/
theorem flatMap_wordsBy_segments {p : Char → Bool}
    (h : ∀ c, Text.isAsciiBlank c = true → p c = true) (t : Text) :
    (segments t).flatMap (Text.wordsBy p) = Text.wordsBy p t := by
  have hempty : ∀ lines : List Text, (lines.filter (· ≠ [])).flatMap (Text.wordsBy p) =
      lines.flatMap (Text.wordsBy p) := by
    intro lines
    induction lines with
    | nil => rfl
    | cons line lines ih =>
      by_cases hnil : line = []
      · rw [hnil, List.filter_cons_of_neg (by simp), ih]
        rfl
      · rw [List.filter_cons_of_pos (by simpa using hnil), List.flatMap_cons, ih, List.flatMap_cons]
  conv => rhs; rw [← Text.joinWith_splitOn '\n' t]
  rw [segments, hempty, List.flatMap_map, Text.wordsBy_joinWith (h '\n' (by decide))]
  simp only [Text.wordsBy_trim h]

theorem flatMap_words_segments (t : Text) :
    (segments t).flatMap (Text.wordsBy Text.isAsciiBlank) = Text.wordsBy Text.isAsciiBlank t :=
  flatMap_wordsBy_segments (fun _ h => h) t

/-- A text that is laid out at any depth, with whatever indent of blanks and line ending, has the
segments that it had, and the words of a text are those of its segments in order. The text is blank
exactly if it has no segment. -/
theorem segments_laidText (hindent : ∀ c ∈ options.indent, Text.isAsciiBlank c = true)
    (depth depth' : Nat) (t : Text) :
    segments (spreadText options depth t ++ lineGap options depth') = segments t ∧
      Text.wordsBy Text.isAsciiBlank t =
        (segments t).flatMap (Text.wordsBy Text.isAsciiBlank) ∧
      (isBlankNode (.text t) = true ↔ segments t = []) :=
  ⟨segments_flatMap_lineGap hindent depth (fun _ => isSegment_of_mem)
      (blank_of_lineGap hindent depth') (lineFeed_mem_lineGap options depth'),
    (flatMap_words_segments t).symm, segments_eq_nil_iff.symm⟩

/-- Three lines with returns, tabs and form feeds in and around them, the middle one blank. -/
def raggedText : Text := "\r a\tb \x0c\r\n\x0c \r\n\tc\rd\t".toList

/-- An indent of a space, a tab, a form feed and a line feed, and lines that end in two
characters. -/
def raggedOptions : Options := ⟨" \t\x0c\n".toList, .crlf, true⟩

/-- The two lines of the sample that are not blank are found again at another depth. -/
theorem segments_laidText_raggedText :
    (∀ c ∈ raggedOptions.indent, Text.isAsciiBlank c = true) ∧
      segments raggedText = ["a\tb".toList, "c\rd".toList] ∧
      segments (spreadText raggedOptions 2 raggedText ++ lineGap raggedOptions 1) =
        ["a\tb".toList, "c\rd".toList] ∧
      Text.wordsBy Text.isAsciiBlank raggedText = [['a'], ['b'], ['c'], ['d']] ∧
      ¬isBlankNode (.text raggedText) = true := by
  have hindent : ∀ c ∈ raggedOptions.indent, Text.isAsciiBlank c = true :=
    Text.forall_mem_of_all (by decide)
  have hsegments : segments raggedText = ["a\tb".toList, "c\rd".toList] := by decide
  obtain ⟨hagain, hwords, hblank⟩ := segments_laidText hindent 2 1 raggedText
  refine ⟨hindent, hsegments, hagain.trans hsegments, ?_, ?_⟩
  · rw [hwords, hsegments]
    decide
  · rw [hblank, hsegments]
    exact List.cons_ne_nil _ _

end Markup

end PrettyPayload
