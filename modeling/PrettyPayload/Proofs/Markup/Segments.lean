import PrettyPayload.Markup.Layout
import PrettyPayload.Proofs.Text.Join
import PrettyPayload.Proofs.Text.Split
import PrettyPayload.Proofs.Text.Trim

/-!
# Segments of character data

The segments of a text are its trimmed lines without the empty ones. They stay the same when the
lines are indented anew and when lines of white space are put around them.
-/

namespace PrettyPayload

namespace Markup

variable {s t line : Text} {c : Char}

/-- A segment is a line without white space at its ends. -/
def IsSegment (line : Text) : Prop :=
  line ≠ [] ∧ Text.trim Text.isAsciiBlank line = line ∧ '\n' ∉ line

theorem isSegment_of_mem (h : line ∈ segments t) : IsSegment line := by
  obtain ⟨hmem, hne⟩ := List.mem_filter.1 h
  obtain ⟨part, hpart, rfl⟩ := List.mem_map.1 hmem
  refine ⟨by simpa using hne, Text.trim_trim _ _, ?_⟩
  intro hfeed
  exact (Text.mem_of_mem_splitOn hpart (Text.mem_of_mem_trim hfeed)).2 rfl

theorem mem_of_mem_segments (h : line ∈ segments t) (hc : c ∈ line) : c ∈ t := by
  obtain ⟨part, hpart, rfl⟩ := List.mem_map.1 (List.mem_filter.1 h).1
  exact (Text.mem_of_mem_splitOn hpart (Text.mem_of_mem_trim hc)).1

theorem segments_append_lineFeed (s t : Text) :
    segments (s ++ '\n' :: t) = segments s ++ segments t := by
  rw [segments, Text.splitOn_append_cons, List.map_append, List.filter_append, segments, segments]

theorem segments_eq_nil_iff : segments t = [] ↔ t.all Text.isAsciiBlank = true := by
  rw [segments, List.filter_eq_nil_iff, List.forall_mem_map, List.all_eq_true]
  constructor
  · intro h c hc
    by_cases hfeed : c = '\n'
    · subst hfeed
      decide
    · obtain ⟨part, hpart, hmem⟩ := Text.exists_mem_splitOn hc hfeed
      have hnil : Text.trim Text.isAsciiBlank part = [] := by simpa using h part hpart
      exact Text.trim_eq_nil_iff.1 hnil c hmem
  · intro h part hpart
    have hnil := Text.trim_eq_nil_iff.2 fun c hc => h c (Text.mem_of_mem_splitOn hpart hc).1
    simp [hnil]

theorem segments_of_isSegment (h : IsSegment line) : segments line = [line] := by
  rw [segments, Text.splitOn_of_not_mem h.2.2, List.map_singleton, h.2.1]
  simpa using h.1

/-- White space in front of a text is in none of its segments. -/
theorem segments_append_of_blanks (hs : ∀ c ∈ s, Text.isAsciiBlank c = true) (t : Text) :
    segments (s ++ t) = segments t := by
  induction s with
  | nil => rfl
  | cons c s ih =>
    rw [List.forall_mem_cons] at hs
    rw [List.cons_append, ← ih hs.2]
    by_cases hfeed : c = '\n'
    · subst hfeed
      exact segments_append_lineFeed [] (s ++ t)
    · rw [segments, Text.splitOn, if_neg hfeed, segments]
      cases hsplit : Text.splitOn '\n' (s ++ t) with
      | nil => exact absurd hsplit (Text.splitOn_ne_nil _ _)
      | cons part parts =>
        have htrim := Text.trim_append_of_all (List.forall_mem_singleton.2 hs.1) part
        rw [List.singleton_append] at htrim
        simp only [List.map_cons, htrim]

/-- A segment is kept apart from what follows it by white space with a line feed in it. -/
theorem segments_append_of_lineFeed (h : IsSegment line)
    (hs : ∀ c ∈ s, Text.isAsciiBlank c = true) (hfeed : '\n' ∈ s) (t : Text) :
    segments (line ++ (s ++ t)) = line :: segments t := by
  obtain ⟨front, back, rfl, hfront⟩ := List.eq_append_cons_of_mem hfeed
  rw [List.forall_mem_append, List.forall_mem_cons] at hs
  obtain ⟨hblank, -, hback⟩ := hs
  have htrim : Text.trim Text.isAsciiBlank (line ++ front) = line := by
    rw [← Text.trim_trimEnd, Text.trimEnd_append_of_all hblank, Text.trim_trimEnd, h.2.1]
  have hline : segments (line ++ front) = [line] := by
    rw [segments, Text.splitOn_of_not_mem (List.not_mem_append h.2.2 hfront), List.map_singleton,
      htrim]
    simpa using h.1
  have hsplit : line ++ (front ++ '\n' :: back ++ t) = line ++ front ++ '\n' :: (back ++ t) := by
    simp
  rw [hsplit, segments_append_lineFeed, hline, segments_append_of_blanks hback,
    List.singleton_append]

/-- Lines that each come behind a line feed and an indent are the segments of what they make up. -/
theorem segments_flatMap {lines : List Text} (hs : ∀ c ∈ s, Text.isAsciiBlank c = true)
    (h : ∀ line ∈ lines, IsSegment line) (t : Text) :
    segments (t ++ lines.flatMap fun line => '\n' :: (s ++ line)) = segments t ++ lines := by
  induction lines generalizing t with
  | nil => simp
  | cons line lines ih =>
    rw [List.forall_mem_cons] at h
    rw [List.flatMap_cons, ← List.append_assoc, ih h.2, segments_append_lineFeed,
      segments_append_of_blanks hs, segments_of_isSegment h.1, List.append_assoc,
      List.singleton_append]

theorem segments_joinWith {lines : List Text} (h : ∀ line ∈ lines, IsSegment line) :
    segments (Text.joinWith ['\n'] lines) = lines := by
  cases lines with
  | nil => rfl
  | cons line lines =>
    rw [List.forall_mem_cons] at h
    rw [Text.joinWith_cons]
    have hlines := segments_flatMap (s := []) (List.forall_mem_nil _) h.2 line
    rw [segments_of_isSegment h.1] at hlines
    exact hlines

end Markup

end PrettyPayload
