import PrettyPayload.Proofs.Text.Break
import PrettyPayload.Proofs.Text.Join
import PrettyPayload.Proofs.Text.Split
import PrettyPayload.Proofs.Text.Trim

/-!
# Padded texts

`padLines` moves the lines of a text to the right, all but the first: it puts a padding behind every
line feed. The start and the end of the text stay, and trimming goes through the padding. Where the
text was joined from lines, `lines` takes it apart again, and the padding stands in front of each.
-/

namespace PrettyPayload

namespace Text

variable {padding s t : Text} {parts : List Text} {c d : Char}

/-! ## Padded texts -/

def padLines (padding t : Text) : Text := replaceChar '\n' ('\n' :: padding) t

@[simp] theorem padLines_nil : padLines padding [] = [] := rfl

@[simp] theorem padLines_append :
    padLines padding (s ++ t) = padLines padding s ++ padLines padding t :=
  replaceChar_append '\n' _ s t

theorem padLines_feed : padLines padding ('\n' :: t) = '\n' :: (padding ++ padLines padding t) :=
  replaceChar_cons_self '\n' _ t

theorem padLines_cons (h : c ≠ '\n') : padLines padding (c :: t) = c :: padLines padding t :=
  replaceChar_cons_of_ne _ h t

theorem padLines_eq_self (h : '\n' ∉ t) : padLines padding t = t := replaceChar_eq_self _ h

theorem head?_padLines : (padLines padding t).head? = t.head? := by
  cases t with
  | nil => rfl
  | cons c t =>
    by_cases hc : c = '\n'
    · rw [hc, padLines_feed, List.head?_cons, List.head?_cons]
    · rw [padLines_cons hc, List.head?_cons, List.head?_cons]

theorem padLines_eq_nil_iff : padLines padding t = [] ↔ t = [] := by
  rw [← List.head?_eq_none_iff, head?_padLines, List.head?_eq_none_iff]

/-- What a padded text starts with, the text starts with. -/
theorem exists_of_padLines_eq_cons (hc : c ≠ '\n') (h : padLines padding t = c :: s) :
    ∃ u, t = c :: u ∧ padLines padding u = s := by
  have hhead : t.head? = some c := by rw [← head?_padLines, h, List.head?_cons]
  obtain ⟨u, rfl⟩ := List.head?_eq_some_iff.1 hhead
  rw [padLines_cons hc] at h
  exact ⟨u, rfl, (List.cons.inj h).2⟩

theorem takeWhile_padLines {p : Char → Bool} (hp : p '\n' = false) :
    (padLines padding t).takeWhile p = t.takeWhile p := by
  induction t with
  | nil => rfl
  | cons c t ih =>
    by_cases hc : c = '\n'
    · have hnot : ¬p '\n' = true := Bool.eq_false_iff.1 hp
      rw [hc, padLines_feed, List.takeWhile_cons_of_neg hnot, List.takeWhile_cons_of_neg hnot]
    · rw [padLines_cons hc, List.takeWhile_cons, List.takeWhile_cons, ih]

theorem dropWhile_padLines {p : Char → Bool} (hp : p '\n' = false) :
    (padLines padding t).dropWhile p = padLines padding (t.dropWhile p) := by
  induction t with
  | nil => rfl
  | cons c t ih =>
    by_cases hc : c = '\n'
    · have hnot : ¬p '\n' = true := Bool.eq_false_iff.1 hp
      rw [hc, List.dropWhile_cons_of_neg hnot, padLines_feed, List.dropWhile_cons_of_neg hnot]
    · rw [padLines_cons hc, List.dropWhile_cons, List.dropWhile_cons, ih]
      split
      · rfl
      · rw [padLines_cons hc]

theorem getLast?_padLines (hc : c ≠ '\n') (h : t.getLast? = some c) :
    (padLines padding t).getLast? = some c := by
  obtain ⟨s, rfl⟩ := List.getLast?_eq_some_iff.1 h
  rw [padLines_append, padLines_cons hc, padLines_nil, List.getLast?_concat]

theorem isBlank_of_mem_padLines (hp : ∀ c ∈ padding, isBlank c = true)
    (h : ∀ c ∈ t, isBlank c = true) : ∀ c ∈ padLines padding t, isBlank c = true := by
  intro c hc
  rcases mem_replaceChar hc with hc | hc
  · rcases List.mem_cons.1 hc with rfl | hc
    · decide
    · exact hp c hc
  · exact h c hc

/-- Padding leaves the end of a text as it is, unless that is a line feed. -/
theorem isBlank_getLast_padLines (h : ∀ c, t.getLast? = some c → isBlank c = false) :
    ∀ c, (padLines padding t).getLast? = some c → isBlank c = false := by
  intro c hc
  cases hlast : t.getLast? with
  | none =>
    rw [List.getLast?_eq_none_iff.1 hlast] at hc
    cases hc
  | some d =>
    have hd := h d hlast
    have hne : d ≠ '\n' := by
      rintro rfl
      exact absurd hd (by decide)
    rw [getLast?_padLines hne hlast] at hc
    exact Option.some.inj hc ▸ hd

theorem prefix_of_prefix_padLines (hs : '\n' ∉ s) (h : s <+: padLines padding t) : s <+: t := by
  induction s generalizing t with
  | nil => exact List.nil_prefix
  | cons c s ih =>
    rw [List.mem_cons, not_or] at hs
    obtain ⟨u, hu⟩ := h
    obtain ⟨v, rfl, hv⟩ := exists_of_padLines_eq_cons (Ne.symm hs.1) hu.symm
    exact List.cons_prefix_cons.2 ⟨rfl, ih hs.2 ⟨u, hv.symm⟩⟩

/-- A mark that has no line feed and starts with no character of the padding is found in a padded
text if it is found in the text. -/
theorem infix_of_infix_padLines (hc : c ∉ '\n' :: padding) (hs : '\n' ∉ s)
    (h : c :: s <:+: padLines padding t) : c :: s <:+: t := by
  have hfeed : c ≠ '\n' := fun heq => hc (heq ▸ List.mem_cons_self)
  induction t with
  | nil => exact h
  | cons d t ih =>
    by_cases hd : d = '\n'
    · rw [hd, padLines_feed, ← List.cons_append] at h
      exact (ih (infix_of_infix_append hc h)).trans (List.suffix_cons d t).isInfix
    · rw [padLines_cons hd, List.infix_cons_iff] at h
      rcases h with hbegins | hwithin
      · have hboth := List.cons_prefix_cons.1 hbegins
        exact (List.cons_prefix_cons.2
          ⟨hboth.1, prefix_of_prefix_padLines hs hboth.2⟩).isInfix
      · exact (ih hwithin).trans (List.suffix_cons d t).isInfix

theorem trim_padLines (hp : ∀ c ∈ padding, isBlank c = true) :
    trim isBlank (padLines padding t) = padLines padding (trim isBlank t) := by
  obtain ⟨front, back, ht, hfront, hback⟩ := exists_eq_append_trim isBlank t
  have hkept : trim isBlank (padLines padding (trim isBlank t)) =
      padLines padding (trim isBlank t) := by
    refine trim_eq_self (fun c hc => ?_) (isBlank_getLast_padLines fun _ => getLast?_trimEnd)
    rw [head?_padLines] at hc
    exact head?_trim hc
  conv => lhs; rw [ht]
  rw [padLines_append, padLines_append, trim_append_of_all (isBlank_of_mem_padLines hp hfront),
    ← trim_trimEnd, trimEnd_append_of_all (isBlank_of_mem_padLines hp hback), trim_trimEnd, hkept]

/-! ## Padded texts from their ends -/

def padBack (padding t : Text) : Text := (padLines padding t.reverse).reverse

theorem reverse_padLines : (padLines padding t).reverse = padBack padding t.reverse := by
  rw [padBack, List.reverse_reverse]

theorem reverse_padBack : (padBack padding t).reverse = padLines padding t.reverse :=
  List.reverse_reverse _

@[simp] theorem padBack_nil : padBack padding [] = [] := rfl

theorem padBack_feed :
    padBack padding ('\n' :: t) = padding.reverse ++ '\n' :: padBack padding t := by
  rw [padBack, List.reverse_cons, padLines_append, padLines_feed, padLines_nil, padBack]
  simp

theorem padBack_cons (h : c ≠ '\n') : padBack padding (c :: t) = c :: padBack padding t := by
  rw [padBack, List.reverse_cons, padLines_append, padLines_cons h, padLines_nil, padBack]
  simp

theorem dropWhile_padBack (hp : ∀ c ∈ padding, isBlank c = true) :
    (padBack padding t).dropWhile isBlank = padBack padding (t.dropWhile isBlank) := by
  induction t with
  | nil => rfl
  | cons c t ih =>
    by_cases hc : c = '\n'
    · have hblank : ∀ c ∈ padding.reverse, isBlank c = true := fun c hc =>
        hp c (List.mem_reverse.1 hc)
      rw [hc, padBack_feed, List.dropWhile_append_of_pos hblank, List.dropWhile_cons_of_pos
        (by decide), List.dropWhile_cons_of_pos (by decide), ih]
    · rw [padBack_cons hc, List.dropWhile_cons, List.dropWhile_cons, ih]
      split
      · rfl
      · rw [padBack_cons hc]

/-- A prefix without blanks is found in a padded text if it is found in the text. -/
theorem dropPrefixIgnoringCase?_padBack {p : Text} (hp : ∀ c ∈ padding, c = ' ' ∨ c = '\t')
    (hmarks : ∀ a ∈ p, lowerChar a ∉ [' ', '\t', '\n']) :
    dropPrefixIgnoringCase? p (padBack padding t) =
      (dropPrefixIgnoringCase? p t).map (padBack padding) := by
  induction p generalizing t with
  | nil => rfl
  | cons a p ih =>
    rw [List.forall_mem_cons] at hmarks
    cases t with
    | nil => rfl
    | cons c t =>
      by_cases hc : c = '\n'
      · have hne : ∀ d, d ∈ [' ', '\t', '\n'] → lowerChar a ≠ lowerChar d := by
          intro d hd heq
          have hlower : ∀ d ∈ [' ', '\t', '\n'], lowerChar d = d := forall_mem_of_all (by decide)
          exact hmarks.1 (by rw [heq, hlower d hd]; exact hd)
        have hhead : ∀ d u, padBack padding ('\n' :: t) = d :: u → d ∈ [' ', '\t', '\n'] := by
          intro d u heq
          rw [padBack_feed] at heq
          cases hback : padding.reverse with
          | nil =>
            rw [hback, List.nil_append] at heq
            rw [← (List.cons.inj heq).1]
            decide
          | cons e v =>
            rw [hback, List.cons_append] at heq
            rw [← (List.cons.inj heq).1]
            have he : e ∈ padding := List.mem_reverse.1 (hback ▸ List.mem_cons_self)
            rcases hp e he with rfl | rfl <;> decide
        rw [hc, dropPrefixIgnoringCase?, if_neg (hne '\n' (by decide)), Option.map_none]
        cases hpad : padBack padding ('\n' :: t) with
        | nil => rfl
        | cons d u => rw [dropPrefixIgnoringCase?, if_neg (hne d (hhead d u hpad))]
      · rw [padBack_cons hc, dropPrefixIgnoringCase?, dropPrefixIgnoringCase?]
        split
        · exact ih hmarks.2
        · rfl

/-! ## Lines -/

theorem splitOn_joinWith (hne : parts ≠ []) (h : ∀ part ∈ parts, d ∉ part) :
    splitOn d (joinWith [d] parts) = parts := by
  induction parts with
  | nil => exact absurd rfl hne
  | cons part parts ih =>
    rw [List.forall_mem_cons] at h
    cases parts with
    | nil => rw [joinWith_singleton, splitOn_of_not_mem h.1]
    | cons next parts =>
      rw [joinWith_cons_cons, List.append_assoc, List.singleton_append, splitOn_append_cons,
        splitOn_of_not_mem h.1, ih (List.cons_ne_nil _ _) h.2]
      rfl

/-- A line that does not end in a blank, and is not empty. -/
def IsLine (line : Text) : Prop :=
  '\n' ∉ line ∧ ∃ c, line.getLast? = some c ∧ isBlank c = false

theorem isLine_concat (h : '\n' ∉ t) (hc : isBlank c = false) : IsLine (t ++ [c]) := by
  refine ⟨fun hm => ?_, c, List.getLast?_concat, hc⟩
  rcases List.mem_append.1 hm with hm | hm
  · exact h hm
  · rw [← List.mem_singleton.1 hm] at hc
    exact absurd hc (by decide)

theorem IsLine.ne_nil {line : Text} (h : IsLine line) : line ≠ [] := by
  obtain ⟨-, c, hc, -⟩ := h
  rintro rfl
  cases hc

theorem IsLine.dropReturn_eq {line : Text} (h : IsLine line) : lines.dropReturn line = line := by
  obtain ⟨-, c, hc, hblank⟩ := h
  rw [lines.dropReturn, if_neg]
  rw [hc]
  intro heq
  obtain rfl := Option.some.inj heq
  exact absurd hblank (by decide)

theorem lines_joinWith (h : ∀ line ∈ parts, IsLine line) :
    lines (joinWith ['\n'] parts) = parts := by
  rcases List.eq_nil_or_concat parts with rfl | ⟨front, last, rfl⟩
  · rfl
  · rw [List.concat_eq_append] at h ⊢
    have hlast := h last (List.mem_append_right front (List.mem_singleton_self last))
    have hsplit : splitOn '\n' (joinWith ['\n'] (front ++ [last])) = front ++ [last] :=
      splitOn_joinWith (by simp) fun line hline => (h line hline).1
    have hfront : front.map lines.dropReturn = front := by
      conv => rhs; rw [← List.map_id front]
      exact List.map_congr_left fun line hline =>
        (h line (List.mem_append_left [last] hline)).dropReturn_eq
    unfold lines
    simp only [hsplit, List.dropLast_concat, hfront, List.getLast?_concat]
    split
    next heq => cases heq
    next heq => exact absurd (Option.some.inj heq) hlast.ne_nil
    next heq => rw [Option.some.inj heq]

theorem joinWith_map_append (hne : parts ≠ []) (h : ∀ line ∈ parts, '\n' ∉ line) :
    joinWith ['\n'] (parts.map (padding ++ ·)) =
      padding ++ padLines padding (joinWith ['\n'] parts) := by
  induction parts with
  | nil => exact absurd rfl hne
  | cons line parts ih =>
    rw [List.forall_mem_cons] at h
    cases parts with
    | nil => rw [List.map_singleton, joinWith_singleton, joinWith_singleton, padLines_eq_self h.1]
    | cons next parts =>
      have hrest := ih (List.cons_ne_nil _ _) h.2
      rw [List.map_cons] at hrest
      rw [List.map_cons, List.map_cons, joinWith_cons_cons, joinWith_cons_cons, hrest,
        padLines_append, padLines_append, padLines_eq_self h.1, padLines_feed]
      simp

end Text

end PrettyPayload
