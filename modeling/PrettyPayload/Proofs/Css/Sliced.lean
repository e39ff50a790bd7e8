import PrettyPayload.Proofs.Css.Comment
import PrettyPayload.Proofs.Css.Seek
import PrettyPayload.Proofs.Css.WellFormed
import PrettyPayload.Proofs.Text.Break
import PrettyPayload.Proofs.Text.Name

/-!
# Slices between characters

Where a text is put together from pieces, the offset of each piece is the length of those before it,
and slicing there gives the piece back (`slice_append`). In this form every helper of the reader by
byte offsets that needs no counter has the result of its counterpart over characters: the skipping
of separators, the quoting of a text, the removal of comments, the name of an at-rule and the mark
of importance. The last one is cut off at an offset of another text, the value in small letters.
-/

namespace PrettyPayload

namespace Css

namespace Offset

variable {α β γ : Type} {stops : Char → Bool} {c d : Char}
  {t front rest before after input : Text} {last : Option Char}

/-! ## Slices -/

theorem slice_append (front part back : Text) :
    slice (front ++ part ++ back) front.byteLength (front ++ part).byteLength = pure part :=
  slice_eq_pure_iff.2 (Text.slice?_append front part back)

theorem slice_to_end (front part : Text) :
    slice (front ++ part) front.byteLength (front ++ part).byteLength = pure part := by
  have h := slice_append front part []
  rwa [List.append_nil] at h

theorem slice_from_start (part back : Text) :
    slice (part ++ back) 0 part.byteLength = pure part :=
  slice_append [] part back

/-! ## The first item -/

theorem isAscii_of_separator (h : (Text.isAsciiBlank c || c = ';') = true) :
    Text.isAscii c = true := by
  simp only [Text.isAsciiBlank, Bool.or_eq_true, decide_eq_true_eq] at h
  rcases h with ((((rfl | rfl) | rfl) | rfl) | rfl) | rfl <;> rfl

theorem skip_of_separator (top : Bool) (front t : Text)
    (h : (Text.isAsciiBlank c || c = ';') = true) :
    skip top (front ++ c :: t) front.byteLength =
      skip top (front ++ c :: t) (front ++ [c]).byteLength := by
  have hbyte := Text.byteAt?_of_isAscii (isAscii_of_separator h) front t
  rw [Text.byteLength_concat (isAscii_of_separator h), skip]
  split
  · simp_all
  next b hb =>
    obtain rfl : b = c := Option.some.inj (hb.symm.trans hbyte)
    rw [if_pos h]

theorem skip_of_not_separator (top : Bool) (front t : Text)
    (h : ¬(Text.isAsciiBlank c || c = ';') = true) :
    skip top (front ++ c :: t) front.byteLength =
      if top then
        if Text.startsWith "<!--".toList (c :: t) then
          skip top (front ++ c :: t) (front.byteLength + 4)
        else if Text.startsWith "-->".toList (c :: t) then
          skip top (front ++ c :: t) (front.byteLength + 3)
        else pure front.byteLength
      else pure front.byteLength := by
  -- the first byte of a longer character is no separator either
  obtain ⟨b, hbyte, hb⟩ : ∃ b, Text.byteAt? (front ++ c :: t) front.byteLength = some b ∧
      ¬(Text.isAsciiBlank b || b = ';') = true := by
    cases hascii : Text.isAscii c with
    | true => exact ⟨c, Text.byteAt?_of_isAscii hascii front t, h⟩
    | false =>
      obtain ⟨d, hd, hlong⟩ := Text.byteAt?_of_not_isAscii hascii front t c.utf8Size_pos
      exact ⟨d, hd, fun hsep => Bool.eq_false_iff.1 hlong (isAscii_of_separator hsep)⟩
  rw [skip]
  split
  · simp_all
  next e he =>
    obtain rfl : e = b := Option.some.inj (he.symm.trans hbyte)
    rw [if_neg hb, slice_to_end, pure_bind]

/-- At the top, a mark of an HTML comment is skipped. -/
theorem skip_of_mark {top : Bool} {mark : Text} (htop : top = true)
    (hmark : mark = "<!--".toList ∨ mark = "-->".toList) (front t : Text) :
    skip top (front ++ (mark ++ t)) front.byteLength =
      skip top (front ++ (mark ++ t)) (front ++ mark).byteLength := by
  have hstart : Text.startsWith mark (mark ++ t) = true := Text.startsWith_iff.2 ⟨t, rfl⟩
  have hlength : (front ++ mark).byteLength = front.byteLength + mark.byteLength :=
    Text.byteLength_append _ _
  rcases hmark with rfl | rfl
  · refine (skip_of_not_separator top front _ (by decide)).trans ?_
    rw [if_pos htop, hlength]
    exact if_pos hstart
  · have hother : ¬Text.startsWith "<!--".toList ('-' :: '-' :: '>' :: t) = true :=
      Bool.false_ne_true
    refine (skip_of_not_separator top front _ (by decide)).trans ?_
    rw [if_pos htop, hlength]
    exact (if_neg hother).trans (if_pos hstart)

theorem skip_eq (top : Bool) (front rest : Text) :
    ∃ blanks, rest = blanks ++ skipSeparators top rest ∧
      skip top (front ++ rest) front.byteLength = pure (front ++ blanks).byteLength := by
  fun_induction skipSeparators top rest generalizing front with
  | case1 t htop ih =>
    obtain ⟨blanks, ht, hskip⟩ := ih (front ++ "<!--".toList)
    refine ⟨"<!--".toList ++ blanks, congrArg ("<!--".toList ++ ·) ht, ?_⟩
    rw [← List.append_assoc, ← hskip, List.append_assoc]
    exact skip_of_mark htop (Or.inl rfl) front t
  | case2 t htop =>
    refine ⟨[], rfl, ?_⟩
    rw [skip_of_not_separator top front _ (by decide), if_neg htop, List.append_nil]
  | case3 t htop ih =>
    obtain ⟨blanks, ht, hskip⟩ := ih (front ++ "-->".toList)
    refine ⟨"-->".toList ++ blanks, congrArg ("-->".toList ++ ·) ht, ?_⟩
    rw [← List.append_assoc, ← hskip, List.append_assoc]
    exact skip_of_mark htop (Or.inr rfl) front t
  | case4 t htop =>
    refine ⟨[], rfl, ?_⟩
    rw [skip_of_not_separator top front _ (by decide), if_neg htop, List.append_nil]
  | case5 c t h1 h2 hblank ih =>
    obtain ⟨blanks, ht, hskip⟩ := ih (front ++ [c])
    rw [List.append_assoc, List.singleton_append] at hskip
    refine ⟨c :: blanks, congrArg (c :: ·) ht, ?_⟩
    rw [skip_of_separator top front t hblank, hskip]
    simp
  | case6 c t hopen hclose hblank =>
    refine ⟨[], rfl, ?_⟩
    have hopen' : ¬Text.startsWith "<!--".toList (c :: t) = true := by
      rw [Text.startsWith_iff]
      rintro ⟨rest, heq⟩
      obtain ⟨rfl, rfl⟩ := List.cons.inj heq
      exact hopen rest rfl rfl
    have hclose' : ¬Text.startsWith "-->".toList (c :: t) = true := by
      rw [Text.startsWith_iff]
      rintro ⟨rest, heq⟩
      obtain ⟨rfl, rfl⟩ := List.cons.inj heq
      exact hclose rest rfl rfl
    rw [skip_of_not_separator top front t hblank, if_neg hopen', if_neg hclose', ite_self,
      List.append_nil]
  | case7 =>
    refine ⟨[], rfl, ?_⟩
    rw [List.append_nil, skip]
    split
    · rfl
    next b hb => exact absurd (Text.lt_of_byteAt? hb) (Nat.lt_irrefl _)

/-! ## Readings without a failure -/

theorem map_checked (f : α → β) (r : Except Error α) : f <$> checked r = checked (f <$> r) := by
  cases r <;> rfl

/-! ## Quoted texts -/

theorem excerpt_eq (t : Text) : excerpt t = pure (Css.excerpt t) := by
  unfold excerpt Css.excerpt
  generalize Text.joinWith [' '] (Text.words t) = collapsed
  simp only [Text.getElem?_charIndices]
  cases hlong : collapsed[40]? with
  | none =>
    rw [if_pos (List.getElem?_eq_none_iff.1 hlong)]
    rfl
  | some c =>
    have hlt := (List.getElem?_eq_some_iff.1 hlong).1
    have hslice := slice_from_start (collapsed.take 40) (collapsed.drop 40)
    rw [List.take_append_drop] at hslice
    rw [if_neg (Nat.not_le_of_lt hlt), Option.map_some]
    exact congrArg (· >>= _) hslice

theorem refuse_eq (fault : Text → Error) (t : Text) :
    (refuse fault t : Checked α) = checked (.error (fault (Css.excerpt t))) := by
  rw [refuse, excerpt_eq]
  rfl

/-! ## Comments -/

theorem suffix_of_comment (h : skipComment t.tail = some rest) (c : Char) : rest <:+ c :: t :=
  (skipComment_suffix h).trans ((List.tail_suffix t).trans (List.suffix_cons c t))

/-- Only a literal that is left open is sliced, from its quote on. -/
theorem stripFrom_eq (h : t <:+ input) :
    stripFrom input last t = checked (stripCommentsAfter last t) := by
  fun_induction stripCommentsAfter last t with
  | case1 => rw [stripFrom]; rfl
  | case2 last c t hslash hskip =>
    rw [stripFrom, if_pos hslash]
    split
    · rfl
    next rest hrest => cases hrest.symm.trans hskip
  | case3 last c t hslash rest hskip hfuse ih =>
    have hrest := suffix_of_comment hskip c
    rw [stripFrom, if_pos hslash]
    split
    next hnone => cases hnone.symm.trans hskip
    next rest' hsome =>
      obtain rfl := Option.some.inj (hsome.symm.trans hskip)
      rw [if_pos hfuse, ih (hrest.trans h), map_checked]
  | case4 last c t hslash rest hskip hfuse ih =>
    have hrest := suffix_of_comment hskip c
    rw [stripFrom, if_pos hslash]
    split
    next hnone => cases hnone.symm.trans hskip
    next rest' hsome =>
      obtain rfl := Option.some.inj (hsome.symm.trans hskip)
      rw [if_neg hfuse, ih (hrest.trans h)]
  | case5 last c t hslash hquote hliteral =>
    rw [stripFrom, if_neg hslash, if_pos hquote]
    split
    · obtain ⟨front, rfl⟩ := h
      have hstart : Text.byteLength (front ++ c :: t) - Text.byteLength (c :: t) =
          Text.byteLength front := by
        rw [Text.byteLength_append, Nat.add_sub_cancel]
      simp only [hstart, slice_to_end, pure_bind, refuse_eq]
    next literal rest hrest => cases hrest.symm.trans hliteral
  | case6 last c t hslash hquote literal rest hliteral ih =>
    rw [stripFrom, if_neg hslash, if_pos hquote]
    split
    next hnone => cases hnone.symm.trans hliteral
    next literal' rest' hsome =>
      obtain ⟨rfl, rfl⟩ := Prod.mk.inj (Option.some.inj (hsome.symm.trans hliteral))
      have hrest : rest' <:+ c :: t := by
        rw [takeLiteral_eq_some hliteral]
        exact (List.suffix_append _ _).trans (List.suffix_cons _ _)
      rw [ih (hrest.trans h), map_checked]
  | case7 last c t hslash hquote ih =>
    rw [stripFrom, if_neg hslash, if_neg hquote, ih ((List.suffix_cons c t).trans h), map_checked]

theorem stripComments_eq (t : Text) : stripComments t = checked (Css.stripComments t) :=
  stripFrom_eq List.suffix_rfl

/-! ## Names and values -/

theorem splitAtName_eq (t : Text) : splitAtName t = pure (Css.splitAtName t) := by
  have hparts : t.takeWhile isNameChar ++ t.dropWhile isNameChar = t :=
    List.takeWhile_append_dropWhile
  have hstop : (((Text.charIndices t).find? fun entry => !isNameChar entry.2).map Prod.fst).getD
      t.byteLength = Text.byteLength (t.takeWhile isNameChar) := by
    rw [Text.charIndices, Text.find?_charIndicesFrom]
    cases hrest : t.dropWhile isNameChar with
    | nil =>
      rw [hrest, List.append_nil] at hparts
      rw [hparts]
      rfl
    | cons c rest => simp
  have hname := slice_from_start (t.takeWhile isNameChar) (t.dropWhile isNameChar)
  have hprelude := slice_to_end (t.takeWhile isNameChar) (t.dropWhile isNameChar)
  rw [hparts] at hname hprelude
  simp only [splitAtName, hstop, hname, hprelude, pure_bind]
  rfl

theorem byteLength_lower (t : Text) : (Text.lower t).byteLength = t.byteLength := by
  induction t with
  | nil => rfl
  | cons c t ih =>
    have hsize : (Text.lowerChar c).utf8Size = c.utf8Size :=
      Text.apply_lowerChar (f := Char.utf8Size) (by decide) c
    rw [Text.byteLength_cons, ← hsize, ← ih]
    rfl

/-- A prefix in small letters is found in any case by making the text small first. -/
theorem dropPrefix?_lower {p : Text} (hp : Text.lower p = p) (t : Text) :
    Text.dropPrefix? p (Text.lower t) = (Text.dropPrefixIgnoringCase? p t).map Text.lower := by
  induction p generalizing t with
  | nil => rfl
  | cons a p ih =>
    obtain ⟨ha, hp⟩ := List.cons.inj hp
    cases t with
    | nil => rfl
    | cons b t =>
      have hlower : Text.lower (b :: t) = Text.lowerChar b :: Text.lower t := rfl
      rw [hlower, Text.dropPrefix?, Text.dropPrefixIgnoringCase?, ha, ih hp]
      split <;> rfl

theorem dropSuffix?_lower {p : Text} (hp : Text.lower p.reverse = p.reverse) (t : Text) :
    Text.dropSuffix? p (Text.lower t) =
      (Text.dropPrefixIgnoringCase? p.reverse t.reverse).map fun back =>
        Text.lower back.reverse := by
  have hreverse : (Text.lower t).reverse = Text.lower t.reverse := List.map_reverse.symm
  rw [Text.dropSuffix?, hreverse, dropPrefix?_lower hp, Option.map_map]
  congr 1
  funext back
  exact List.map_reverse.symm

theorem trimEnd_lower (t : Text) :
    Text.trimEnd Text.isBlank (Text.lower t) = Text.lower (Text.trimEnd Text.isBlank t) := by
  induction t with
  | nil => rfl
  | cons c t ih =>
    have hlower : Text.lower (c :: t) = Text.lowerChar c :: Text.lower t := rfl
    rw [hlower, Text.trimEnd, ih, Text.trimEnd, Text.isBlank_lowerChar]
    cases Text.trimEnd Text.isBlank t with
    | nil => cases Text.isBlank c <;> rfl
    | cons d kept => rfl

/-- The mark of importance is cut off at an offset of the text in small letters, where every
character takes as many bytes as in the text itself. -/
theorem splitImportant_eq (value : Text) :
    splitImportant value = pure (Css.splitImportant value) := by
  unfold splitImportant Css.splitImportant
  generalize Text.trimEnd Text.isBlank value = trimmed
  have hword : "important".toList.reverse = "tnatropmi".toList := rfl
  simp only [dropSuffix?_lower (p := "important".toList) (by decide), hword]
  cases hback : Text.dropPrefixIgnoringCase? "tnatropmi".toList trimmed.reverse with
  | none => rfl
  | some back =>
    have hstart : (Text.trimEnd Text.isBlank back.reverse).reverse =
        back.dropWhile Text.isBlank := by
      rw [Text.reverse_trimEnd, List.reverse_reverse, Text.trimStart]
    simp only [Option.map_some, trimEnd_lower, dropSuffix?_lower (p := ['!']) rfl, hstart,
      List.reverse_singleton]
    cases hrest : back.dropWhile Text.isBlank with
    | nil => rfl
    | cons c rest =>
      by_cases hmark : c = '!'
      · subst hmark
        obtain ⟨word, hsplit, -⟩ := eq_append_of_dropPrefixIgnoringCase? hback
        obtain ⟨blanks, hblanks, -⟩ := Text.exists_eq_append_trimStart Text.isBlank back
        have htrimmed : trimmed = rest.reverse ++ (word ++ blanks ++ ['!']).reverse := by
          rw [Text.trimStart, hrest] at hblanks
          rw [← List.reverse_inj, hsplit, hblanks]
          simp
        have hslice := slice_from_start rest.reverse (word ++ blanks ++ ['!']).reverse
        have hend : Text.trimEnd Text.isBlank rest.reverse =
            (rest.dropWhile Text.isBlank).reverse := by
          rw [← List.reverse_inj, Text.reverse_trimEnd, List.reverse_reverse, List.reverse_reverse,
            Text.trimStart]
        rw [← htrimmed, ← byteLength_lower] at hslice
        change slice trimmed 0 (Text.lower rest.reverse).byteLength >>= _ = _
        rw [hslice, pure_bind, hend]
        rfl
      · have hlower : Text.lowerChar '!' ≠ Text.lowerChar c := fun h =>
          hmark (of_decide_eq_true ((Text.apply_lowerChar (f := fun c => decide (c = '!'))
            (by decide) c).symm.trans (decide_eq_true h.symm)))
        simp only [Text.dropPrefixIgnoringCase?, if_neg hlower, Option.map_none]
        split
        next hcons => exact absurd (List.cons.inj hcons).1 hmark
        next => rfl

end Offset

end Css

end PrettyPayload
