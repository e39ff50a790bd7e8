import PrettyPayload.Proofs.Text.Break
import PrettyPayload.Xml.Token

/-!
# Words of XML read and written

Names, attributes, comments and instructions are taken apart here: `isName`, `isComment` and the
like say what the parts that were read are made of, and a word that is written from such parts is
read as these parts again, whatever follows it.
-/

namespace PrettyPayload

namespace Xml

variable {t rest : Text} {c d : Char}

/-! ## Definitions -/

def isName (t : Text) : Bool := t.head?.any isNameStart && t.all isNameChar && !t.contains ':'

def isTarget (t : Text) : Bool := t.head?.any isNameStart && t.all isNameChar

/-- The text of a comment: no two hyphens in a row, and none at the end. -/
def isComment (t : Text) : Bool :=
  t.all isAllowed && (Text.breakAt? "--".toList t).isNone && t.getLast? ≠ some '-'

/-- The data of an instruction, without its end mark and without white space in front. -/
def isData (t : Text) : Bool :=
  t.all isAllowed && (Text.breakAt? "?>".toList t).isNone && !t.head?.any isSpace

/-! ## Characters -/

theorem isSpace_of_isNameChar (h : isNameChar c = true) : isSpace c = false := by
  simp only [isSpace, Bool.or_eq_false_iff, decide_eq_false_iff_not]
  exact ⟨⟨⟨Text.ne_of_class h (by decide), Text.ne_of_class h (by decide)⟩,
    Text.ne_of_class h (by decide)⟩, Text.ne_of_class h (by decide)⟩

theorem skipSpaces_of_head? (h : ∀ c, t.head? = some c → isSpace c = false) :
    skipSpaces t = t := by
  cases t with
  | nil => rfl
  | cons c t => simp [skipSpaces, h c rfl]

theorem skipSpaces_append {s : Text} (h : ∀ c ∈ s, isSpace c = true) (t : Text) :
    skipSpaces (s ++ t) = skipSpaces t := by
  rw [skipSpaces, List.dropWhile_append_of_pos h, skipSpaces]

/-- White space is skipped up to something else. -/
theorem exists_eq_append_skipSpaces (t : Text) :
    ∃ s, t = s ++ skipSpaces t ∧ (∀ c ∈ s, isSpace c = true) ∧
      ∀ c, (skipSpaces t).head? = some c → isSpace c = false := by
  refine ⟨t.takeWhile isSpace, List.takeWhile_append_dropWhile.symm, ?_, ?_⟩
  · exact fun c hc => List.all_eq_true.1 List.all_takeWhile c hc
  · intro c hc
    rw [skipSpaces] at hc
    have := List.head?_dropWhile_not isSpace t
    rw [hc] at this
    simpa using this

/-! ## Names -/

theorem exists_cons_of_isName (h : isName t = true) :
    ∃ c u, t = c :: u ∧ isNameStart c = true := by
  simp only [isName, Bool.and_eq_true] at h
  cases t with
  | nil => simp at h
  | cons c u => exact ⟨c, u, rfl, by simpa using h.1.1⟩

theorem isNameChar_of_isName (h : isName t = true) : ∀ c ∈ t, isNameChar c = true := by
  simp only [isName, Bool.and_eq_true] at h
  exact List.all_eq_true.1 h.1.2

theorem not_mem_of_isName (h : isName t = true) : ':' ∉ t := by
  simp only [isName, Bool.and_eq_true, Bool.not_eq_true', List.contains_eq_mem,
    decide_eq_false_iff_not] at h
  exact h.2

theorem breakAt?_colon_of_isName (h : isName t = true) : Text.breakAt? [':'] t = none := by
  rw [Text.breakAt?_eq_none_iff]
  intro hwithin
  exact not_mem_of_isName h (hwithin.subset List.mem_cons_self)

theorem ofWritten_of_isName (h : isName t = true) : Name.ofWritten t = ⟨[], t⟩ := by
  rw [Name.ofWritten, breakAt?_colon_of_isName h]

/-- A written name falls into two parts at its first colon. -/
theorem ofWritten_append {qualifier : Text} (h : ':' ∉ qualifier) (l : Text) :
    Name.ofWritten (qualifier ++ ':' :: l) = ⟨qualifier, l⟩ := by
  have hbreak : Text.breakAt? [':'] (qualifier ++ ':' :: l) = some (qualifier, l) :=
    Text.breakAt?_append_of_not_infix l (by decide) (by decide)
      fun hwithin => h (hwithin.subset List.mem_cons_self)
  rw [Name.ofWritten, hbreak]

theorem ofWritten_xml_append (t : Text) :
    Name.ofWritten ("xml:".toList ++ t) = ⟨"xml".toList, t⟩ := by
  have hxml : ':' ∉ "xml".toList := by decide
  exact ofWritten_append hxml t

/-- A name that was read is the characters of names at the start of the text. -/
theorem eq_append_of_qualifiedName? {name : Name} (h : qualifiedName? t = some (name, rest)) :
    ∃ w, t = w ++ rest ∧ (∀ c ∈ w, isNameChar c = true) ∧ name = Name.ofWritten w ∧
      (Name.ofWritten w).isProper = true := by
  unfold qualifiedName? at h
  split at h
  next hproper =>
    obtain ⟨rfl, rfl⟩ := Prod.mk.inj (Option.some.inj h)
    exact ⟨_, List.takeWhile_append_dropWhile.symm,
      fun c hc => List.all_eq_true.1 List.all_takeWhile c hc, rfl, hproper⟩
  next => cases h

/-- The local part of a name that was read is a name without a qualifier. -/
theorem isName_of_qualifiedName? {name : Name} (h : qualifiedName? t = some (name, rest)) :
    isName name.localName = true := by
  obtain ⟨w, -, hall, rfl, hproper⟩ := eq_append_of_qualifiedName? h
  have hchars : ∀ c ∈ (Name.ofWritten w).localName, isNameChar c = true := by
    intro c hc
    unfold Name.ofWritten at hc
    split at hc
    next q l hbreak =>
      refine hall c ?_
      rw [Text.eq_append_of_breakAt? hbreak]
      simp [hc]
    next => exact hall c hc
  simp only [Name.isProper, Bool.and_eq_true] at hproper
  simp only [isName, Bool.and_eq_true]
  exact ⟨⟨hproper.1.2, List.all_eq_true.2 hchars⟩, hproper.2⟩

theorem qualifiedName?_append (hchars : ∀ c ∈ t, isNameChar c = true)
    (hproper : (Name.ofWritten t).isProper = true)
    (hr : ∀ c, rest.head? = some c → isNameChar c = false) :
    qualifiedName? (t ++ rest) = some (Name.ofWritten t, rest) := by
  obtain ⟨htake, hdrop⟩ := Text.takeWhile_append_of_head? hchars hr
  rw [qualifiedName?, htake, hdrop, if_pos hproper]

theorem isProper_of_isName {qualifier : Text} (hq : qualifier.head?.all isNameStart = true)
    (h : isName t = true) : (Name.mk qualifier t).isProper = true := by
  simp only [isName, Bool.and_eq_true] at h
  simp only [Name.isProper, Bool.and_eq_true]
  exact ⟨⟨hq, h.1.1⟩, h.2⟩

/-- The name of an attribute as it is written: without a qualifier, or with `xml`, and none that
declares a namespace. -/
def IsAttributeName (t : Text) : Prop :=
  ∃ l, isName l = true ∧ l ≠ "xmlns".toList ∧ (t = l ∨ t = "xml:".toList ++ l)

theorem IsAttributeName.isNameChar (h : IsAttributeName t) : ∀ c ∈ t, isNameChar c = true := by
  obtain ⟨l, hl, -, rfl | rfl⟩ := h
  · exact isNameChar_of_isName hl
  · intro c hc
    rcases List.mem_append.1 hc with hc | hc
    · have hall : ∀ c ∈ "xml:".toList, Xml.isNameChar c = true :=
        Text.forall_mem_of_all (by decide)
      exact hall c hc
    · exact isNameChar_of_isName hl c hc

theorem IsAttributeName.isProper (h : IsAttributeName t) :
    (Name.ofWritten t).isProper = true := by
  obtain ⟨l, hl, -, rfl | rfl⟩ := h
  · rw [ofWritten_of_isName hl]
    exact isProper_of_isName rfl hl
  · rw [ofWritten_xml_append l]
    exact isProper_of_isName (by decide) hl

theorem IsAttributeName.head? (h : IsAttributeName t) :
    ∃ c u, t = c :: u ∧ Xml.isNameChar c = true := by
  have hchars := h.isNameChar
  cases t with
  | nil =>
    obtain ⟨l, hl, -, hnil | hnil⟩ := h
    · obtain ⟨c, u, hcu, -⟩ := exists_cons_of_isName hl
      rw [← hnil] at hcu
      cases hcu
    · cases hnil
  | cons c u => exact ⟨c, u, rfl, hchars c List.mem_cons_self⟩

/-! ## Attributes -/

theorem eq_append_of_quotedWith? {p : Char → Bool} {value : Text}
    (h : quotedWith? p t = some (value, rest)) :
    ∃ q, (q = '"' ∨ q = '\'') ∧ t = q :: (value ++ q :: rest) ∧
      ∀ c ∈ value, c ≠ q ∧ p c = true := by
  unfold quotedWith? at h
  split at h
  next => cases h
  next q u =>
    split at h
    next hq =>
      split at h
      next c v hdrop =>
        split at h
        next hc =>
          obtain ⟨rfl, rfl⟩ := Prod.mk.inj (Option.some.inj h)
          refine ⟨q, hq, ?_, ?_⟩
          · rw [← hc, ← hdrop, hc, List.takeWhile_append_dropWhile]
          · intro c hc
            have hall := List.all_eq_true.1 (List.all_takeWhile (l := u)) c hc
            simpa using hall
        next => cases h
      next => cases h
    next => cases h

theorem quotedWith?_append {p : Char → Bool} {q : Char} {value : Text}
    (hq : q = '"' ∨ q = '\'') (h : ∀ c ∈ value, c ≠ q ∧ p c = true) (rest : Text) :
    quotedWith? p (q :: (value ++ q :: rest)) = some (value, rest) := by
  have hall : ∀ c ∈ value, (c ≠ q && p c) = true := by
    intro c hc
    simpa using h c hc
  have hend : ∀ c, (q :: rest).head? = some c → (c ≠ q && p c) = false := by
    intro c hc
    obtain rfl := Option.some.inj hc
    simp
  obtain ⟨htake, hdrop⟩ := Text.takeWhile_append_of_head? hall hend
  rw [quotedWith?, if_pos hq]
  simp only [hdrop, htake, if_true]

/-- An attribute is a name, a sign with white space around it, and a literal. -/
theorem attribute?_append_spaces {w s u value : Text} {q : Char}
    (hw : ∀ c ∈ w, isNameChar c = true) (hproper : (Name.ofWritten w).isProper = true)
    (hs : ∀ c ∈ s, isSpace c = true) (hu : ∀ c ∈ u, isSpace c = true)
    (hq : q = '"' ∨ q = '\'') (hvalue : ∀ c ∈ value, c ≠ q ∧ (c ≠ '<' && isAllowed c) = true)
    (rest : Text) :
    attribute? (w ++ (s ++ '=' :: (u ++ q :: (value ++ q :: rest)))) =
      some ((Name.ofWritten w, value), rest) := by
  have hend : ∀ c, (s ++ '=' :: (u ++ q :: (value ++ q :: rest))).head? = some c →
      isNameChar c = false := by
    intro c hc
    cases hn : isNameChar c with
    | false => rfl
    | true =>
      cases s with
      | nil =>
        obtain rfl : '=' = c := Option.some.inj hc
        exact absurd hn (by decide)
      | cons d s =>
        obtain rfl : d = c := Option.some.inj hc
        have hspace := isSpace_of_isNameChar hn
        rw [hs d List.mem_cons_self] at hspace
        cases hspace
  have hskip : skipSpaces (s ++ '=' :: (u ++ q :: (value ++ q :: rest))) =
      '=' :: (u ++ q :: (value ++ q :: rest)) := by
    rw [skipSpaces_append hs, skipSpaces_of_head?]
    intro c hc
    obtain rfl := Option.some.inj hc
    decide
  have hskip' : skipSpaces (u ++ q :: (value ++ q :: rest)) = q :: (value ++ q :: rest) := by
    rw [skipSpaces_append hu, skipSpaces_of_head?]
    intro c hc
    obtain rfl := Option.some.inj hc
    rcases hq with rfl | rfl <;> decide
  have hsign : Text.dropPrefix? ['='] ('=' :: (u ++ q :: (value ++ q :: rest))) =
      some (u ++ q :: (value ++ q :: rest)) := Text.dropPrefix?_append ['='] _
  rw [attribute?, qualifiedName?_append hw hproper hend]
  simp only [Option.bind_eq_bind, Option.bind_some, Option.pure_def, hskip, hsign, hskip',
    quotedWith?_append hq hvalue]

/-- What an attribute that was read is made of, and how its text is read with something else behind
it. -/
theorem attribute?_eq_some {name : Name} {value : Text}
    (h : attribute? t = some ((name, value), rest)) :
    isName name.localName = true ∧ (∀ c ∈ value, c ≠ '<' ∧ isAllowed c = true) ∧
      ∃ u q, (q = '"' ∨ q = '\'') ∧ t = u ++ q :: rest ∧
        ∀ rest', attribute? (u ++ q :: rest') = some ((name, value), rest') := by
  simp only [attribute?, Option.bind_eq_bind, Option.bind_eq_some_iff, Option.pure_def,
    Option.some.injEq, Prod.mk.injEq, Prod.exists] at h
  obtain ⟨name', t₁, h₁, t₂, h₂, value', t₃, h₃, ⟨rfl, rfl⟩, rfl⟩ := h
  obtain ⟨w, ht, hw, hname, hproper⟩ := eq_append_of_qualifiedName? h₁
  obtain ⟨s, ht₁, hs, -⟩ := exists_eq_append_skipSpaces t₁
  obtain ⟨u, ht₂, hu, -⟩ := exists_eq_append_skipSpaces t₂
  obtain ⟨q, hq, hliteral, hvalue⟩ := eq_append_of_quotedWith? h₃
  rw [Text.dropPrefix?_eq_some_iff.1 h₂] at ht₁
  rw [hliteral] at ht₂
  refine ⟨isName_of_qualifiedName? h₁, fun c hc => by simpa using (hvalue c hc).2,
    w ++ (s ++ '=' :: (u ++ q :: value')), q, hq, ?_, ?_⟩
  · rw [ht, ht₁, ht₂]
    simp
  · intro rest'
    have hread := attribute?_append_spaces hw hproper hs hu hq hvalue rest'
    rw [hname, ← hread]
    simp

theorem attribute?_append {n value : Text} (hn : IsAttributeName n)
    (hvalue : ∀ c ∈ value, c ≠ '"' ∧ c ≠ '<' ∧ isAllowed c = true) (rest : Text) :
    attribute? (n ++ '=' :: '"' :: (value ++ '"' :: rest)) =
      some ((Name.ofWritten n, value), rest) :=
  attribute?_append_spaces (s := []) (u := []) hn.isNameChar hn.isProper nofun nofun (Or.inl rfl)
    (by simpa using hvalue) rest

/-! ## Comments -/

theorem allowed_of_isComment (h : isComment t = true) : ∀ c ∈ t, isAllowed c = true := by
  simp only [isComment, Bool.and_eq_true] at h
  exact List.all_eq_true.1 h.1.1

/-- What follows a comment that was read stands behind its end mark. -/
theorem comment?_eq_some {comment : Text} (h : comment? t = some (comment, rest)) :
    t = comment ++ ("-->".toList ++ rest) ∧ isComment comment = true := by
  simp only [comment?, Option.bind_eq_bind, Option.bind_eq_some_iff, Prod.exists] at h
  obtain ⟨c, r, hu, hc⟩ := h
  split at hc
  next => cases hc
  next hends =>
    obtain ⟨rfl, rfl⟩ := Prod.mk.inj (Option.some.inj hc)
    rw [not_or] at hends
    unfold upTo? at hu
    split at hu
    next before behind hbreak =>
      split at hu
      next hall =>
        obtain ⟨rfl, rfl⟩ := Prod.mk.inj (Option.some.inj hu)
        refine ⟨Text.eq_append_of_breakAt? hbreak, ?_⟩
        simp only [isComment, Bool.and_eq_true, decide_eq_true_eq]
        exact ⟨⟨hall, by simpa using hends.1⟩, hends.2⟩
      next => cases hu
    next => cases hu

theorem upTo?_append {mark before : Text} (hmark : mark ≠ [])
    (hlast : mark.getLast hmark ∉ mark.dropLast) (hbefore : ¬mark <:+: before)
    (hall : ∀ c ∈ before, isAllowed c = true) (rest : Text) :
    upTo? mark (before ++ (mark ++ rest)) = some (before, rest) := by
  rw [upTo?, Text.breakAt?_append_of_not_infix rest hmark hlast hbefore]
  dsimp only
  rw [if_pos (List.all_eq_true.2 hall)]

theorem comment?_append (h : isComment t = true) (rest : Text) :
    comment? (t ++ ("-->".toList ++ rest)) = some (t, rest) := by
  have hall := allowed_of_isComment h
  simp only [isComment, Bool.and_eq_true, decide_eq_true_eq, Option.isNone_iff_eq_none] at h
  have hwithin : ¬"-->".toList <:+: t := by
    intro hend
    refine Text.breakAt?_eq_none_iff.1 h.1.2 (List.IsInfix.trans ?_ hend)
    exact ⟨[], ['>'], rfl⟩
  rw [comment?, upTo?_append (by decide) (by decide) hwithin hall]
  simp only [Option.bind_eq_bind, Option.bind_some]
  rw [if_neg]
  rw [not_or, h.1.2]
  exact ⟨Bool.false_ne_true, h.2⟩

/-! ## Instructions -/

theorem allowed_of_isData (h : isData t = true) : ∀ c ∈ t, isAllowed c = true := by
  simp only [isData, Bool.and_eq_true] at h
  exact List.all_eq_true.1 h.1.1

theorem exists_cons_of_isTarget (h : isTarget t = true) :
    ∃ c u, t = c :: u ∧ isNameStart c = true := by
  simp only [isTarget, Bool.and_eq_true] at h
  cases t with
  | nil => simp at h
  | cons c u => exact ⟨c, u, rfl, by simpa using h.1⟩

theorem isNameChar_of_isTarget (h : isTarget t = true) : ∀ c ∈ t, isNameChar c = true := by
  simp only [isTarget, Bool.and_eq_true] at h
  exact List.all_eq_true.1 h.2

theorem name?_eq_some {target : Text} (h : name? t = some (target, rest)) :
    t = target ++ rest ∧ isTarget target = true ∧
      ∀ c, rest.head? = some c → isNameChar c = false := by
  cases t with
  | nil => cases h
  | cons c u =>
    rw [name?] at h
    split at h
    next hstart =>
      obtain ⟨rfl, rfl⟩ := Prod.mk.inj (Option.some.inj h)
      refine ⟨by rw [List.cons_append, List.takeWhile_append_dropWhile], ?_, ?_⟩
      · simp only [isTarget, Bool.and_eq_true]
        refine ⟨by simpa using hstart, List.all_eq_true.2 ?_⟩
        intro d hd
        rcases List.mem_cons.1 hd with rfl | hd
        · exact isNameChar_of_isNameStart hstart
        · exact List.all_eq_true.1 List.all_takeWhile d hd
      · intro d hd
        have := List.head?_dropWhile_not isNameChar u
        rw [hd] at this
        simpa using this
    next => cases h

theorem name?_append {target : Text} (h : isTarget target = true)
    (hr : ∀ c, rest.head? = some c → isNameChar c = false) :
    name? (target ++ rest) = some (target, rest) := by
  obtain ⟨c, u, rfl, hstart⟩ := exists_cons_of_isTarget h
  have hu : ∀ d ∈ u, isNameChar d = true :=
    fun d hd => isNameChar_of_isTarget h d (List.mem_cons_of_mem c hd)
  obtain ⟨htake, hdrop⟩ := Text.takeWhile_append_of_head? hu hr
  rw [List.cons_append, name?, if_pos hstart, htake, hdrop]

theorem instruction?_eq_some {target data : Text}
    (h : instruction? t = some ((target, data), rest)) :
    isTarget target = true ∧ isData data = true ∧
      ∃ s, t = "<?".toList ++ (target ++ (s ++ (data ++ ("?>".toList ++ rest)))) := by
  unfold instruction? at h
  split at h
  next => cases h
  next =>
    simp only [Option.bind_eq_bind, Option.bind_eq_some_iff, Option.pure_def, Option.some.injEq,
      Prod.mk.injEq, Prod.exists] at h
    obtain ⟨t₁, h₁, target', t₂, h₂, data', t₃, h₃, ⟨rfl, rfl⟩, rfl⟩ := h
    obtain ⟨ht₁, htarget, -⟩ := name?_eq_some h₂
    obtain ⟨s, ht₂, -, hspace⟩ := exists_eq_append_skipSpaces t₂
    unfold upTo? at h₃
    split at h₃
    next before behind hbreak =>
      split at h₃
      next hall =>
        obtain ⟨rfl, rfl⟩ := Prod.mk.inj (Option.some.inj h₃)
        have hsplit := Text.eq_append_of_breakAt? hbreak
        refine ⟨htarget, ?_, s, ?_⟩
        · have hnot := Text.not_infix_of_breakAt? hbreak (by decide)
          have hnone : Text.breakAt? "?>".toList before = none :=
            Text.breakAt?_eq_none_iff.2 fun hwithin =>
              hnot (List.infix_append_of_infix_left hwithin)
          simp only [isData, Bool.and_eq_true, hall, hnone, Option.isNone_none, Bool.not_eq_true']
          refine ⟨⟨trivial, trivial⟩, ?_⟩
          cases before with
          | nil => rfl
          | cons c before =>
            refine hspace c ?_
            rw [hsplit, List.cons_append, List.head?_cons]
        · rw [Text.dropPrefix?_eq_some_iff.1 h₁, ht₁, ← hsplit, ← ht₂]
      next => cases h₃
    next => cases h₃

/-- Only the target of the declaration of a document looks like it. -/
theorem startsWith_xml_append {target tail : Text} (htarget : ∀ c ∈ target, isNameChar c = true)
    (hxml : target ≠ "xml".toList) (htail : ∀ c, tail.head? = some c → isNameChar c = false) :
    Text.startsWith "<?xml ".toList ("<?".toList ++ (target ++ tail)) = false := by
  rw [← Bool.not_eq_true, Text.startsWith_iff]
  rintro ⟨z, hz⟩
  have hsplit : "xml".toList ++ ' ' :: z = target ++ tail :=
    (List.append_right_inj "<?".toList).1 hz
  have hword : ("xml".toList ++ ' ' :: z).takeWhile isNameChar = "xml".toList :=
    (Text.takeWhile_append_of_head? (Text.forall_mem_of_all (by decide))
      fun c hc => Option.some.inj hc ▸ rfl).1
  rw [hsplit, (Text.takeWhile_append_of_head? htarget htail).1] at hword
  exact hxml hword

/-- A written instruction is read as it was, unless its target is that of the declaration of the
document. -/
theorem instruction?_append {target data : Text} (htarget : isTarget target = true)
    (hdata : isData data = true) (hxml : target ≠ "xml".toList) (rest : Text) :
    instruction? ("<?".toList ++ (target ++ ((if data = [] then [] else ' ' :: data) ++
      ("?>".toList ++ rest)))) = some ((target, data), rest) := by
  have htail : ∀ c, ((if data = [] then [] else ' ' :: data) ++
      ("?>".toList ++ rest)).head? = some c → isNameChar c = false := by
    intro c hc
    split at hc
    next =>
      obtain rfl : '?' = c := Option.some.inj hc
      decide
    next =>
      obtain rfl : ' ' = c := Option.some.inj hc
      decide
  have hskip : skipSpaces ((if data = [] then [] else ' ' :: data) ++ ("?>".toList ++ rest)) =
      data ++ ("?>".toList ++ rest) := by
    have hhead : skipSpaces (data ++ ("?>".toList ++ rest)) = data ++ ("?>".toList ++ rest) := by
      refine skipSpaces_of_head? ?_
      intro c hc
      cases data with
      | nil =>
        obtain rfl : '?' = c := Option.some.inj hc
        decide
      | cons d data =>
        obtain rfl : d = c := Option.some.inj hc
        simp only [isData, Bool.and_eq_true] at hdata
        simpa using hdata.2
    split
    next hnil =>
      rw [hnil] at hhead ⊢
      exact hhead
    next =>
      exact (skipSpaces_append (s := [' ']) (Text.forall_mem_of_all (by decide)) _).trans hhead
  have hwithin : ¬"?>".toList <:+: data := by
    simp only [isData, Bool.and_eq_true, Option.isNone_iff_eq_none] at hdata
    exact Text.breakAt?_eq_none_iff.1 hdata.1.2
  rw [instruction?, startsWith_xml_append (isNameChar_of_isTarget htarget) hxml htail]
  simp only [Bool.false_eq_true, if_false, Option.bind_eq_bind, Text.dropPrefix?_append,
    Option.bind_some, name?_append htarget htail, hskip,
    upTo?_append (by decide) (by decide) hwithin (allowed_of_isData hdata), Option.pure_def]

end Xml

end PrettyPayload
