import PrettyPayload.Proofs.Css.Clean

/-!
# Texts whose comments are removed

The removal of comments reads a text from left to right: it skips comments, copies literals whole,
and copies every other character. `Stripping` says so as a relation, with one constructor for each
way the text goes on. A text without comments is copied as it stands (`Uncommented`), and two texts
are read one by one if the character between them is part of no name, literal or mark of a comment.
-/

namespace PrettyPayload

namespace Css

variable {s t u rest body : Text} {c quote : Char} {last : Option Char}

/-! ## Comments and literals -/

theorem skipComment_cons (h : c = '*' → t.head? ≠ some '/') :
    skipComment (c :: t) = skipComment t := by
  rw [skipComment]
  rintro u rfl rfl
  exact h rfl rfl

theorem skipComment_append (h : skipComment t = some rest) (s : Text) :
    skipComment (t ++ s) = some (rest ++ s) := by
  fun_induction skipComment t with
  | case1 => cases h
  | case2 t =>
    obtain rfl := Option.some.inj h
    rfl
  | case3 c t hend ih =>
    rw [List.cons_append, skipComment_cons, ih h]
    rintro rfl hslash
    cases t with
    | nil => cases h
    | cons d t => exact hend t rfl (congrArg (· :: t) (Option.some.inj hslash))

theorem skipComment_suffix (h : skipComment t = some rest) : rest <:+ t := by
  fun_induction skipComment t with
  | case1 => cases h
  | case2 t =>
    obtain rfl := Option.some.inj h
    exact List.suffix_append ['*', '/'] t
  | case3 c t _ ih => exact (ih h).trans (List.suffix_cons c t)

/-- What is behind the opening quote of a literal: it goes on up to the next such quote, and a
backslash carries the character after it along. -/
inductive Literal (quote : Char) : Text → Prop
  | close (hslash : quote ≠ '\\') (hfeed : quote ≠ '\n') : Literal quote [quote]
  | escape (c : Char) {body : Text} (h : Literal quote body) : Literal quote ('\\' :: c :: body)
  | char {c : Char} {body : Text} (hslash : c ≠ '\\') (hfeed : c ≠ '\n') (hquote : c ≠ quote)
      (h : Literal quote body) : Literal quote (c :: body)

theorem literal_of_takeLiteral (h : takeLiteral quote t = some (body, rest)) :
    Literal quote body := by
  fun_induction takeLiteral quote t generalizing body with
  | case1 => cases h
  | case2 => cases h
  | case3 d t ih =>
    obtain ⟨⟨b, r⟩, hb, he⟩ := Option.map_eq_some_iff.1 h
    obtain ⟨rfl, rfl⟩ := Prod.mk.inj he
    exact .escape d (ih hb)
  | case4 => cases h
  | case5 t hslash hfeed =>
    obtain ⟨rfl, rfl⟩ := Prod.mk.inj (Option.some.inj h)
    exact .close hslash hfeed
  | case6 c t hslash hfeed hquote ih =>
    obtain ⟨⟨b, r⟩, hb, he⟩ := Option.map_eq_some_iff.1 h
    obtain ⟨rfl, rfl⟩ := Prod.mk.inj he
    exact .char hslash hfeed hquote (ih hb)

theorem Literal.getLast?_eq (h : Literal quote body) : body.getLast? = some quote := by
  induction h with
  | close _ _ => rfl
  | escape c _ ih => rw [List.getLast?_cons, List.getLast?_cons, ih]; rfl
  | char _ _ _ _ ih => rw [List.getLast?_cons, ih]; rfl

/-- A literal is taken off whatever it stands in front of. -/
theorem Literal.takeLiteral_append (h : Literal quote body) (rest : Text) :
    takeLiteral quote (body ++ rest) = some (body, rest) := by
  induction h with
  | close hslash hfeed => simp [takeLiteral.eq_def, hslash, hfeed]
  | escape c _ ih => simp [takeLiteral, ih]
  | char hslash hfeed hquote _ ih =>
    rw [List.cons_append, takeLiteral.eq_def]
    simp [hslash, hfeed, hquote, ih]

theorem takeLiteral_append (h : takeLiteral quote t = some (body, s)) (rest : Text) :
    takeLiteral quote (t ++ rest) = some (body, s ++ rest) := by
  rw [takeLiteral_eq_some h, List.append_assoc]
  exact (literal_of_takeLiteral h).takeLiteral_append (s ++ rest)

theorem stripCommentsAfter_literal {before : Option Char}
    (hq : isQuote quote = true) (h : takeLiteral quote t = some (body, s)) :
    stripCommentsAfter before (quote :: t) =
      (quote :: body ++ ·) <$> stripCommentsAfter (some quote) s := by
  have hslash : ¬(quote = '/' ∧ t.head? = some '*') := by
    rintro ⟨rfl, -⟩
    exact absurd hq (by decide)
  rw [stripCommentsAfter, if_neg hslash, if_pos hq]
  split
  · simp_all
  · simp_all

theorem stripCommentsAfter_cons {before : Option Char} (hc : c = '/' → t.head? ≠ some '*')
    (hq : isQuote c = false) :
    stripCommentsAfter before (c :: t) = (c :: ·) <$> stripCommentsAfter (some c) t := by
  rw [stripCommentsAfter, if_neg fun h => hc h.1 h.2, if_neg (by simp [hq])]

theorem stripCommentsAfter_comment (h : skipComment t = some rest) :
    stripCommentsAfter last ('/' :: '*' :: t) =
      if fuses last rest.head? then (' ' :: ·) <$> stripCommentsAfter (some ' ') rest
      else stripCommentsAfter last rest := by
  rw [stripCommentsAfter, if_pos ⟨rfl, rfl⟩]
  split
  · simp_all
  · simp_all

theorem stripCommentsAfter_of_open_comment (h : skipComment t = none) :
    stripCommentsAfter last ('/' :: '*' :: t) = .error .unterminatedComment := by
  rw [stripCommentsAfter, if_pos ⟨rfl, rfl⟩]
  split
  · rfl
  · simp_all

theorem stripCommentsAfter_of_open_literal (hq : isQuote quote = true)
    (h : takeLiteral quote t = none) :
    stripCommentsAfter last (quote :: t) = .error (.unterminatedString (excerpt (quote :: t))) := by
  have hslash : ¬(quote = '/' ∧ t.head? = some '*') := by
    rintro ⟨rfl, -⟩
    exact absurd hq (by decide)
  rw [stripCommentsAfter, if_neg hslash, if_pos hq]
  split
  · rfl
  · simp_all

/-! ## The removal of comments as a relation -/

/-- A text without comments, whose literals are closed. -/
inductive Uncommented : Text → Prop
  | nil : Uncommented []
  | literal (quote : Char) (body t : Text) (hq : isQuote quote = true)
      (hbody : Literal quote body) (ht : Uncommented t) : Uncommented (quote :: body ++ t)
  | cons (c : Char) (t : Text) (hq : isQuote c = false) (hc : c = '/' → t.head? ≠ some '*')
      (ht : Uncommented t) : Uncommented (c :: t)

theorem exists_of_map_eq_ok {α β ε : Type} {f : α → β} {x : Except ε α} {b : β}
    (h : f <$> x = .ok b) : ∃ a, x = .ok a ∧ f a = b := by
  cases x with
  | error e => cases h
  | ok a => exact ⟨a, rfl, Except.ok.inj h⟩

theorem eq_error_of_map_eq_error {α β ε : Type} {f : α → β} {x : Except ε α} {e : ε}
    (h : f <$> x = .error e) : x = .error e := by
  cases x with
  | error e' => exact congrArg Except.error (Except.error.inj h)
  | ok a => cases h

theorem exists_of_bind_eq_ok {α β ε : Type} {f : α → Except ε β} {x : Except ε α} {b : β}
    (h : x >>= f = .ok b) : ∃ a, x = .ok a ∧ f a = .ok b := by
  cases x with
  | error e => cases h
  | ok a => exact ⟨a, rfl, h⟩

/-- How the comments of a text are removed, behind the character `last` of the result: a text ends,
or it starts with a comment, which may leave a space behind, with a literal, or with a character
that is copied. -/
inductive Stripping : Option Char → Text → Text → Prop
  | nil (last : Option Char) : Stripping last [] []
  | space {last : Option Char} {t rest u : Text} (hskip : skipComment t = some rest)
      (hfuse : fuses last rest.head? = true) (h : Stripping (some ' ') rest u) :
      Stripping last ('/' :: '*' :: t) (' ' :: u)
  | comment {last : Option Char} {t rest u : Text} (hskip : skipComment t = some rest)
      (hfuse : fuses last rest.head? = false) (h : Stripping last rest u) :
      Stripping last ('/' :: '*' :: t) u
  | literal {last : Option Char} {quote : Char} {t body rest u : Text} (hq : isQuote quote = true)
      (hliteral : takeLiteral quote t = some (body, rest)) (h : Stripping (some quote) rest u) :
      Stripping last (quote :: t) (quote :: body ++ u)
  | cons {last : Option Char} {c : Char} {t u : Text} (hc : c = '/' → t.head? ≠ some '*')
      (hq : isQuote c = false) (h : Stripping (some c) t u) : Stripping last (c :: t) (c :: u)

theorem stripping_of_stripComments (h : stripCommentsAfter last t = .ok u) :
    Stripping last t u := by
  fun_induction stripCommentsAfter last t generalizing u with
  | case1 =>
    obtain rfl := Except.ok.inj h
    exact .nil _
  | case2 => cases h
  | case3 last c t hslash rest hskip hfuse ih =>
    obtain ⟨v, hv, rfl⟩ := exists_of_map_eq_ok h
    obtain ⟨rfl, hstar⟩ := hslash
    obtain ⟨t, rfl⟩ := List.head?_eq_some_iff.1 hstar
    exact .space hskip hfuse (ih hv)
  | case4 last c t hslash rest hskip hfuse ih =>
    obtain ⟨rfl, hstar⟩ := hslash
    obtain ⟨t, rfl⟩ := List.head?_eq_some_iff.1 hstar
    exact .comment hskip (Bool.eq_false_iff.2 hfuse) (ih h)
  | case5 => cases h
  | case6 last c t hslash hq literal rest hliteral ih =>
    obtain ⟨v, hv, rfl⟩ := exists_of_map_eq_ok h
    exact .literal hq hliteral (ih hv)
  | case7 last c t hslash hq ih =>
    obtain ⟨v, hv, rfl⟩ := exists_of_map_eq_ok h
    exact .cons (fun hc hstar => hslash ⟨hc, hstar⟩) (Bool.eq_false_iff.2 hq) (ih hv)

/-- The removal of comments makes a text shorter, unless there are none. -/
theorem Stripping.length_le (h : Stripping last t u) :
    u.length ≤ t.length ∧ (u = t → Uncommented t) := by
  -- what a comment leaves behind is shorter by its marks, so nothing of it is kept
  have hcomment : ∀ {t rest u : Text}, skipComment t = some rest → u.length ≤ rest.length + 1 →
      u.length < ('/' :: '*' :: t).length := by
    intro t rest u hskip hu
    have hshort := length_skipComment_le hskip
    simp only [List.length_cons]
    omega
  induction h with
  | nil last => exact ⟨Nat.le_refl 0, fun _ => .nil⟩
  | @space last t rest u hskip _ _ ih =>
    have hshort := hcomment (u := ' ' :: u) hskip (Nat.succ_le_succ ih.1)
    exact ⟨Nat.le_of_lt hshort, fun heq => absurd (heq ▸ hshort) (Nat.lt_irrefl _)⟩
  | comment hskip _ _ ih =>
    have hshort := hcomment hskip (Nat.le_succ_of_le ih.1)
    exact ⟨Nat.le_of_lt hshort, fun heq => absurd (heq ▸ hshort) (Nat.lt_irrefl _)⟩
  | @literal last quote t body rest u hq hliteral _ ih =>
    obtain rfl := takeLiteral_eq_some hliteral
    constructor
    · simpa using ih.1
    · intro heq
      obtain rfl := List.append_cancel_left (List.cons.inj heq).2
      exact .literal quote body u hq (literal_of_takeLiteral hliteral) (ih.2 rfl)
  | @cons last c t u hc hq _ ih =>
    constructor
    · simpa using ih.1
    · intro heq
      obtain rfl := (List.cons.inj heq).2
      exact .cons c u hq hc (ih.2 rfl)

theorem uncommented_of_stripComments (h : stripComments t = .ok t) : Uncommented t :=
  (stripping_of_stripComments h).length_le.2 rfl

/-- The removal of comments copies a text without comments. -/
theorem Uncommented.stripCommentsAfter_eq (h : Uncommented t) (last : Option Char) :
    stripCommentsAfter last t = .ok t := by
  induction h generalizing last with
  | nil => rw [stripCommentsAfter]
  | literal quote body t hq hbody ht ih =>
    rw [List.cons_append, stripCommentsAfter_literal hq (hbody.takeLiteral_append t), ih]
    rfl
  | cons c t hq hc ht ih =>
    rw [stripCommentsAfter_cons hc hq, ih]
    rfl

theorem Uncommented.tail (h : Uncommented (c :: t)) (hc : isQuote c = false) : Uncommented t := by
  cases h with
  | literal quote body t hq hbody ht =>
    rw [hq] at hc
    cases hc
  | cons c t hq hc ht => exact ht

/-- Two texts without comments in a row have none, unless their ends open one. -/
theorem Uncommented.append (hs : Uncommented s) (ht : Uncommented t)
    (hjoin : s.getLast? = some '/' → t.head? ≠ some '*') : Uncommented (s ++ t) := by
  induction hs with
  | nil => exact ht
  | literal quote body u hq hbody hu ih =>
    rw [List.append_assoc]
    refine .literal quote body (u ++ t) hq hbody (ih fun hlast => hjoin ?_)
    rw [List.getLast?_append, hlast, Option.some_or]
  | cons c u hq hc hu ih =>
    refine .cons c (u ++ t) hq ?_ (ih fun hlast => hjoin ?_)
    · rintro rfl
      cases u with
      | nil => exact hjoin rfl
      | cons d u => exact hc rfl
    · rw [List.getLast?_cons, hlast, Option.getD_some]

/-! ## Texts in a row -/

/-- All that matters of the character before a comment is whether a name may go on behind it. -/
theorem stripCommentsAfter_congr {last last' : Option Char}
    (h : last.any isNameChar = last'.any isNameChar) (t : Text) :
    stripCommentsAfter last t = stripCommentsAfter last' t := by
  have hfuses : ∀ next, fuses last next = fuses last' next := fun next => by rw [fuses, fuses, h]
  fun_induction stripCommentsAfter last t with
  | case1 => rw [stripCommentsAfter]
  | case2 last c t hslash hskip =>
    rw [stripCommentsAfter, if_pos hslash]
    split
    · rfl
    · simp_all
  | case3 last c t hslash rest hskip hfuse =>
    obtain ⟨rfl, hstar⟩ := hslash
    obtain ⟨t, rfl⟩ := List.head?_eq_some_iff.1 hstar
    rw [List.tail_cons] at hskip
    rw [stripCommentsAfter_comment hskip, ← hfuses, if_pos hfuse]
  | case4 last c t hslash rest hskip hfuse ih =>
    obtain ⟨rfl, hstar⟩ := hslash
    obtain ⟨t, rfl⟩ := List.head?_eq_some_iff.1 hstar
    rw [List.tail_cons] at hskip
    rw [stripCommentsAfter_comment hskip, ← hfuses, if_neg hfuse, ih h hfuses]
  | case5 last c t hslash hq hliteral =>
    rw [stripCommentsAfter, if_neg hslash, if_pos hq]
    split
    · rfl
    · simp_all
  | case6 last c t hslash hq literal rest hliteral => rw [stripCommentsAfter_literal hq hliteral]
  | case7 last c t hslash hq =>
    exact (stripCommentsAfter_cons (fun hc hstar => hslash ⟨hc, hstar⟩)
      (Bool.eq_false_iff.2 hq)).symm

/-- A character that comments are parted at: it is part of no name, literal or mark of a comment. -/
def partsComments (c : Char) : Bool := !isNameChar c && !isQuote c && c ≠ '/' && c ≠ '*'

theorem partsComments_iff :
    partsComments c = true ↔ isNameChar c = false ∧ isQuote c = false ∧ c ≠ '/' ∧ c ≠ '*' := by
  simp [partsComments, and_assoc]

theorem stripCommentsAfter_cons_of_parts (hc : partsComments c = true) (t : Text) :
    stripCommentsAfter last (c :: t) = (c :: ·) <$> stripComments t := by
  obtain ⟨hname, hquote, hslash, -⟩ := partsComments_iff.1 hc
  have hlast : (some c).any isNameChar = (none : Option Char).any isNameChar := hname
  rw [stripCommentsAfter_cons (fun h => absurd h hslash) hquote, stripCommentsAfter_congr hlast,
    stripComments]

/-- What follows such a character makes no difference to a name that goes on behind a comment. -/
theorem fuses_append_of_parts (hc : partsComments c = true) (last : Option Char) (s t : Text) :
    fuses last (s ++ c :: t).head? = fuses last s.head? := by
  cases s with
  | nil => simp [fuses, (partsComments_iff.1 hc).1]
  | cons d s => rfl

theorem not_comment_append_of_parts {d : Char} (hc : partsComments c = true)
    (h : d = '/' → s.head? ≠ some '*') (t : Text) : d = '/' → (s ++ c :: t).head? ≠ some '*' := by
  intro hd hhead
  cases s with
  | nil => exact (partsComments_iff.1 hc).2.2.2 (Option.some.inj hhead)
  | cons e s => exact h hd hhead

theorem Stripping.stripCommentsAfter_append (hc : partsComments c = true) (h : Stripping last s u)
    (t : Text) : stripCommentsAfter last (s ++ c :: t) = (u ++ c :: ·) <$> stripComments t := by
  induction h with
  | nil last => exact stripCommentsAfter_cons_of_parts hc t
  | space hskip hfuse _ ih =>
    rw [List.cons_append, List.cons_append,
      stripCommentsAfter_comment (skipComment_append hskip (c :: t)), fuses_append_of_parts hc,
      if_pos hfuse, ih, ← comp_map]
    rfl
  | comment hskip hfuse _ ih =>
    rw [List.cons_append, List.cons_append,
      stripCommentsAfter_comment (skipComment_append hskip (c :: t)), fuses_append_of_parts hc,
      if_neg (Bool.eq_false_iff.1 hfuse), ih]
  | @literal last quote s body rest u hq hliteral _ ih =>
    have hmap : ∀ v, quote :: body ++ (u ++ c :: v) = quote :: body ++ u ++ c :: v := fun v =>
      (List.append_assoc (quote :: body) u (c :: v)).symm
    rw [List.cons_append, stripCommentsAfter_literal hq (takeLiteral_append hliteral _), ih,
      ← comp_map]
    simp only [Function.comp_def, hmap]
  | @cons last d s u hd hq _ ih =>
    rw [List.cons_append, stripCommentsAfter_cons (not_comment_append_of_parts hc hd t) hq, ih,
      ← comp_map]
    rfl

end Css

end PrettyPayload
