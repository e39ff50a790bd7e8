import PrettyPayload.Markup.Escape
import PrettyPayload.Proofs.Xml.Word
import PrettyPayload.Xml.Content

/-!
# Escaped texts and values

Character data and attribute values are written with references. Read again, they are the pieces
that they were written as, and the characters that they were written for: those of a value as they
are, those of a text up to the settling of line ends.
-/

namespace PrettyPayload

namespace Xml

variable {t rest : Text} {c : Char} {pieces : List Piece}

/-! ## Pieces -/

theorem pieces?_cons_of_ne (h : c ≠ '&') (t : Text) :
    pieces? (c :: t) = (pieces? t).map (.plain c :: ·) := by
  rw [pieces?]
  exact h

theorem pieces?_of_reference? {reference : Text} {piece : Piece}
    (h : reference? reference = some (piece, t)) :
    pieces? ('&' :: reference) = (pieces? t).map (piece :: ·) := by
  rw [pieces?]
  split
  next found rest hfound =>
    obtain ⟨rfl, rfl⟩ := Prod.mk.inj (Option.some.inj (hfound.symm.trans h))
    rfl
  next hnone => rw [h] at hnone; cases hnone

def Piece.Allowed : Piece → Prop
  | .plain c => isAllowed c = true
  | .escaped c => isAllowed c = true
  | .entity _ => True

theorem isAllowed_of_charOfNumber? {n : Nat} (h : charOfNumber? n = some c) :
    isAllowed c = true := by
  unfold charOfNumber? at h
  split at h
  next =>
    dsimp only at h
    generalize (if n.isValidChar then Char.ofNat n else '\uFFFD') = d at h
    split at h
    next hallowed =>
      obtain rfl := Option.some.inj h
      exact hallowed
    next => cases h
  next => cases h

theorem isAllowed_of_lookup {name : Text} (h : namedCharacters.lookup name = some c) :
    isAllowed c = true := by
  obtain ⟨before, behind, hsplit, -⟩ := List.lookup_eq_some_iff.1 h
  have hmem : (name, c) ∈ namedCharacters :=
    hsplit ▸ List.mem_append_right before List.mem_cons_self
  have hall : ∀ p ∈ namedCharacters, isAllowed p.2 = true := by decide
  exact hall _ hmem

theorem numberStart_suffix (t : Text) : (numberStart t).2 <:+ t := by
  unfold numberStart
  split
  · exact List.suffix_cons _ _
  · exact List.suffix_refl _

/-- A reference stands for an allowed character or for an entity, and ends inside the text. -/
theorem openReference?_eq_some {piece : Piece} (h : openReference? t = some (piece, rest)) :
    piece.Allowed ∧ rest <:+ t := by
  unfold openReference? at h
  split at h
  next u =>
    dsimp only at h
    split at h
    next => cases h
    next =>
      obtain ⟨c, hc, hpiece⟩ := Option.map_eq_some_iff.1 h
      obtain ⟨rfl, rfl⟩ := Prod.mk.inj hpiece
      refine ⟨isAllowed_of_charOfNumber? hc, ?_⟩
      exact ((List.dropWhile_suffix _).trans (numberStart_suffix u)).trans (List.suffix_cons _ _)
  next =>
    obtain ⟨⟨name, u⟩, hname, hpiece⟩ := Option.map_eq_some_iff.1 h
    have hsuffix : u <:+ t := ⟨name, (name?_eq_some hname).1.symm⟩
    dsimp only at hpiece
    split at hpiece
    next c hc =>
      obtain ⟨rfl, rfl⟩ := Prod.mk.inj hpiece
      exact ⟨isAllowed_of_lookup hc, hsuffix⟩
    next =>
      obtain ⟨rfl, rfl⟩ := Prod.mk.inj hpiece
      exact ⟨trivial, hsuffix⟩

theorem allowed_of_pieces? (h : pieces? t = some pieces) (ht : ∀ c ∈ t, isAllowed c = true) :
    ∀ piece ∈ pieces, piece.Allowed := by
  fun_induction pieces? t generalizing pieces with
  | case1 =>
    obtain rfl := Option.some.inj h
    exact nofun
  | case2 t piece rest hreference ih =>
    obtain ⟨more, hmore, rfl⟩ := Option.map_eq_some_iff.1 h
    unfold reference? at hreference
    split at hreference
    next piece' rest' hopen =>
      obtain ⟨rfl, rfl⟩ := Prod.mk.inj (Option.some.inj hreference)
      obtain ⟨hallowed, hsuffix⟩ := openReference?_eq_some hopen
      refine List.forall_mem_cons.2 ⟨hallowed, ih hmore ?_⟩
      intro c hc
      exact ht c (List.mem_cons_of_mem _ (hsuffix.subset (List.mem_cons_of_mem _ hc)))
    next => cases hreference
  | case3 => cases h
  | case4 c t _ ih =>
    obtain ⟨more, hmore, rfl⟩ := Option.map_eq_some_iff.1 h
    rw [List.forall_mem_cons] at ht
    exact List.forall_mem_cons.2 ⟨ht.1, ih hmore ht.2⟩

/-! ## Line ends -/

/-- Settling line ends makes no characters but line feeds. -/
theorem mem_pushSettled {reversed : Text} {d : Char} {atEnd : Bool}
    (h : c ∈ pushSettled reversed d atEnd) : c = '\n' ∨ c = d ∨ c ∈ reversed := by
  have hfeed {t : Text} (ht : c ∈ '\n' :: t) : c = '\n' ∨ c = d ∨ c ∈ '\r' :: t := by
    rcases List.mem_cons.1 ht with rfl | ht
    · exact Or.inl rfl
    · exact Or.inr (Or.inr (List.mem_cons_of_mem _ ht))
  unfold pushSettled at h
  dsimp only at h
  split at h
  next =>
    rcases List.mem_cons.1 h with rfl | h
    · exact Or.inl rfl
    · split at h
      next => exact hfeed h
      next => exact Or.inr (Or.inr h)
  next =>
    split at h
    next =>
      split at h
      next => exact hfeed h
      next => exact Or.inr (Or.inr h)
    next =>
      rcases List.mem_cons.1 h with rfl | h
      · exact Or.inr (Or.inl rfl)
      · split at h
        next => exact hfeed h
        next => exact Or.inr (Or.inr h)

theorem mem_settleOnto {final keep : Bool} {reversed : Text} {chars : List (Char × Bool)}
    (h : c ∈ settleOnto final keep reversed chars) :
    c = '\n' ∨ c ∈ reversed ∨ c ∈ chars.map Prod.fst := by
  induction chars generalizing keep reversed with
  | nil => exact Or.inr (Or.inl (List.mem_reverse.1 h))
  | cons p chars ih =>
    obtain ⟨d, literal⟩ := p
    have hcons : c = '\n' ∨ c ∈ d :: reversed ∨ c ∈ chars.map Prod.fst →
        c = '\n' ∨ c ∈ reversed ∨ c ∈ ((d, literal) :: chars).map Prod.fst := by
      simp only [List.mem_cons, List.map_cons]
      rintro (h | (h | h) | h) <;> simp [h]
    rw [settleOnto] at h
    split at h
    next => exact hcons (ih h)
    next =>
      split at h
      next => exact hcons (ih h)
      next =>
        refine hcons ?_
        rcases ih h with h | h | h
        · exact Or.inl h
        · rcases mem_pushSettled h with h | h | h
          · exact Or.inl h
          · exact Or.inr (Or.inl (h ▸ List.mem_cons_self))
          · exact Or.inr (Or.inl (List.mem_cons_of_mem _ h))
        · exact Or.inr (Or.inr h)

/-- Where there is no carriage return, nothing is settled. -/
theorem settleOnto_eq_append {final keep : Bool} {reversed : Text} {chars : List (Char × Bool)}
    (hreversed : reversed.head? ≠ some '\r') (hchars : '\r' ∉ chars.map Prod.fst) :
    settleOnto final keep reversed chars = reversed.reverse ++ chars.map Prod.fst := by
  induction chars generalizing keep reversed with
  | nil => rw [settleOnto, List.map_nil, List.append_nil]
  | cons p chars ih =>
    obtain ⟨d, literal⟩ := p
    rw [List.map_cons, List.mem_cons, not_or] at hchars
    have hd : (d :: reversed).head? ≠ some '\r' := fun h => hchars.1 (Option.some.inj h).symm
    have hpush : ∀ atEnd, pushSettled reversed d atEnd = d :: reversed := by
      intro atEnd
      unfold pushSettled
      dsimp only
      rw [if_neg fun h => hchars.1 h.1.symm, if_neg fun h => hreversed h.2]
      congr 1
      split
      next t => exact absurd rfl hreversed
      next => rfl
    have hih : ∀ keep, settleOnto final keep (d :: reversed) chars =
        reversed.reverse ++ ((d, literal) :: chars).map Prod.fst := by
      intro keep
      rw [ih hd hchars.2]
      simp
    rw [settleOnto, hpush, hih, hih]
    simp

/-! ## Texts -/

def isEscaped (c : Char) : Bool := c = '&' || c = '<' || c = '>'

/-- A text as it is read when it was written: its line ends are settled, except where the
character before them was written by reference. -/
def settled (t : Text) : Text := settle true (t.map fun c => (c, isEscaped c))

@[simp] theorem settled_nil : settled [] = [] := rfl

theorem settled_eq_self (h : '\r' ∉ t) : settled t = t := by
  have hmap : (t.map fun c => (c, isEscaped c)).map Prod.fst = t := by
    simp [Function.comp_def]
  rw [settled, settle, settleOnto_eq_append (by simp) (by rw [hmap]; exact h), hmap]
  rfl

def textPiece (c : Char) : Piece := if isEscaped c then .escaped c else .plain c

open Markup in
theorem pieces?_escapeTextChar (c : Char) (t : Text) :
    pieces? (escapeTextChar .xml c ++ t) = (pieces? t).map (textPiece c :: ·) := by
  unfold escapeTextChar textPiece isEscaped
  split
  next h =>
    subst h
    exact pieces?_of_reference? rfl
  next hamp =>
    split
    next h =>
      subst h
      exact pieces?_of_reference? rfl
    next hlt =>
      split
      next h =>
        subst h
        exact pieces?_of_reference? rfl
      next hgt =>
        rw [if_neg (by simp), if_neg (by simp [hamp, hlt, hgt]), List.singleton_append,
          pieces?_cons_of_ne hamp]

open Markup in
theorem pieces?_escapeText (t : Text) : pieces? (escapeText .xml t) = some (t.map textPiece) := by
  induction t with
  | nil =>
    rw [escapeText_nil, pieces?]
    rfl
  | cons c t ih =>
    rw [escapeText, List.flatMap_cons, ← escapeText, pieces?_escapeTextChar, ih]
    rfl

theorem stretches_textPiece (t : Text) :
    stretches false (t.map textPiece) = (t.map fun c => (c, isEscaped c), []) := by
  induction t with
  | nil => rfl
  | cons c t ih =>
    cases hc : isEscaped c with
    | true => simp [textPiece, hc, stretches, ih]
    | false => simp [textPiece, hc, stretches, ih]

def flush (t : Text) : List Token :=
  match settled t with
  | [] => []
  | u => [.characters u]

@[simp] theorem flush_nil : flush [] = [] := rfl

theorem textTokens_textPiece (t : Text) : textTokens false (t.map textPiece) = flush t := by
  simp only [textTokens, stretches_textPiece, textTokens.tokens, List.append_nil,
    List.isEmpty_nil]
  rfl

open Markup in
theorem mem_escapeTextChar {d : Char} (hd : d ∈ escapeTextChar .xml c)
    (hc : isAllowed c = true) : d ≠ '<' ∧ d ≠ '>' ∧ isAllowed d = true := by
  unfold escapeTextChar at hd
  split at hd
  next =>
    have hall : ∀ d ∈ "&amp;".toList, d ≠ '<' ∧ d ≠ '>' ∧ isAllowed d = true :=
      Text.forall_mem_of_all (by decide)
    exact hall d hd
  next =>
    split at hd
    next =>
      have hall : ∀ d ∈ "&lt;".toList, d ≠ '<' ∧ d ≠ '>' ∧ isAllowed d = true :=
        Text.forall_mem_of_all (by decide)
      exact hall d hd
    next hlt =>
      split at hd
      next =>
        have hall : ∀ d ∈ "&gt;".toList, d ≠ '<' ∧ d ≠ '>' ∧ isAllowed d = true :=
          Text.forall_mem_of_all (by decide)
        exact hall d hd
      next hgt =>
        rw [if_neg (by simp)] at hd
        obtain rfl := List.mem_singleton.1 hd
        exact ⟨hlt, hgt, hc⟩

open Markup in
theorem mem_escapeText {d : Char} (ht : ∀ c ∈ t, isAllowed c = true)
    (hd : d ∈ escapeText .xml t) : d ≠ '<' ∧ d ≠ '>' ∧ isAllowed d = true := by
  obtain ⟨c, hc, hd⟩ := List.mem_flatMap.1 hd
  exact mem_escapeTextChar hd (ht c hc)

open Markup in
/-- A written text is read up to the next tag. -/
theorem text?_escapeText (ht : ∀ c ∈ t, isAllowed c = true)
    (hr : ∀ c, rest.head? = some c → c = '<') :
    text? false (escapeText .xml t ++ rest) = some (flush t, rest) := by
  have hplain : ∀ d ∈ escapeText .xml t, decide (d ≠ '<') = true := by
    intro d hd
    simpa using (mem_escapeText ht hd).1
  have hend : ∀ c, rest.head? = some c → decide (c ≠ '<') = false := by
    intro c hc
    simp [hr c hc]
  obtain ⟨htake, hdrop⟩ := Text.takeWhile_append_of_head? hplain hend
  have hallowed : (escapeText .xml t).all isAllowed = true :=
    List.all_eq_true.2 fun d hd => (mem_escapeText ht hd).2.2
  have hmark : Text.breakAt? "]]>".toList (escapeText .xml t) = none := by
    rw [Text.breakAt?_eq_none_iff]
    intro hwithin
    have hmem : '>' ∈ escapeText .xml t := hwithin.subset (by decide)
    exact (mem_escapeText ht hmem).2.1 rfl
  simp only [text?, htake, hdrop]
  rw [if_pos ⟨hallowed, by rw [hmark]; rfl⟩, pieces?_escapeText, Option.map_some,
    textTokens_textPiece]

/-! ## Attribute values -/

def attributePiece (c : Char) : Piece :=
  if c ∈ ['&', '"', '<', '\n', '\t', '\r'] then .escaped c else .plain c

open Markup in
theorem pieces?_escapeAttributeChar (c : Char) (t : Text) :
    pieces? (escapeAttributeChar .xml c ++ t) = (pieces? t).map (attributePiece c :: ·) := by
  by_cases hc : c ∈ ['&', '"', '<', '\n', '\t', '\r']
  · rw [attributePiece, if_pos hc]
    simp only [List.mem_cons, List.not_mem_nil, or_false] at hc
    rcases hc with rfl | rfl | rfl | rfl | rfl | rfl <;> exact pieces?_of_reference? rfl
  · rw [attributePiece, if_neg hc]
    simp only [List.mem_cons, List.not_mem_nil, or_false, not_or] at hc
    obtain ⟨hamp, hquote, hlt, hfeed, htab, hreturn⟩ := hc
    simp only [escapeAttributeChar, hamp, hquote, hlt, hfeed, htab, hreturn, if_false]
    exact pieces?_cons_of_ne hamp t

open Markup in
theorem pieces?_escapeAttribute (t : Text) :
    pieces? (escapeAttribute .xml t) = some (t.map attributePiece) := by
  induction t with
  | nil =>
    rw [escapeAttribute_nil, pieces?]
    rfl
  | cons c t ih =>
    rw [escapeAttribute, List.flatMap_cons, ← escapeAttribute, pieces?_escapeAttributeChar, ih]
    rfl

open Markup in
theorem mem_escapeAttribute {d : Char} (ht : ∀ c ∈ t, isAllowed c = true)
    (hd : d ∈ escapeAttribute .xml t) : d ≠ '"' ∧ d ≠ '<' ∧ isAllowed d = true := by
  obtain ⟨c, hc, hd⟩ := List.mem_flatMap.1 hd
  by_cases hs : c ∈ ['&', '"', '<', '\n', '\t', '\r']
  · have hall : (['&', '"', '<', '\n', '\t', '\r'].all fun c =>
        (escapeAttributeChar .xml c).all fun d => d ≠ '"' && d ≠ '<' && isAllowed d) = true := by
      decide
    have hmem := List.all_eq_true.1 (List.all_eq_true.1 hall c hs) d hd
    simpa [and_assoc] using hmem
  · simp only [List.mem_cons, List.not_mem_nil, or_false, not_or] at hs
    obtain ⟨hamp, hquote, hlt, hfeed, htab, hreturn⟩ := hs
    simp only [escapeAttributeChar, hamp, hquote, hlt, hfeed, htab, hreturn, if_false] at hd
    obtain rfl := List.mem_singleton.1 hd
    exact ⟨hquote, hlt, ht d hc⟩

theorem expandValue_attributePiece (followed : Nat) (t : Text) :
    expandValue [] nestingLimit followed (t.map attributePiece) = some (t, followed) := by
  induction t with
  | nil => rw [List.map_nil, expandValue]
  | cons c t ih =>
    rw [List.map_cons, attributePiece]
    split
    next => rw [expandValue, if_pos rfl, ih, Option.map_some]
    next hc =>
      simp only [List.mem_cons, List.not_mem_nil, or_false, not_or] at hc
      have hblank : blankToSpace c = c := by
        rw [blankToSpace, if_neg]
        rintro (h | h | h)
        · exact hc.2.2.2.1 h
        · exact hc.2.2.2.2.2 h
        · exact hc.2.2.2.2.1 h
      rw [expandValue, ih, Option.map_some, hblank]
      exact fun _ _ hreturn => hc.2.2.2.2.2 hreturn

open Markup in
theorem expandAttributes_escapeAttribute (followed : Nat) (attributes : List (Name × Text)) :
    expandAttributes [] nestingLimit followed
        (attributes.map fun a => (a.1, escapeAttribute .xml a.2)) =
      some (attributes, followed) := by
  induction attributes with
  | nil => rfl
  | cons a attributes ih =>
    simp only [List.map_cons, expandAttributes, pieces?_escapeAttribute, Option.bind_eq_bind,
      Option.bind_some, expandValue_attributePiece, ih, Option.pure_def]

theorem isAllowed_blankToSpace (h : isAllowed c = true) : isAllowed (blankToSpace c) = true := by
  unfold blankToSpace
  split
  · decide
  · exact h

/-- Without entities, the value of an attribute has allowed characters if its pieces have. -/
theorem allowed_of_expandValue {levels followed followed' : Nat} {pieces : List Piece} {t : Text}
    (h : expandValue [] levels followed pieces = some (t, followed'))
    (hpieces : ∀ piece ∈ pieces, piece.Allowed) : ∀ c ∈ t, isAllowed c = true := by
  match pieces with
  | [] =>
    rw [expandValue] at h
    obtain ⟨rfl, -⟩ := Prod.mk.inj (Option.some.inj h)
    exact List.forall_mem_nil _
  | .plain c :: rest =>
    rw [List.forall_mem_cons] at hpieces
    by_cases hreturn : ∃ more, c = '\r' ∧ rest = .plain '\n' :: more
    · obtain ⟨more, rfl, rfl⟩ := hreturn
      rw [expandValue] at h
      exact allowed_of_expandValue h hpieces.2
    · rw [expandValue] at h
      · obtain ⟨⟨u, n⟩, hu, hcons⟩ := Option.map_eq_some_iff.1 h
        obtain ⟨rfl, -⟩ := Prod.mk.inj hcons
        exact List.forall_mem_cons.2
          ⟨isAllowed_blankToSpace hpieces.1, allowed_of_expandValue hu hpieces.2⟩
      · exact fun more hrest hc => hreturn ⟨more, hc, hrest⟩
  | .escaped c :: rest =>
    rw [List.forall_mem_cons] at hpieces
    rw [expandValue] at h
    split at h
    next =>
      obtain ⟨⟨u, n⟩, hu, hcons⟩ := Option.map_eq_some_iff.1 h
      obtain ⟨rfl, -⟩ := Prod.mk.inj hcons
      exact List.forall_mem_cons.2 ⟨hpieces.1, allowed_of_expandValue hu hpieces.2⟩
    next =>
      split at h
      next => cases h
      next =>
        obtain ⟨⟨u, n⟩, hu, hcons⟩ := Option.map_eq_some_iff.1 h
        obtain ⟨rfl, -⟩ := Prod.mk.inj hcons
        exact List.forall_mem_cons.2
          ⟨isAllowed_blankToSpace hpieces.1, allowed_of_expandValue hu hpieces.2⟩
  | .entity name :: rest =>
    rw [expandValue.eq_def] at h
    cases levels with
    | zero => cases h
    | succ levels => cases h
termination_by pieces.length

theorem allowed_of_expandAttributes {levels followed followed' : Nat}
    {written attributes : List (Name × Text)}
    (h : expandAttributes [] levels followed written = some (attributes, followed'))
    (hwritten : ∀ a ∈ written, ∀ c ∈ a.2, isAllowed c = true) :
    attributes.map Prod.fst = written.map Prod.fst ∧
      ∀ a ∈ attributes, ∀ c ∈ a.2, isAllowed c = true := by
  induction written generalizing followed attributes followed' with
  | nil =>
    obtain ⟨rfl, -⟩ := Prod.mk.inj (Option.some.inj h)
    exact ⟨rfl, List.forall_mem_nil _⟩
  | cons a written ih =>
    obtain ⟨name, text⟩ := a
    rw [List.forall_mem_cons] at hwritten
    simp only [expandAttributes, Option.bind_eq_bind, Option.bind_eq_some_iff, Option.pure_def,
      Option.some.injEq, Prod.mk.injEq, Prod.exists] at h
    obtain ⟨pieces, hpieces, value, n, hvalue, more, m, hmore, rfl, -⟩ := h
    obtain ⟨hnames, hall⟩ := ih hmore hwritten.2
    refine ⟨by rw [List.map_cons, List.map_cons, hnames], List.forall_mem_cons.2 ⟨?_, hall⟩⟩
    exact allowed_of_expandValue hvalue (allowed_of_pieces? hpieces hwritten.1)

end Xml

end PrettyPayload
