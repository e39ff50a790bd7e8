import Mathlib.Data.List.Basic
import PrettyPayload.Format.Event

/-!
# Slices at byte offsets

A program that holds a text as UTF-8 names a place in it by a byte offset, and a slice between two
offsets is a text only if both stand between two characters. `slice?` has no result for offsets that
are out of order, beyond the end or inside a character, and `isSome_slice?_iff` says that these are
the only ones. A scan over the bytes can still find an ASCII character: every byte of another
character is above 127 (`le_of_mem_utf8EncodeChar`).
-/

namespace PrettyPayload

namespace Text

variable {t part front back : Text} {c : Char} {i j n : Nat}

/-! ## Bytes -/

def bytes (t : Text) : List UInt8 := t.flatMap String.utf8EncodeChar

@[simp] theorem bytes_nil : bytes [] = [] := rfl

@[simp] theorem bytes_cons (c : Char) (t : Text) :
    bytes (c :: t) = String.utf8EncodeChar c ++ bytes t := rfl

@[simp] theorem bytes_append (s t : Text) : bytes (s ++ t) = bytes s ++ bytes t :=
  List.flatMap_append

@[simp] theorem length_bytes (t : Text) : (bytes t).length = t.byteLength := by
  induction t with
  | nil => rfl
  | cons c t ih => simp [ih]

def isAscii (c : Char) : Bool := c.val ≤ 127

theorem isAscii_iff : isAscii c = true ↔ c.utf8Size = 1 := by
  rw [Char.utf8Size_eq_one_iff, isAscii, decide_eq_true_eq]

theorem byteLength_concat (h : isAscii c = true) (t : Text) :
    byteLength (t ++ [c]) = t.byteLength + 1 := by
  rw [byteLength_append, byteLength_cons, isAscii_iff.1 h, byteLength_nil]

theorem utf8EncodeChar_of_isAscii (h : isAscii c = true) :
    String.utf8EncodeChar c = [c.toUInt8] :=
  String.utf8EncodeChar_eq_singleton (isAscii_iff.1 h)

/-- Every byte of a character that takes several is above those of the others. -/
theorem le_of_mem_utf8EncodeChar (h : isAscii c = false) :
    ∀ b ∈ String.utf8EncodeChar c, 128 ≤ b.toNat := by
  have hlarge : ¬c.val.toNat ≤ 127 := fun hle =>
    absurd (decide_eq_true (UInt32.le_iff_toNat_le.2 hle)) (Bool.eq_false_iff.1 h)
  intro b hb
  simp only [String.utf8EncodeChar, if_neg hlarge] at hb
  split at hb
  · simp only [List.mem_cons, List.not_mem_nil, or_false] at hb
    rcases hb with rfl | rfl <;> simp <;> omega
  · split at hb <;> simp only [List.mem_cons, List.not_mem_nil, or_false] at hb
    · rcases hb with rfl | rfl | rfl <;> simp <;> omega
    · rcases hb with rfl | rfl | rfl | rfl <;> simp <;> omega

def byteAt? (t : Text) (i : Nat) : Option Char := (bytes t)[i]?.map Char.ofUInt8

theorem lt_of_byteAt? (h : byteAt? t i = some c) : i < t.byteLength := by
  obtain ⟨b, hb, -⟩ := Option.map_eq_some_iff.1 h
  rw [← length_bytes]
  exact (List.getElem?_eq_some_iff.1 hb).1

theorem byteAt?_of_le (h : t.byteLength ≤ i) : byteAt? t i = none := by
  rw [byteAt?, List.getElem?_eq_none (by rwa [length_bytes]), Option.map_none]

theorem byteAt?_append (front rest : Text) (k : Nat) :
    byteAt? (front ++ rest) (front.byteLength + k) = byteAt? rest k := by
  rw [byteAt?, bytes_append, ← length_bytes, List.getElem?_append_right (Nat.le_add_right _ _),
    Nat.add_sub_cancel_left, byteAt?]

theorem byteAt?_of_isAscii (h : isAscii c = true) (front rest : Text) :
    byteAt? (front ++ c :: rest) front.byteLength = some c := by
  have hc : c.val.toNat ≤ 127 := UInt32.le_iff_toNat_le.1 (of_decide_eq_true h)
  have hbyte : Char.ofUInt8 c.toUInt8 = c := by
    refine Char.ext (UInt32.toNat_inj.1 ?_)
    have hmod : (Char.ofUInt8 c.toUInt8).val.toNat = c.val.toNat % 256 := rfl
    omega
  have hfirst := byteAt?_append front (c :: rest) 0
  rw [Nat.add_zero] at hfirst
  rw [hfirst, byteAt?, bytes_cons, utf8EncodeChar_of_isAscii h]
  exact congrArg some hbyte

/-- No byte of a character that takes several is taken for a character of one byte. -/
theorem byteAt?_of_not_isAscii (h : isAscii c = false) (front rest : Text) {k : Nat}
    (hk : k < c.utf8Size) :
    ∃ d, byteAt? (front ++ c :: rest) (front.byteLength + k) = some d ∧ isAscii d = false := by
  rw [← String.length_utf8EncodeChar] at hk
  have hbyte := le_of_mem_utf8EncodeChar h _ (List.getElem_mem hk)
  refine ⟨Char.ofUInt8 ((String.utf8EncodeChar c).get ⟨k, hk⟩), ?_, ?_⟩
  · rw [byteAt?_append, byteAt?, bytes_cons, List.getElem?_append_left hk,
      List.getElem?_eq_getElem hk]
    rfl
  · rw [isAscii, decide_eq_false_iff_not, UInt32.le_iff_toNat_le]
    exact Nat.not_le_of_lt hbyte

/-! ## Cutting at an offset -/

/-- The texts before and behind an offset that stands between two characters. -/
def splitAtByte? : Text → Nat → Option (Text × Text)
  | t, 0 => some ([], t)
  | [], _ + 1 => none
  | c :: t, n + 1 =>
    if c.utf8Size ≤ n + 1 then
      (splitAtByte? t (n + 1 - c.utf8Size)).map fun (front, back) => (c :: front, back)
    else none

theorem splitAtByte?_append (front back : Text) :
    splitAtByte? (front ++ back) (byteLength front) = some (front, back) := by
  induction front with
  | nil => cases back <;> rfl
  | cons c front ih =>
    obtain ⟨n, hn⟩ : ∃ n, c.utf8Size + byteLength front = n + 1 :=
      Nat.exists_eq_succ_of_ne_zero (by have := c.utf8Size_pos; omega)
    have hrest : n + 1 - c.utf8Size = byteLength front := by omega
    rw [byteLength_cons, hn, List.cons_append, splitAtByte?, if_pos (by omega), hrest, ih]
    rfl

theorem splitAtByte?_eq_some_iff :
    splitAtByte? t n = some (front, back) ↔ t = front ++ back ∧ front.byteLength = n := by
  constructor
  · intro h
    fun_induction splitAtByte? t n generalizing front with
    | case1 t =>
      obtain ⟨rfl, rfl⟩ := Prod.mk.inj (Option.some.inj h)
      exact ⟨rfl, rfl⟩
    | case2 => cases h
    | case3 c t n hle ih =>
      obtain ⟨⟨f, b⟩, hcut, he⟩ := Option.map_eq_some_iff.1 h
      obtain ⟨rfl, rfl⟩ := Prod.mk.inj he
      obtain ⟨rfl, hlen⟩ := ih hcut
      exact ⟨rfl, by rw [byteLength_cons]; omega⟩
    | case4 => cases h
  · rintro ⟨rfl, rfl⟩
    exact splitAtByte?_append front back

/-! ## Slices -/

def IsBoundary (t : Text) (n : Nat) : Prop :=
  ∃ front back, t = front ++ back ∧ front.byteLength = n

/-- The text between two offsets. There is none if the offsets are out of order or beyond the end of
the text, or if one of them is inside a character. -/
def slice? (t : Text) (start stop : Nat) : Option Text :=
  if start ≤ stop then do
    let (front, _) ← splitAtByte? t stop
    let (_, part) ← splitAtByte? front start
    return part
  else none

theorem slice?_eq_some_iff : slice? t i j = some part ↔
    ∃ front back, t = front ++ part ++ back ∧ front.byteLength = i ∧
      front.byteLength + part.byteLength = j := by
  constructor
  · intro h
    rw [slice?] at h
    split at h
    next =>
      obtain ⟨⟨u, back⟩, hstop, h⟩ := Option.bind_eq_some_iff.1 h
      obtain ⟨⟨front, p⟩, hstart, h⟩ := Option.bind_eq_some_iff.1 h
      obtain rfl := Option.some.inj h
      obtain ⟨rfl, hj⟩ := splitAtByte?_eq_some_iff.1 hstop
      obtain ⟨rfl, hi⟩ := splitAtByte?_eq_some_iff.1 hstart
      exact ⟨front, back, rfl, hi, by rw [← hj, byteLength_append]⟩
    next => cases h
  · rintro ⟨front, back, rfl, rfl, rfl⟩
    rw [slice?, if_pos (Nat.le_add_right _ _), ← byteLength_append, splitAtByte?_append]
    simp [splitAtByte?_append]

theorem slice?_append (front part back : Text) :
    slice? (front ++ part ++ back) front.byteLength (front ++ part).byteLength = some part :=
  slice?_eq_some_iff.2 ⟨front, back, rfl, rfl, (byteLength_append front part).symm⟩

/-- A slice exists exactly between two boundaries in order, neither beyond the end. -/
theorem isSome_slice?_iff :
    (slice? t i j).isSome = true ↔
      i ≤ j ∧ j ≤ t.byteLength ∧ IsBoundary t i ∧ IsBoundary t j := by
  constructor
  · intro h
    obtain ⟨part, hpart⟩ := Option.isSome_iff_exists.1 h
    obtain ⟨front, back, rfl, rfl, rfl⟩ := slice?_eq_some_iff.1 hpart
    refine ⟨Nat.le_add_right _ _, by simp, ⟨front, part ++ back, by simp, rfl⟩, ?_⟩
    exact ⟨front ++ part, back, rfl, byteLength_append front part⟩
  · rintro ⟨hij, -, ⟨front, rest, rfl, rfl⟩, ⟨u, back, hu, rfl⟩⟩
    obtain ⟨part, rfl⟩ : ∃ part, u = front ++ part := by
      rcases List.append_eq_append_iff.1 hu with ⟨part, h, -⟩ | ⟨extra, rfl, -⟩
      · exact ⟨part, h⟩
      · refine ⟨[], ?_⟩
        cases extra with
        | nil => simp
        | cons c extra =>
          have := c.utf8Size_pos
          simp only [byteLength_append, byteLength_cons] at hij
          omega
    rw [hu, slice?_append]
    rfl

/-! ## Suffixes -/

def dropSuffix? (p t : Text) : Option Text := (dropPrefix? p.reverse t.reverse).map List.reverse

/-! ## Characters with their offsets -/

/-- The characters of a text, each with the offset at which it starts; the first is at `n`. -/
def charIndicesFrom (n : Nat) : Text → List (Nat × Char)
  | [] => []
  | c :: t => (n, c) :: charIndicesFrom (n + c.utf8Size) t

def charIndices (t : Text) : List (Nat × Char) := charIndicesFrom 0 t

theorem getElem?_charIndicesFrom (n k : Nat) (t : Text) :
    (charIndicesFrom n t)[k]? = t[k]?.map fun c => (n + byteLength (t.take k), c) := by
  induction t generalizing n k with
  | nil => rfl
  | cons c t ih =>
    cases k with
    | zero => rfl
    | succ k => simp [charIndicesFrom, ih, Nat.add_assoc]

theorem getElem?_charIndices (k : Nat) (t : Text) :
    (charIndices t)[k]? = t[k]?.map fun c => (byteLength (t.take k), c) := by
  rw [charIndices, getElem?_charIndicesFrom]
  simp

/-- The first character outside a class is found behind those of the class. -/
theorem find?_charIndicesFrom (p : Char → Bool) (n : Nat) (t : Text) :
    ((charIndicesFrom n t).find? fun entry => !p entry.2) =
      (t.dropWhile p).head?.map fun c => (n + byteLength (t.takeWhile p), c) := by
  induction t generalizing n with
  | nil => rfl
  | cons c t ih => cases hc : p c <;> simp [charIndicesFrom, hc, ih, Nat.add_assoc]

end Text

end PrettyPayload
