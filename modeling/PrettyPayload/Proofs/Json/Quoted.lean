import PrettyPayload.Json.Quoted

/-!
# Strings read and written

A written string has no control characters, so that no line feed of a layout is ever taken for a
part of it, and it is read as it was.
-/

namespace PrettyPayload

namespace Json

variable {s t rest : Text} {c : Char}

theorem mem_letterEscapes_of_lookup {letter : Char} (h : letterEscapes.lookup c = some letter) :
    (c, letter) ∈ letterEscapes := by
  obtain ⟨before, behind, hsplit, -⟩ := List.lookup_eq_some_iff.1 h
  rw [hsplit]
  exact List.mem_append_right before List.mem_cons_self

theorem ne_of_lookup_eq_none (h : letterEscapes.lookup c = none) :
    ∀ p ∈ letterEscapes, c ≠ p.1 := by
  intro p hp
  exact bne_iff_ne.1 (List.lookup_eq_none_iff.1 h p hp)

theorem escape?_of_mem {letter : Char} (h : (c, letter) ∈ letterEscapes) (t : Text) :
    escape? (letter :: t) = some (c, t) := by
  simp only [letterEscapes, List.mem_cons, Prod.mk.injEq, List.not_mem_nil, or_false] at h
  rcases h with ⟨rfl, rfl⟩ | ⟨rfl, rfl⟩ | ⟨rfl, rfl⟩ | ⟨rfl, rfl⟩ | ⟨rfl, rfl⟩ | ⟨rfl, rfl⟩ |
    ⟨rfl, rfl⟩ <;> rfl

/-- A control character is the one that its escape by number gives. -/
theorem unit?_of_lt {n : Nat} (h : n < 32) (t : Text) :
    unit? ('0' :: '0' :: hexLetter (n / 16) :: hexLetter (n % 16) :: t) = some (n, t) := by
  have hall : ∀ n < 32, ['0', '0', hexLetter (n / 16), hexLetter (n % 16)].all (Text.isDigit 16) =
      true ∧ Text.ofDigits 16 ['0', '0', hexLetter (n / 16), hexLetter (n % 16)] = n := by
    decide
  rw [unit?, if_pos (hall n h).1, (hall n h).2]

/-- The escape by number of a control character gives the character. -/
theorem escape?_of_lt (h : c < ' ') (t : Text) :
    escape? ('u' :: '0' :: '0' :: hexLetter (c.toNat / 16) :: hexLetter (c.toNat % 16) :: t) =
      some (c, t) := by
  have hlt : c.toNat < 32 := h
  have hvalid : c.toNat.isValidChar := c.valid
  rw [escape?, numericEscape?, unit?_of_lt hlt]
  dsimp only
  rw [if_pos hvalid, Char.ofNat_toNat]

theorem decode?_escape {escaped : Text} (h : escape? escaped = some (c, t)) :
    decode? ('\\' :: escaped) = (decode? t).map fun (s, rest) => (c :: s, rest) := by
  rw [decode?]
  split
  next d u hd =>
    obtain ⟨rfl, rfl⟩ := Prod.mk.inj (Option.some.inj (hd.symm.trans h))
    rfl
  next hnone => rw [h] at hnone; cases hnone

theorem decode?_encodeChar (c : Char) (t : Text) :
    decode? (encodeChar c ++ t) = (decode? t).map fun (s, rest) => (c :: s, rest) := by
  rw [encodeChar]
  split
  next letter h => exact decode?_escape (escape?_of_mem (mem_letterEscapes_of_lookup h) t)
  next h =>
    have hne := ne_of_lookup_eq_none h
    split
    next hlt => exact decode?_escape (escape?_of_lt hlt t)
    next hlt =>
      rw [List.singleton_append, decode?, if_neg hlt]
      · exact hne ('"', '"') (by decide)
      · exact hne ('\\', '\\') (by decide)

theorem decode?_encode (s rest : Text) :
    decode? (s.flatMap encodeChar ++ '"' :: rest) = some (s, rest) := by
  induction s with
  | nil => rw [List.flatMap_nil, List.nil_append, decode?]
  | cons c s ih =>
    rw [List.flatMap_cons, List.append_assoc, decode?_encodeChar, ih]
    rfl

theorem not_mem_encodeChar (c : Char) : '\n' ∉ encodeChar c := by
  rw [encodeChar]
  split
  next letter h =>
    have hall : ∀ p ∈ letterEscapes, '\n' ∉ ['\\', p.2] := by decide
    exact hall _ (mem_letterEscapes_of_lookup h)
  next h =>
    split
    next hlt =>
      have hall : ∀ n < 32,
          '\n' ∉ ['\\', 'u', '0', '0', hexLetter (n / 16), hexLetter (n % 16)] := by
        decide
      exact hall c.toNat hlt
    next =>
      intro hc
      exact ne_of_lookup_eq_none h ('\n', 'n') (by decide) (List.mem_singleton.1 hc).symm

/-- A written string has no line feed. -/
theorem not_mem_encode (s : Text) : '\n' ∉ encode s := by
  intro h
  rcases List.mem_append.1 h with h | h
  · rcases List.mem_cons.1 h with h | h
    · cases h
    · obtain ⟨c, -, hc⟩ := List.mem_flatMap.1 h
      exact not_mem_encodeChar c hc
  · exact absurd h (by decide)

end Json

end PrettyPayload
