import PrettyPayload.Markup.Escape

/-!
# Escaping and the references of HTML

Escaped HTML is written with five references. What stands for a character is its reference or, if it
is no ampersand, the character itself (`Writes`), so every ampersand that is written starts a
reference, and no reference runs on into what is written behind it.

`unescape` replaces these references in one pass from left to right. Whenever the pass is done with
what was written for some characters, it stands at the start of what was written for the next one,
and what it has put in place of a reference it does not read again.
-/

namespace PrettyPayload

namespace Html

open Markup (escapeText escapeTextChar escapeAttribute escapeAttributeChar)

variable {written t front back rest : Text} {c d : Char} {escape : Char → Text}

/-! ## References -/

def writtenReferences : List (Text × Char) :=
  [("&amp;".toList, '&'), ("&lt;".toList, '<'), ("&gt;".toList, '>'), ("&quot;".toList, '"'),
    ("&nbsp;".toList, '\u00A0')]

def writtenReference? (t : Text) : Option (Char × Text) :=
  writtenReferences.findSome? fun (written, c) => (Text.dropPrefix? written t).map (c, ·)

/-- A reference starts with an ampersand and holds no other. -/
theorem exists_name_of_mem (h : (written, c) ∈ writtenReferences) :
    ∃ name, written = '&' :: name ∧ '&' ∉ name := by
  have hshape : ∀ entry ∈ writtenReferences, entry.1.head? = some '&' ∧ '&' ∉ entry.1.tail := by
    decide
  obtain ⟨hhead, htail⟩ := hshape _ h
  obtain ⟨name, rfl⟩ := List.head?_eq_some_iff.1 hhead
  exact ⟨name, rfl, htail⟩

theorem writtenReference?_eq_some_iff :
    writtenReference? t = some (c, rest) ↔
      ∃ written, (written, c) ∈ writtenReferences ∧ t = written ++ rest := by
  constructor
  · intro h
    obtain ⟨⟨written, d⟩, hmem, hdrop⟩ := List.exists_of_findSome?_eq_some h
    obtain ⟨u, hu, heq⟩ := Option.map_eq_some_iff.1 hdrop
    obtain ⟨rfl, rfl⟩ := Prod.mk.inj heq
    exact ⟨written, hmem, Text.dropPrefix?_eq_some_iff.1 hu⟩
  · rintro ⟨written, hmem, rfl⟩
    simp only [writtenReferences, List.mem_cons, List.not_mem_nil, or_false, Prod.mk.injEq] at hmem
    rcases hmem with ⟨rfl, rfl⟩ | ⟨rfl, rfl⟩ | ⟨rfl, rfl⟩ | ⟨rfl, rfl⟩ | ⟨rfl, rfl⟩ <;> rfl

theorem writtenReference?_cons_of_ne (h : c ≠ '&') (t : Text) :
    writtenReference? (c :: t) = none := by
  refine Option.eq_none_iff_forall_ne_some.2 fun ⟨d, rest⟩ hsome => ?_
  obtain ⟨written, hmem, heq⟩ := writtenReference?_eq_some_iff.1 hsome
  obtain ⟨name, rfl, -⟩ := exists_name_of_mem hmem
  exact h (List.cons.inj heq).1

theorem length_of_writtenReference? (h : writtenReference? t = some (c, rest)) :
    rest.length < t.length := by
  obtain ⟨written, hmem, rfl⟩ := writtenReference?_eq_some_iff.1 h
  obtain ⟨name, rfl, -⟩ := exists_name_of_mem hmem
  rw [List.cons_append, List.length_cons, List.length_append]
  omega

/-- A text with its references replaced, in one pass from left to right. -/
def unescape : Text → Text
  | [] => []
  | c :: t =>
    match _h : writtenReference? (c :: t) with
    | some (d, rest) => d :: unescape rest
    | none => c :: unescape t
termination_by t => t.length
decreasing_by
  · exact length_of_writtenReference? _h
  · exact Nat.lt_succ_self _

@[simp] theorem unescape_nil : unescape [] = [] := by rw [unescape]

theorem unescape_reference_append (h : (written, c) ∈ writtenReferences) (rest : Text) :
    unescape (written ++ rest) = c :: unescape rest := by
  have hfound : writtenReference? (written ++ rest) = some (c, rest) :=
    writtenReference?_eq_some_iff.2 ⟨written, h, rfl⟩
  obtain ⟨name, rfl, -⟩ := exists_name_of_mem h
  rw [List.cons_append] at hfound ⊢
  rw [unescape]
  split
  next heq =>
    obtain ⟨rfl, rfl⟩ := Prod.mk.inj (Option.some.inj (heq.symm.trans hfound))
    rfl
  next heq => cases heq.symm.trans hfound

theorem unescape_cons_of_ne (h : c ≠ '&') (t : Text) : unescape (c :: t) = c :: unescape t := by
  have hnone := writtenReference?_cons_of_ne h t
  rw [unescape]
  split
  next heq => cases heq.symm.trans hnone
  next => rfl

/-! ## What stands for a character -/

/-- A text that stands for a character: a reference, or the character itself. -/
inductive Writes : Text → Char → Prop
  | reference {written : Text} {c : Char} (h : (written, c) ∈ writtenReferences) :
    Writes written c
  | plain {c : Char} (h : c ≠ '&') : Writes [c] c

theorem writes_escapeTextChar (c : Char) : Writes (escapeTextChar .html c) c := by
  unfold escapeTextChar
  split
  next h => exact h ▸ .reference (by decide)
  next hamp =>
    split
    next h => exact h ▸ .reference (by decide)
    next =>
      split
      next h => exact h ▸ .reference (by decide)
      next =>
        split
        next h => exact h.1 ▸ .reference (by decide)
        next => exact .plain hamp

theorem writes_escapeAttributeChar (c : Char) : Writes (escapeAttributeChar .html c) c := by
  unfold escapeAttributeChar
  split
  next h => exact h ▸ .reference (by decide)
  next hamp =>
    split
    next h => exact h ▸ .reference (by decide)
    next =>
      dsimp only
      split
      next h => exact h ▸ .reference (by decide)
      next => exact .plain hamp

/-- An ampersand stands at the start of what is written for a character, or not at all. -/
theorem Writes.eq_nil_of_append (h : Writes (front ++ '&' :: back) c) :
    front = [] ∧ (front ++ '&' :: back, c) ∈ writtenReferences := by
  generalize hwritten : front ++ '&' :: back = written at h
  cases h with
  | reference h =>
    obtain ⟨name, rfl, hname⟩ := exists_name_of_mem h
    refine ⟨?_, h⟩
    cases front with
    | nil => rfl
    | cons d front =>
      have hmem : '&' ∈ name := (List.cons.inj hwritten).2 ▸ by simp
      exact absurd hmem hname
  | plain h =>
    have hmem : '&' ∈ [c] := hwritten ▸ by simp
    exact absurd (List.mem_singleton.1 hmem).symm h

theorem Writes.unescape_append (h : Writes written c) (rest : Text) :
    unescape (written ++ rest) = c :: unescape rest := by
  cases h with
  | reference h => exact unescape_reference_append h rest
  | plain h => exact unescape_cons_of_ne h rest

/-! ## What stands for a text -/

section

variable (hescape : ∀ c, Writes (escape c) c)
include hescape

/-- The characters of the text come out one by one, and the pass goes on behind what was written for
them. -/
theorem unescape_flatMap_append (t rest : Text) :
    unescape (t.flatMap escape ++ rest) = t ++ unescape rest := by
  induction t with
  | nil => rfl
  | cons c t ih =>
    rw [List.flatMap_cons, List.append_assoc, (hescape c).unescape_append, ih, List.cons_append]

/-- Every ampersand starts the reference of a character of the text; before it and behind the
reference stands what is written for the characters around. -/
theorem exists_of_flatMap_eq_append (h : t.flatMap escape = front ++ '&' :: back) :
    ∃ before c after written, (written, c) ∈ writtenReferences ∧
      t = before ++ c :: after ∧ front = before.flatMap escape ∧
      '&' :: back = written ++ after.flatMap escape := by
  induction t generalizing front with
  | nil => exact absurd h.symm (List.append_ne_nil_of_right_ne_nil _ (List.cons_ne_nil _ _))
  | cons c t ih =>
    have hlater (front' : Text) (hfront : front = escape c ++ front')
        (hrest : t.flatMap escape = front' ++ '&' :: back) :
        ∃ before d after written, (written, d) ∈ writtenReferences ∧
          c :: t = before ++ d :: after ∧ front = before.flatMap escape ∧
          '&' :: back = written ++ after.flatMap escape := by
      obtain ⟨before, d, after, written, hmem, rfl, rfl, hback⟩ := ih hrest
      exact ⟨c :: before, d, after, written, hmem, rfl, by rw [hfront, List.flatMap_cons], hback⟩
    rw [List.flatMap_cons, List.append_eq_append_iff] at h
    -- The ampersand is behind what is written for the first character, or in it.
    rcases h with ⟨front', hfront, hrest⟩ | ⟨tail, hwritten, hback⟩
    · exact hlater front' hfront hrest
    · cases tail with
      | nil => exact hlater [] (by rw [hwritten, List.append_nil, List.append_nil]) hback.symm
      | cons d tail =>
        obtain ⟨rfl, htail⟩ := List.cons.inj hback
        obtain ⟨rfl, hmem⟩ := Writes.eq_nil_of_append (hwritten ▸ hescape c)
        exact ⟨[], c, t, '&' :: tail, hmem, rfl, rfl, congrArg ('&' :: ·) htail⟩

/-- A character that starts what is written, but no reference, is that of the text. -/
theorem exists_of_flatMap_eq_cons (hd : d ≠ '&') (h : t.flatMap escape = d :: rest) :
    ∃ u, t = d :: u ∧ rest = u.flatMap escape := by
  cases t with
  | nil => cases h
  | cons c t =>
    rw [List.flatMap_cons] at h
    have hwrites := hescape c
    generalize escape c = written at h hwrites
    cases hwrites with
    | reference hmem =>
      obtain ⟨name, rfl, -⟩ := exists_name_of_mem hmem
      exact absurd (List.cons.inj h).1.symm hd
    | plain =>
      obtain ⟨rfl, hrest⟩ := List.cons.inj h
      exact ⟨t, rfl, hrest.symm⟩

/-- What is written is made up of the characters of the references and of those characters of the
text that are written as themselves. -/
theorem mem_of_mem_flatMap (h : d ∈ t.flatMap escape) :
    (∃ entry ∈ writtenReferences, d ∈ entry.1) ∨ (d ∈ t ∧ escape d = [d]) := by
  obtain ⟨c, hc, hd⟩ := List.mem_flatMap.1 h
  have hwrites := hescape c
  generalize hwritten : escape c = written at hd hwrites
  cases hwrites with
  | reference h => exact Or.inl ⟨_, h, hd⟩
  | plain =>
    obtain rfl := List.mem_singleton.1 hd
    exact Or.inr ⟨hc, hwritten⟩

/-- A character that is written as something else is left out, unless references are made of it. -/
theorem not_mem_flatMap (hmark : ∀ entry ∈ writtenReferences, d ∉ entry.1) (hd : escape d ≠ [d])
    (t : Text) : d ∉ t.flatMap escape := by
  intro hmem
  rcases mem_of_mem_flatMap hescape hmem with ⟨entry, hentry, hmem⟩ | ⟨-, hplain⟩
  · exact hmark entry hentry hmem
  · exact hd hplain

end

end Html

end PrettyPayload
