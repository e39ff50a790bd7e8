import Mathlib.Logic.Function.Basic
import PrettyPayload.Html.Reference
import PrettyPayload.Proofs.Html.Escape
import PrettyPayload.Proofs.Text.Words

/-!
# Escaped texts and values of HTML

Character data and attribute values are written with references, and each of these ends with its
own semicolon. A semicolon only ever ends a name, so what follows it has no part in the reference.

Hence one pass over the five references that are written gives back every text and every value
(`unescape_escape`), and so does decoding, which knows all the references of HTML, as long as there
is no carriage return: that is written as it is, and reading makes a line feed of it or loses it.
-/

namespace PrettyPayload

namespace Html

open Markup

variable {t rest name chars line written : Text} {c letter : Char} {inAttribute : Bool}
  {escape : Char → Text}

/-! ## The table of names -/

/-- A name stands for some characters, and the semicolons are not in the table. -/
def IsListed (letter : Char) (name chars : Text) : Prop :=
  (∀ entry ∈ namedCharactersAt letter, ';' ∉ entry.1) ∧
    (namedCharactersAt letter).filter (fun entry => entry.1 = name) = [(name, chars)]

theorem isListed_of_line {s : String}
    (hline : namedCharacterLines.find? (fun entry => entry.1 = letter) = some (letter, s))
    (hs : s = String.ofList line) (hplain : line.all (fun c => c ≠ ';') = true)
    (hname : ((Text.words line).filter fun word => word.takeWhile (· ≠ '=') = name).map
      readNamedCharacter = [(name, chars)]) : IsListed letter name chars := by
  have hlist : namedCharactersAt letter = (Text.words line).map readNamedCharacter := by
    have hfind : namedCharacters.find? (fun entry => entry.1 = letter) =
        some (letter, (Text.words s.toList).map readNamedCharacter) := by
      rw [namedCharacters, List.find?_map]
      exact congrArg (Option.map _) hline
    rw [namedCharactersAt, hfind, hs, String.toList_ofList]
    rfl
  rw [IsListed, hlist]
  constructor
  · intro entry hentry hmem
    obtain ⟨word, hword, rfl⟩ := List.mem_map.1 hentry
    have hc := Text.mem_of_mem_wordsBy hword ((List.takeWhile_prefix _).subset hmem)
    simpa using List.all_eq_true.1 hplain ';' hc
  · rw [List.filter_map]
    exact hname

theorem exists_of_mem_spellings {entry : Text × Text} (h : entry ∈ spellings letter) :
    ∃ name, (name, entry.2) ∈ namedCharactersAt letter ∧
      (entry.1 = name ∨ entry.1 = name ++ [';']) := by
  obtain ⟨⟨name, chars⟩, hmem, hentry⟩ := List.mem_flatMap.1 h
  dsimp only at hentry
  split at hentry
  · rcases List.mem_cons.1 hentry with rfl | hentry
    · exact ⟨name, hmem, Or.inl rfl⟩
    · obtain rfl := List.mem_singleton.1 hentry
      exact ⟨name, hmem, Or.inr rfl⟩
  · obtain rfl := List.mem_singleton.1 hentry
    exact ⟨name, hmem, Or.inr rfl⟩

theorem mem_spellings_of_mem (h : (name, chars) ∈ namedCharactersAt letter) :
    (name ++ [';'], chars) ∈ spellings letter := by
  refine List.mem_flatMap.2 ⟨(name, chars), h, ?_⟩
  dsimp only
  split <;> simp

/-! ## The longest name -/

theorem eq_of_semicolon_prefix {s t u v : Text} (hs : ';' ∉ s) (ht : ';' ∉ t)
    (h : s ++ ';' :: u = t ++ ';' :: v) : s = t := by
  induction s generalizing t with
  | nil =>
    cases t with
    | nil => rfl
    | cons b t =>
      obtain rfl := (List.cons.inj h).1
      exact absurd List.mem_cons_self ht
  | cons a s ih =>
    cases t with
    | nil =>
      obtain rfl := (List.cons.inj h).1
      exact absurd List.mem_cons_self hs
    | cons b t =>
      rw [List.mem_cons, not_or] at hs ht
      obtain ⟨rfl, htail⟩ := List.cons.inj h
      rw [ih hs.2 ht.2 htail]

theorem commonLength_le (s t : Text) : s.take (commonLength s t) = t.take (commonLength s t) ∧
    commonLength s t ≤ s.length := by
  induction s generalizing t with
  | nil => cases t <;> simp [commonLength]
  | cons a s ih =>
    cases t with
    | nil => simp [commonLength]
    | cons b t =>
      rw [commonLength]
      split
      next hab =>
        obtain ⟨htake, hle⟩ := ih t
        rw [List.take_succ_cons, List.take_succ_cons, htake, hab, List.length_cons]
        exact ⟨rfl, by omega⟩
      next => simp

theorem commonLength_append_self (s t : Text) : commonLength s (s ++ t) = s.length := by
  induction s with
  | nil => cases t <;> rfl
  | cons a s ih => rw [List.cons_append, commonLength, if_pos rfl, ih, List.length_cons]

theorem foldl_longerMatch {target : Text × Text} {entries : List (Text × Text)}
    (h : ∀ entry ∈ entries, entry.1.length < target.1.length ∨ entry = target)
    {best : Option (Text × Text)}
    (hbest : ∀ b, best = some b → b.1.length < target.1.length ∨ b = target)
    (hmem : target ∈ entries ∨ best = some target) :
    entries.foldl (fun best entry => longerMatch best (some entry)) best = some target := by
  induction entries generalizing best with
  | nil => exact hmem.resolve_left List.not_mem_nil
  | cons entry entries ih =>
    rw [List.forall_mem_cons] at h
    rw [List.foldl_cons]
    cases best with
    | none =>
      refine ih h.2 (fun b hb => Option.some.inj hb ▸ h.1) ?_
      rcases hmem with hmem | hmem
      · rcases List.mem_cons.1 hmem with rfl | hmem
        · exact Or.inr rfl
        · exact Or.inl hmem
      · cases hmem
    | some b =>
      have hb := hbest b rfl
      have hlonger : longerMatch (some b) (some entry) =
          if b.1.length < entry.1.length then some entry else some b := rfl
      rw [hlonger]
      split
      next hlt =>
        refine ih h.2 (fun a ha => Option.some.inj ha ▸ h.1) ?_
        rcases hmem with hmem | hmem
        · rcases List.mem_cons.1 hmem with rfl | hmem
          · exact Or.inr rfl
          · exact Or.inl hmem
        · obtain rfl := Option.some.inj hmem
          rcases h.1 with h1 | rfl <;> omega
      next hge =>
        refine ih h.2 hbest ?_
        rcases hmem with hmem | hmem
        · rcases List.mem_cons.1 hmem with rfl | hmem
          · rcases hb with hb | rfl
            · exact absurd hb hge
            · exact Or.inr rfl
          · exact Or.inl hmem
        · exact Or.inr hmem

theorem foldl_max {α : Type} {f : α → Nat} {entries : List α} {m : Nat}
    (h : ∀ entry ∈ entries, f entry ≤ m) {n : Nat} (hn : n ≤ m)
    (hmem : (∃ entry ∈ entries, f entry = m) ∨ n = m) :
    entries.foldl (fun n entry => max n (f entry)) n = m := by
  induction entries generalizing n with
  | nil => exact hmem.resolve_left (by simp)
  | cons entry entries ih =>
    rw [List.forall_mem_cons] at h
    refine ih h.2 (Nat.max_le.2 ⟨hn, h.1⟩) ?_
    rcases hmem with ⟨e, he, hfe⟩ | rfl
    · rcases List.mem_cons.1 he with rfl | he
      · exact Or.inr ((Nat.max_eq_right (hfe ▸ hn)).trans hfe)
      · exact Or.inl ⟨e, he, hfe⟩
    · exact Or.inr (Nat.max_eq_left h.1)

/-- A spelling goes no further than the semicolon of a listed name, and one that reaches it is that
of the name. -/
theorem spelling_of_isListed (h : IsListed letter name chars) (hname : ';' ∉ name)
    {entry : Text × Text} (hentry : entry ∈ spellings letter) {u : Text}
    (hbegins : name ++ ';' :: u <+: entry.1) : entry = (name ++ [';'], chars) ∧ u = [] := by
  obtain ⟨n, hn, hspelled⟩ := exists_of_mem_spellings hentry
  have hsemicolon := h.1 _ hn
  rcases hspelled with hspelled | hspelled
  · rw [hspelled] at hbegins
    exact absurd (hbegins.subset (by simp)) hsemicolon
  · obtain ⟨v, hv⟩ := hbegins
    rw [hspelled, List.append_assoc, List.cons_append] at hv
    obtain rfl := eq_of_semicolon_prefix hname hsemicolon hv
    have hchars : (name, entry.2) ∈ (namedCharactersAt letter).filter fun e => e.1 = name :=
      List.mem_filter.2 ⟨hn, by simp⟩
    rw [h.2, List.mem_singleton] at hchars
    have hu := (List.cons.inj (List.append_cancel_left hv)).2
    exact ⟨Prod.ext hspelled (Prod.mk.inj hchars).2, (List.append_eq_nil_iff.1 hu).1⟩

theorem longestName?_of_isListed {u : Text} (h : IsListed letter name chars)
    (hname : ';' ∉ name) (hletter : name = letter :: u) (rest : Text) :
    longestName? (name ++ ';' :: rest) = some (name ++ [';'], chars) := by
  have hmem : (name, chars) ∈ namedCharactersAt letter :=
    (List.mem_filter.1 (h.2 ▸ List.mem_singleton.2 rfl)).1
  have hfold : ((spellings letter).filter fun entry =>
        entry.1.isPrefixOf (name ++ ';' :: rest)).foldl
      (fun best entry => longerMatch best (some entry)) none = some (name ++ [';'], chars) := by
    refine foldl_longerMatch ?_ (fun b hb => by cases hb) (Or.inl (List.mem_filter.2
      ⟨mem_spellings_of_mem hmem, ?_⟩))
    · intro entry hentry
      obtain ⟨hspelling, hbegins⟩ := List.mem_filter.1 hentry
      rw [List.isPrefixOf_iff_prefix] at hbegins
      by_cases hlt : entry.1.length < (name ++ [';']).length
      · exact Or.inl hlt
      · have hwhole : name ++ ';' :: [] <+: entry.1 :=
          List.prefix_of_prefix_length_le ⟨rest, by simp⟩ hbegins (by omega)
        exact Or.inr (spelling_of_isListed h hname hspelling hwhole).1
    · rw [List.isPrefixOf_iff_prefix]
      exact ⟨rest, by simp⟩
  subst hletter
  exact hfold

theorem readLength_of_isListed {u : Text} (h : IsListed letter name chars)
    (hname : ';' ∉ name) (hletter : name = letter :: u) (rest : Text) :
    readLength (name ++ ';' :: rest) = (name ++ [';']).length := by
  have hmem : (name, chars) ∈ namedCharactersAt letter :=
    (List.mem_filter.1 (h.2 ▸ List.mem_singleton.2 rfl)).1
  have hself := commonLength_append_self (name ++ [';']) rest
  rw [List.append_assoc, List.singleton_append] at hself
  have hfold : (spellings letter).foldl
      (fun n entry => max n (commonLength entry.1 (name ++ ';' :: rest))) 0 =
        (name ++ [';']).length := by
    refine foldl_max (f := fun entry : Text × Text =>
      commonLength entry.1 (name ++ ';' :: rest)) ?_ (Nat.zero_le _)
      (Or.inl ⟨_, mem_spellings_of_mem hmem, hself⟩)
    intro entry hentry
    obtain ⟨htake, hle⟩ := commonLength_le entry.1 (name ++ ';' :: rest)
    generalize commonLength entry.1 (name ++ ';' :: rest) = k at htake hle
    by_cases hk : k ≤ (name ++ [';']).length
    · exact hk
    · have hsplit : (name ++ ';' :: rest).take k =
          name ++ ';' :: rest.take (k - (name ++ [';']).length) := by
        rw [List.append_cons, List.take_append, List.take_of_length_le (by omega),
          List.append_assoc, List.singleton_append]
      have hbegins : name ++ ';' :: rest.take (k - (name ++ [';']).length) <+: entry.1 := by
        rw [← hsplit, ← htake]
        exact List.take_prefix _ _
      obtain ⟨hentry', hnil⟩ := spelling_of_isListed h hname hentry hbegins
      rw [hentry'] at hle
      exact hle
  subst hletter
  exact hfold

/-! ## Written references -/

/-- What is left to read behind a reference: a carriage return there is lost. -/
def behindReference : Text → Text
  | '\r' :: rest => rest
  | rest => rest

theorem behindReference_of_head? (h : rest.head? ≠ some '\r') : behindReference rest = rest := by
  unfold behindReference
  split
  · exact absurd rfl h
  · rfl

theorem length_behindReference_le (rest : Text) : (behindReference rest).length ≤ rest.length := by
  unfold behindReference
  split
  · exact Nat.le_succ _
  · exact Nat.le_refl _

theorem reference_of_isListed {u : Text} (h : IsListed letter name chars) (hname : ';' ∉ name)
    (hletter : name = letter :: u) (halpha : Text.isAsciiAlphanumeric letter = true)
    (rest : Text) :
    reference inAttribute (name ++ ';' :: rest) = (chars, behindReference rest) := by
  have hafter : afterName (name ++ [';']).length (name ++ [';']).length (name ++ ';' :: rest) =
      behindReference rest := by
    have hdrop : (name ++ ';' :: rest).drop (name ++ [';']).length = rest := by
      rw [List.append_cons name ';' rest, List.drop_left]
    rw [afterName, hdrop]
    split
    next => exact if_pos rfl
    next hother =>
      exact (behindReference_of_head? fun h => (List.head?_eq_some_iff.1 h).elim hother).symm
  have hclosed : (name ++ [';']).getLast? = some ';' := List.getLast?_concat ..
  have hnamed : namedReference inAttribute (name ++ ';' :: rest) =
      (chars, behindReference rest) := by
    rw [namedReference, longestName?_of_isListed h hname hletter,
      readLength_of_isListed h hname hletter]
    simp only [hclosed, not_true_eq_false, false_and, and_false, if_false, hafter]
  have hfirst : ¬(letter = '\t' ∨ letter = '\n' ∨ letter = '\x0c' ∨ letter = ' ' ∨ letter = '<' ∨
      letter = '&') := by
    rintro (rfl | rfl | rfl | rfl | rfl | rfl) <;> exact absurd halpha (by decide)
  rw [← hnamed, hletter, List.cons_append, reference]
  · rw [if_neg hfirst]
  · rintro rfl
    exact absurd halpha (by decide)

section

set_option maxRecDepth 10000

theorem isListed_amp : IsListed 'a' "amp".toList ['&'] :=
  isListed_of_line rfl rfl (by decide) (by decide)

theorem isListed_lt : IsListed 'l' "lt".toList ['<'] :=
  isListed_of_line rfl rfl (by decide) (by decide)

theorem isListed_gt : IsListed 'g' "gt".toList ['>'] :=
  isListed_of_line rfl rfl (by decide) (by decide)

theorem isListed_nbsp : IsListed 'n' "nbsp".toList ['\u00A0'] :=
  isListed_of_line rfl rfl (by decide) (by decide)

theorem isListed_quot : IsListed 'q' "quot".toList ['"'] :=
  isListed_of_line rfl rfl (by decide) (by decide)

end

/-! ## Decoding -/

theorem decode_cons_of_ne (hamp : c ≠ '&') (hreturn : c ≠ '\r') (t : Text) :
    decode inAttribute (c :: t) = c :: decode inAttribute t := by
  rw [decode]
  · exact hamp
  · intro u hc
    exact absurd hc hreturn
  · exact hreturn

theorem decode_of_isListed {u : Text} (h : IsListed letter name chars) (hname : ';' ∉ name)
    (hletter : name = letter :: u) (halpha : Text.isAsciiAlphanumeric letter = true)
    (rest : Text) :
    decode inAttribute ('&' :: (name ++ ';' :: rest)) =
      chars ++ decode inAttribute (behindReference rest) := by
  have hlength := length_behindReference_le rest
  rw [decode]
  simp only [reference_of_isListed h hname hletter halpha]
  rw [dif_pos (by simp only [List.length_append, List.length_cons]; omega)]

/-- A way of writing characters that decoding undoes for one of them. -/
def Undone (inAttribute : Bool) (escape : Char → Text) (c : Char) : Prop :=
  (escape c = [c] ∨ (escape c).head? = some '&') ∧
    ∀ rest : Text, rest.head? ≠ some '\r' →
      decode inAttribute (escape c ++ rest) = c :: decode inAttribute rest

theorem decode_reference_append (h : (written, c) ∈ writtenReferences) (rest : Text) :
    decode inAttribute (written ++ rest) = c :: decode inAttribute (behindReference rest) := by
  simp only [writtenReferences, List.mem_cons, List.not_mem_nil, or_false, Prod.mk.injEq] at h
  rcases h with ⟨rfl, rfl⟩ | ⟨rfl, rfl⟩ | ⟨rfl, rfl⟩ | ⟨rfl, rfl⟩ | ⟨rfl, rfl⟩
  · exact decode_of_isListed isListed_amp (by decide) rfl (by decide) rest
  · exact decode_of_isListed isListed_lt (by decide) rfl (by decide) rest
  · exact decode_of_isListed isListed_gt (by decide) rfl (by decide) rest
  · exact decode_of_isListed isListed_quot (by decide) rfl (by decide) rest
  · exact decode_of_isListed isListed_nbsp (by decide) rfl (by decide) rest

theorem undone_of_writes (h : Writes (escape c) c) (hc : c ≠ '\r') :
    Undone inAttribute escape c := by
  unfold Undone
  generalize escape c = written at h
  cases h with
  | reference h =>
    refine ⟨Or.inr ?_, fun rest hrest => ?_⟩
    · obtain ⟨name, rfl, -⟩ := exists_name_of_mem h
      rfl
    · rw [decode_reference_append h, behindReference_of_head? hrest]
  | plain hamp => exact ⟨Or.inl rfl, fun rest _ => decode_cons_of_ne hamp hc rest⟩

/-- Decoding undoes what is written character by character. -/
theorem decode_flatMap (hescape : ∀ c, c ≠ '\r' → Undone inAttribute escape c)
    (h : '\r' ∉ t) : decode inAttribute (t.flatMap escape) = t := by
  have hhead : ∀ u : Text, '\r' ∉ u → (u.flatMap escape).head? ≠ some '\r' := by
    intro u hu
    cases u with
    | nil => simp
    | cons d u =>
      rw [List.mem_cons, not_or] at hu
      rw [List.flatMap_cons]
      rcases (hescape d (Ne.symm hu.1)).1 with hd | hd
      · rw [hd]
        simpa using Ne.symm hu.1
      · rw [List.head?_append, hd]
        simp
  induction t with
  | nil => simp [decode]
  | cons c t ih =>
    rw [List.mem_cons, not_or] at h
    rw [List.flatMap_cons, (hescape c (Ne.symm h.1)).2 _ (hhead t h.2), ih h.2]

/-! ## Carriage returns -/

theorem exists_behindReference_flatMap (hescape : ∀ c, Writes (escape c) c) (t : Text) :
    ∃ u : Text, u.length ≤ t.length ∧
      behindReference (t.flatMap escape) = u.flatMap escape := by
  by_cases h : (t.flatMap escape).head? = some '\r'
  · obtain ⟨rest, hrest⟩ := List.head?_eq_some_iff.1 h
    obtain ⟨u, rfl, hu⟩ := exists_of_flatMap_eq_cons hescape (by decide) hrest
    exact ⟨u, Nat.le_succ _, by rw [hrest, behindReference, hu]⟩
  · exact ⟨t, Nat.le_refl _, behindReference_of_head? h⟩

theorem exists_decode_return_flatMap (inAttribute : Bool) (hescape : ∀ c, Writes (escape c) c)
    (t : Text) :
    ∃ u : Text, u.length ≤ t.length ∧
      decode inAttribute ('\r' :: t.flatMap escape) =
        '\n' :: decode inAttribute (u.flatMap escape) := by
  by_cases h : (t.flatMap escape).head? = some '\n'
  · obtain ⟨rest, hrest⟩ := List.head?_eq_some_iff.1 h
    obtain ⟨u, rfl, hu⟩ := exists_of_flatMap_eq_cons hescape (by decide) hrest
    exact ⟨u, Nat.le_succ _, by rw [hrest, decode, hu]⟩
  · refine ⟨t, Nat.le_refl _, ?_⟩
    rw [decode]
    intro rest hrest
    rw [hrest] at h
    exact h rfl

/-- No carriage return is read: it becomes a line feed, or it is lost behind a reference. -/
theorem return_not_mem_decode_flatMap (hescape : ∀ c, Writes (escape c) c) (t : Text) :
    '\r' ∉ decode inAttribute (t.flatMap escape) := by
  -- By the length of the text: with a reference, or a return, the character behind it may be read
  -- too.
  induction hlength : t.length using Nat.strongRecOn generalizing t with
  | ind n ih =>
    have hshorter (u : Text) (hu : u.length < t.length) :
        '\r' ∉ decode inAttribute (u.flatMap escape) := ih u.length (hlength ▸ hu) u rfl
    cases t with
    | nil => simp [decode]
    | cons c t =>
      rw [List.flatMap_cons]
      have hwrites := hescape c
      generalize escape c = written at hwrites
      cases hwrites with
      | reference h =>
        have hc : ∀ entry ∈ writtenReferences, '\r' ≠ entry.2 := by decide
        obtain ⟨u, hu, hbehind⟩ := exists_behindReference_flatMap hescape t
        rw [decode_reference_append h, hbehind]
        exact List.not_mem_cons_of_ne_of_not_mem (hc _ h) (hshorter u (Nat.lt_succ_of_le hu))
      | plain hamp =>
        by_cases hc : c = '\r'
        · subst hc
          obtain ⟨u, hu, hdecode⟩ := exists_decode_return_flatMap inAttribute hescape t
          rw [List.singleton_append, hdecode]
          exact List.not_mem_cons_of_ne_of_not_mem (by decide) (hshorter u (Nat.lt_succ_of_le hu))
        · rw [List.singleton_append, decode_cons_of_ne hamp hc]
          exact List.not_mem_cons_of_ne_of_not_mem (Ne.symm hc) (hshorter t (Nat.lt_succ_self _))

/-- What is written is read as the text exactly if that has no carriage return. -/
theorem decode_flatMap_eq_self_iff (hescape : ∀ c, Writes (escape c) c) :
    decode inAttribute (t.flatMap escape) = t ↔ '\r' ∉ t := by
  constructor
  · intro h
    rw [← h]
    exact return_not_mem_decode_flatMap hescape t
  · exact decode_flatMap fun c => undone_of_writes (hescape c)

/-- An escaped text without carriage returns is decoded to the text. -/
theorem decode_escapeText (h : '\r' ∉ t) : decode false (escapeText .html t) = t :=
  (decode_flatMap_eq_self_iff writes_escapeTextChar).2 h

/-- An escaped value without carriage returns is decoded to the value. -/
theorem decode_escapeAttribute (h : '\r' ∉ t) : decode true (escapeAttribute .html t) = t :=
  (decode_flatMap_eq_self_iff writes_escapeAttributeChar).2 h

/-! ## Escaping is undone -/

/-- A way of writing texts that one pass over the references undoes. -/
structure Recoverable (write : Text → Text) : Prop where
  /-- Every ampersand starts the reference of a character of the text; before it and behind the
  reference stands what is written for the characters around. -/
  ampersand {v front back : Text} (h : write v = front ++ '&' :: back) :
    ∃ before c after written, (written, c) ∈ writtenReferences ∧
      v = before ++ c :: after ∧ front = write before ∧ '&' :: back = written ++ write after
  /-- Replacing the references gives back the text. -/
  undone (v : Text) : unescape (write v) = v
  /-- What follows has no part in the references. -/
  apart (v rest : Text) : unescape (write v ++ rest) = v ++ unescape rest
  /-- No two texts are written in the same way. -/
  injective : Function.Injective write

theorem recoverable_flatMap (hescape : ∀ c, Writes (escape c) c) :
    Recoverable fun v => v.flatMap escape := by
  have hundone (v : Text) : unescape (v.flatMap escape) = v := by
    have happend := unescape_flatMap_append hescape v []
    rwa [unescape_nil, List.append_nil, List.append_nil] at happend
  exact
    { ampersand := exists_of_flatMap_eq_append hescape
      undone := hundone
      apart := unescape_flatMap_append hescape
      injective := Function.LeftInverse.injective hundone }

/-- No mark of a tag is left in an escaped text and no quote in an escaped value, and one pass over
the references gives back both. Reading them with all the references of HTML gives the same, but for
carriage returns, which it never gives. -/
theorem unescape_escape (v : Text) :
    '<' ∉ escapeText .html v ∧ '>' ∉ escapeText .html v ∧ '"' ∉ escapeAttribute .html v ∧
      Recoverable (escapeText .html) ∧ Recoverable (escapeAttribute .html) ∧
      (decode false (escapeText .html v) = v ↔ '\r' ∉ v) ∧
      (decode true (escapeAttribute .html v) = v ↔ '\r' ∉ v) :=
  ⟨not_mem_flatMap writes_escapeTextChar (by decide) (by decide) v,
    not_mem_flatMap writes_escapeTextChar (by decide) (by decide) v,
    not_mem_flatMap writes_escapeAttributeChar (by decide) (by decide) v,
    recoverable_flatMap writes_escapeTextChar, recoverable_flatMap writes_escapeAttributeChar,
    decode_flatMap_eq_self_iff writes_escapeTextChar,
    decode_flatMap_eq_self_iff writes_escapeAttributeChar⟩

/-- A text that looks escaped: a reference with the end of another behind it, the start of a
reference with a mark in it, and the other characters that are written as references. -/
def referenceLike : Text := "&amp;lt;&am<p;\">\u00A0".toList

/-- The sample is escaped once more and comes out as it was, with its own references in it. What is
in front of its second ampersand is what stands for the text in front of that, and the end of a
reference behind it as a value stays what it is. -/
theorem unescape_escape_referenceLike :
    escapeText .html referenceLike = "&amp;amp;lt;&amp;am&lt;p;\"&gt;&nbsp;".toList ∧
      '<' ∉ escapeText .html referenceLike ∧ '>' ∉ escapeText .html referenceLike ∧
      '"' ∉ escapeAttribute .html referenceLike ∧
      (∃ before c after written, (written, c) ∈ writtenReferences ∧
        referenceLike = before ++ c :: after ∧
        "&amp;amp;lt;".toList = escapeText .html before ∧
        "&amp;am&lt;p;\"&gt;&nbsp;".toList = written ++ escapeText .html after) ∧
      unescape "&amp;amp;lt;&amp;am&lt;p;\"&gt;&nbsp;".toList = referenceLike ∧
      unescape (escapeAttribute .html referenceLike ++ "lt;".toList) =
        referenceLike ++ unescape "lt;".toList ∧
      escapeText .html "&lt;".toList ≠ escapeText .html "<".toList ∧
      decode false (escapeText .html referenceLike) = referenceLike ∧
      decode true (escapeAttribute .html referenceLike) = referenceLike := by
  obtain ⟨hlt, hgt, hquote, htext, hvalue, hread, hreadValue⟩ := unescape_escape referenceLike
  have hwritten : escapeText .html referenceLike =
      "&amp;amp;lt;&amp;am&lt;p;\"&gt;&nbsp;".toList := by decide
  refine ⟨hwritten, hlt, hgt, hquote, htext.ampersand hwritten, ?_, hvalue.apart _ _,
    htext.injective.ne (by decide), hread.2 (by decide), hreadValue.2 (by decide)⟩
  rw [← hwritten]
  exact htext.undone _

end Html

end PrettyPayload
