import PrettyPayload.Json.Printer
import PrettyPayload.Proofs.Json.Legible
import PrettyPayload.Proofs.Json.Quoted
import PrettyPayload.Proofs.Text.Join

/-!
# Values read as they were written

A value is written as its tokens (`Value.tokens`) with white space between them, whichever the
indent and the line ending are. From these tokens the reader makes the value again if it is legible,
and so a legible value is read as it was written (`parse?_pretty`).
-/

namespace PrettyPayload

namespace Json

mutual

def Value.tokens : Value → List Token
  | .null => [.null]
  | .bool b => [.bool b]
  | .number n => [.number n]
  | .string t => [.string t]
  | .array items => .openArray :: (Value.tokensOfItems items).tail ++ [.closeArray]
  | .object members => .openObject :: (Value.tokensOfMembers members).tail ++ [.closeObject]

def Value.tokensOfItems : List Value → List Token
  | [] => []
  | v :: rest => .comma :: (v.tokens ++ Value.tokensOfItems rest)

def Value.tokensOfMembers : List (Text × Value) → List Token
  | [] => []
  | (k, v) :: rest => .comma :: .string k :: .colon :: (v.tokens ++ Value.tokensOfMembers rest)

end

/-! ## From tokens to values -/

namespace State

variable {s next : State} {token : Token} {frames : List Frame} {rest : List Token}

theorem foldlM_cons_of_step? (h : s.step? token = some next) :
    (token :: rest).foldlM step? s = rest.foldlM step? next := by
  rw [List.foldlM_cons, h]
  rfl

/-- A value may start here, inside some frames. -/
def Starts (frames : List Frame) (s : State) : Prop :=
  ∀ token, token ≠ .closeArray → s.step? token = begin? frames token

theorem starts_value (frames : List Frame) : (value frames).Starts frames := fun _ _ => rfl

theorem starts_inArray (frames : List Frame) : (inArray frames).Starts (.array [] :: frames) := by
  intro token htoken
  cases token with
  | closeArray => exact absurd rfl htoken
  | _ => rfl

theorem insert_of_not_mem {members : Members} {key : Text} (v : Value)
    (h : key ∉ members.keys) : Members.insert key v members = members ++ [(key, v)] := by
  induction members with
  | nil => rfl
  | cons m members ih =>
    obtain ⟨k, w⟩ := m
    simp only [Members.keys, List.map_cons, List.mem_cons, not_or] at h
    rw [Members.insert, if_neg (Ne.symm h.1), ih h.2, List.cons_append]

mutual

theorem foldlM_tokens {s : State} {frames : List Frame} (rest : List Token) (hs : s.Starts frames) :
    (v : Value) → v.Legible (room frames) →
      (v.tokens ++ rest).foldlM step? s = rest.foldlM step? (after v frames)
  | .null, _ => foldlM_cons_of_step? (hs .null nofun)
  | .bool b, _ => foldlM_cons_of_step? (hs (.bool b) nofun)
  | .number n, _ => foldlM_cons_of_step? (hs (.number n) nofun)
  | .string t, _ => foldlM_cons_of_step? (hs (.string t) nofun)
  | .array items, h => by
    have hopen : s.step? .openArray = some (inArray frames) := by
      rw [hs .openArray nofun, begin?, if_pos (Nat.lt_of_sub_pos h.1)]
    rw [Value.tokens, List.cons_append, List.cons_append, foldlM_cons_of_step? hopen]
    cases items with
    | nil => exact foldlM_cons_of_step? rfl
    | cons v items =>
      have hv : v.Legible (room (.array [] :: frames)) := by
        rw [room_cons]
        exact h.2.1
      have hclose : (item (items.reverse ++ [v]) frames).step? .closeArray =
          some (after (.array (v :: items)) frames) := by
        simp [step?]
      rw [Value.tokensOfItems, List.tail_cons, List.append_assoc, List.append_assoc,
        foldlM_tokens _ (starts_inArray frames) v hv, after,
        foldlM_tokensOfItems [v] _ items h.1 h.2.2, List.singleton_append,
        foldlM_cons_of_step? hclose]
  | .object members, h => by
    have hopen : s.step? .openObject = some (inObject frames) := by
      rw [hs .openObject nofun, begin?, if_pos (Nat.lt_of_sub_pos h.1)]
    rw [Value.tokens, List.cons_append, List.cons_append, foldlM_cons_of_step? hopen]
    cases members with
    | nil => exact foldlM_cons_of_step? rfl
    | cons m members =>
      obtain ⟨k, v⟩ := m
      obtain ⟨hroom, hproper, hmember, hmembers⟩ := h
      have hkey : (inObject frames).step? (.string k) = some (colon [] k frames) := by
        rw [step?, if_neg fun hk => hproper.head? (congrArg some hk)]
      have hcolon : (colon [] k frames).step? .colon = some (value (.object [] k :: frames)) := rfl
      have hv : v.Legible (room (.object [] k :: frames)) := by
        rw [room_cons]
        exact hmember
      have hclose : (member ((k, v) :: members) frames).step? .closeObject =
          some (after (.object ((k, v) :: members)) frames) := rfl
      rw [Value.tokensOfMembers, List.tail_cons, List.cons_append, List.cons_append,
        foldlM_cons_of_step? hkey, List.cons_append, List.cons_append,
        foldlM_cons_of_step? hcolon, List.append_assoc, List.append_assoc,
        foldlM_tokens _ (starts_value _) v hv, after, Members.insert,
        foldlM_tokensOfMembers [(k, v)] _ members hproper.nodup hmembers, List.singleton_append,
        List.singleton_append, foldlM_cons_of_step? hclose]

theorem foldlM_tokensOfItems {frames : List Frame} (items : List Value) (rest : List Token) :
    (more : List Value) → 0 < room frames → Value.LegibleItems (room frames - 1) more →
      (Value.tokensOfItems more ++ rest).foldlM step? (item items frames) =
        rest.foldlM step? (item (more.reverse ++ items) frames)
  | [], _, _ => rfl
  | v :: more, hroom, h => by
    have hcomma : (item items frames).step? .comma = some (value (.array items :: frames)) := rfl
    have hv : v.Legible (room (.array items :: frames)) := by
      rw [room_cons]
      exact h.1
    rw [Value.tokensOfItems, List.cons_append, foldlM_cons_of_step? hcomma, List.append_assoc,
      foldlM_tokens _ (starts_value _) v hv, after,
      foldlM_tokensOfItems (v :: items) rest more hroom h.2]
    simp

theorem foldlM_tokensOfMembers {frames : List Frame} (members : Members) (rest : List Token) :
    (more : List (Text × Value)) → (Members.keys (members ++ more)).Nodup →
      Value.LegibleMembers (room frames - 1) more →
      (Value.tokensOfMembers more ++ rest).foldlM step? (member members frames) =
        rest.foldlM step? (member (members ++ more) frames)
  | [], _, _ => by rw [Value.tokensOfMembers, List.nil_append, List.append_nil]
  | (k, v) :: more, hkeys, h => by
    have hcomma : (member members frames).step? .comma = some (key members frames) := rfl
    have hkey : (key members frames).step? (.string k) = some (colon members k frames) := rfl
    have hcolon : (colon members k frames).step? .colon =
        some (value (.object members k :: frames)) := rfl
    have hv : v.Legible (room (.object members k :: frames)) := by
      rw [room_cons]
      exact h.1
    have hnew : k ∉ Members.keys members := by
      intro hk
      rw [Members.keys, List.map_append, List.nodup_append] at hkeys
      exact hkeys.2.2 k hk k List.mem_cons_self rfl
    have hmore : (Members.keys (members ++ [(k, v)] ++ more)).Nodup := by
      rw [List.append_assoc, List.singleton_append]
      exact hkeys
    rw [Value.tokensOfMembers, List.cons_append, List.cons_append, List.cons_append,
      foldlM_cons_of_step? hcomma, foldlM_cons_of_step? hkey, foldlM_cons_of_step? hcolon,
      List.append_assoc, foldlM_tokens _ (starts_value _) v hv, after,
      insert_of_not_mem v hnew, foldlM_tokensOfMembers (members ++ [(k, v)]) rest more hmore h.2,
      List.append_assoc, List.singleton_append]

end

end State

/-! ## From texts to tokens -/

/-- A text is read as some tokens wherever nothing follows that a number could go on with. -/
def Spells (t : Text) (tokens : List Token) : Prop :=
  ∀ rest, Number.Ends rest → tokens? (t ++ rest) = (tokens? rest).map (tokens ++ ·)

/-- A number ends before a text, and before what follows it if the text is empty. -/
def Parts (t : Text) : Prop := ∀ rest, Number.Ends rest → Number.Ends (t ++ rest)

section

variable {s t rest : Text} {as bs : List Token} {c : Char} {token : Token}

theorem Spells.tokens?_eq (h : Spells t as) : tokens? t = some as := by
  have hnil : tokens? [] = some [] := by rw [tokens?]
  have hread := h [] Number.ends_nil
  rw [List.append_nil, hnil] at hread
  rw [hread, Option.map_some, List.append_nil]

theorem Spells.nil : Spells [] [] := by
  intro rest hr
  simp

theorem Spells.append (hs : Spells s as) (ht : Spells t bs) (hparts : Parts t) :
    Spells (s ++ t) (as ++ bs) := by
  intro rest hr
  rw [List.append_assoc, hs _ (hparts rest hr), ht rest hr, Option.map_map]
  simp [Function.comp_def]

theorem parts_nil : Parts [] := fun _ hr => hr

theorem parts_cons (h : isDigit c = false ∧ c ≠ '.' ∧ c ≠ 'e' ∧ c ≠ 'E') (t : Text) :
    Parts (c :: t) := by
  intro rest hr d hd
  obtain rfl := Option.some.inj hd
  exact h

/-! ### Tokens -/

theorem tokens?_cons_of_token? (hc : isSpace c = false) (h : token? c t = some (token, rest)) :
    tokens? (c :: t) = (tokens? rest).map (token :: ·) := by
  rw [tokens?, if_neg (by simp [hc])]
  split
  next found u hfound =>
    obtain ⟨rfl, rfl⟩ := Prod.mk.inj (Option.some.inj (hfound.symm.trans h))
    rfl
  next hnone => rw [h] at hnone; cases hnone

theorem spells_mark (hc : isSpace c = false) (h : marks.lookup c = some token) :
    Spells [c] [token] := by
  intro rest hr
  rw [List.singleton_append]
  exact tokens?_cons_of_token? hc (by rw [token?, h])

theorem spells_encode (s : Text) : Spells (encode s) [.string s] := by
  intro rest hr
  have hmark : marks.lookup '"' = none := by decide
  have htoken : token? '"' (s.flatMap encodeChar ++ '"' :: rest) = some (.string s, rest) := by
    rw [token?, hmark]
    dsimp only
    rw [if_pos rfl, decode?_encode]
    rfl
  rw [encode, List.cons_append, List.cons_append, List.append_assoc, List.singleton_append,
    tokens?_cons_of_token? (by decide) htoken]
  rfl

theorem spells_word (hc : isSpace c = false ∧ c ≠ '"' ∧ marks.lookup c = none)
    (h : ∀ rest, word? (c :: (t ++ rest)) = some (token, rest)) : Spells (c :: t) [token] := by
  intro rest hr
  rw [List.cons_append]
  refine tokens?_cons_of_token? hc.1 ?_
  rw [token?, hc.2.2]
  dsimp only
  rw [if_neg hc.2.1, h rest]

theorem exists_write_eq_cons {n : Number} (h : n.Proper) :
    ∃ c t, n.write = c :: t ∧ (c = '-' ∨ isDigit c = true) := by
  obtain ⟨c, t, ht⟩ := List.exists_cons_of_ne_nil h.isDigits_whole.1
  cases hn : n.negative with
  | true => exact ⟨'-', _, by simp [Number.write, hn]; rfl, Or.inl rfl⟩
  | false =>
    refine ⟨c, _, by simp [Number.write, hn, ht]; rfl, Or.inr ?_⟩
    exact h.isDigits_whole.2 c (by simp [ht])

theorem ne_of_starts_number (h : c = '-' ∨ isDigit c = true) {d : Char} (hd : d ≠ '-')
    (hdigit : isDigit d = false) : c ≠ d := by
  rcases h with rfl | h
  · exact hd.symm
  · exact Text.ne_of_class h hdigit

theorem token?_of_starts_number (h : c = '-' ∨ isDigit c = true) (t : Text) :
    isSpace c = false ∧
      token? c t = (Number.read? (c :: t)).map fun read => (.number read.1, read.2) := by
  have hne (d : Char) : d ≠ '-' ∧ isDigit d = false → c ≠ d :=
    fun hd => ne_of_starts_number h hd.1 hd.2
  have hmark : marks.lookup c = none := by
    have hall : ∀ p ∈ marks, p.1 ≠ '-' ∧ isDigit p.1 = false := by decide
    refine List.lookup_eq_none_iff.2 ?_
    intro p hp
    exact bne_iff_ne.2 (hne p.1 (hall p hp))
  have hword : word? (c :: t) = none := by
    have hall : ∀ p ∈ words, ∃ a u, p.1 = a :: u ∧ a ≠ '-' ∧ isDigit a = false := by
      simp only [words, List.forall_mem_cons]
      exact ⟨⟨_, _, rfl, by decide⟩, ⟨_, _, rfl, by decide⟩, ⟨_, _, rfl, by decide⟩,
        List.forall_mem_nil _⟩
    refine List.findSome?_eq_none_iff.2 ?_
    intro word hp
    obtain ⟨a, u, hau, ha⟩ := hall _ hp
    dsimp only at hau ⊢
    rw [hau, Text.dropPrefix?, if_neg (hne a ha).symm]
    rfl
  constructor
  · simp only [isSpace, Bool.or_eq_false_iff, decide_eq_false_iff_not]
    exact ⟨⟨⟨hne _ (by decide), hne _ (by decide)⟩, hne _ (by decide)⟩, hne _ (by decide)⟩
  · rw [token?, hmark]
    dsimp only
    rw [if_neg (hne _ (by decide)), hword]

theorem spells_number {n : Number} (h : n.Proper) : Spells n.write [.number n] := by
  intro rest hr
  obtain ⟨c, t, ht, hc⟩ := exists_write_eq_cons h
  have hread := Number.read?_write_append h hr
  rw [ht, List.cons_append] at hread ⊢
  obtain ⟨hspace, htoken⟩ := token?_of_starts_number hc (t ++ rest)
  rw [hread] at htoken
  exact tokens?_cons_of_token? hspace htoken

/-! ### Gaps -/

/-- White space, at least one character. -/
def IsGap (t : Text) : Prop := t ≠ [] ∧ ∀ c ∈ t, isSpace c = true

theorem tokens?_append_of_spaces (h : ∀ c ∈ s, isSpace c = true) (rest : Text) :
    tokens? (s ++ rest) = tokens? rest := by
  induction s with
  | nil => rfl
  | cons c s ih =>
    rw [List.forall_mem_cons] at h
    rw [List.cons_append, tokens?, if_pos h.1, ih h.2]

theorem IsGap.spells_append (h : IsGap s) (ht : Spells t as) : Spells (s ++ t) as := by
  intro rest hr
  rw [List.append_assoc, tokens?_append_of_spaces h.2, ht rest hr]

theorem IsGap.parts_append (h : IsGap s) (t : Text) : Parts (s ++ t) := by
  obtain ⟨c, s, rfl⟩ := List.exists_cons_of_ne_nil h.1
  refine parts_cons ?_ _
  have hc := h.2 c List.mem_cons_self
  simp only [isSpace, Bool.or_eq_true, decide_eq_true_eq] at hc
  rcases hc with ((rfl | rfl) | rfl) | rfl <;> decide

end

/-! ## Written values -/

section

variable {newline indent : Text}

/-- The start of a line is a gap, with a line ending in the place of each line feed. -/
theorem isGap_line (hn : IsGap newline) (hi : ∀ c ∈ indent, isSpace c = true) (depth : Nat) :
    IsGap (Text.replaceChar '\n' newline (Value.line indent depth)) := by
  rw [Value.line, Text.replaceChar_cons_self]
  refine ⟨List.append_ne_nil_of_left_ne_nil hn.1 _, ?_⟩
  intro c hc
  rcases List.mem_append.1 hc with hc | hc
  · exact hn.2 c hc
  · rcases Text.mem_replaceChar hc with hc | hc
    · exact hn.2 c hc
    · exact Text.forall_mem_times depth hi c hc

theorem not_mem_write {n : Number} (h : n.Proper) : '\n' ∉ n.write := by
  have hdigits {t : Text} (ht : IsDigits t) : '\n' ∉ t := by
    intro hmem
    exact absurd (ht.2 _ hmem) (by decide)
  have hfraction : '\n' ∉ (if n.fraction = [] then [] else '.' :: n.fraction) := by
    rcases h.fraction with hnil | hf
    · simp [hnil]
    · simp [hf.1, hdigits hf]
  have hexponent : '\n' ∉ Number.writeExponent n.exponent := by
    cases he : n.exponent with
    | none => simp [Number.writeExponent]
    | some e =>
      obtain ⟨negative, digits⟩ := e
      cases negative <;> simp [Number.writeExponent, hdigits (h.exponent _ _ he)]
  simp only [Number.write, List.mem_append, not_or]
  refine ⟨⟨⟨?_, hdigits h.isDigits_whole⟩, hfraction⟩, hexponent⟩
  cases n.negative <;> decide

/-- Parts between brackets, behind a comma and the start of a line each, with a line ending in the
place of each line feed. -/
def following (newline indent : Text) (depth : Nat) (parts : List Text) : Text :=
  Text.replaceChar '\n' newline (parts.flatMap ((',' :: Value.line indent depth) ++ ·))

theorem following_cons (depth : Nat) (p : Text) (parts : List Text) :
    following newline indent depth (p :: parts) =
      [','] ++ (Text.replaceChar '\n' newline (Value.line indent depth) ++
        (Text.replaceChar '\n' newline p ++ following newline indent depth parts)) := by
  rw [following, List.flatMap_cons, Text.replaceChar_append, Text.replaceChar_append,
    Text.replaceChar_cons_of_ne newline (by decide), ← following, List.cons_append,
    List.cons_append, List.append_assoc, List.singleton_append]

theorem parts_following (depth : Nat) (parts : List Text) :
    Parts (following newline indent depth parts) := by
  cases parts with
  | nil => exact parts_nil
  | cons p parts =>
    rw [following_cons]
    exact parts_cons (by decide) _

theorem spells_following_cons {as bs : List Token} {p : Text} {parts : List Text} {depth : Nat}
    (hn : IsGap newline) (hi : ∀ c ∈ indent, isSpace c = true)
    (hp : Spells (Text.replaceChar '\n' newline p) as)
    (hparts : Spells (following newline indent depth parts) bs) :
    Spells (following newline indent depth (p :: parts)) (.comma :: (as ++ bs)) := by
  have hgap := isGap_line hn hi depth
  have hcomma : Spells [','] [.comma] := spells_mark (by decide) rfl
  rw [following_cons]
  exact hcomma.append (hgap.spells_append (hp.append hparts (parts_following depth parts)))
    (hgap.parts_append _)

theorem spells_enclose {as bs : List Token} {p : Text} {parts : List Text} {depth : Nat}
    {opening closing : Char} {first last : Token}
    (hn : IsGap newline) (hi : ∀ c ∈ indent, isSpace c = true)
    (hopening : opening ≠ '\n' ∧ Spells [opening] [first])
    (hclosing : closing ≠ '\n' ∧ Spells [closing] [last])
    (hp : Spells (Text.replaceChar '\n' newline p) as)
    (hparts : Spells (following newline indent (depth + 1) parts) bs) :
    Spells
      (Text.replaceChar '\n' newline
        (Value.enclose indent depth opening closing (p :: parts)))
      (first :: (as ++ bs) ++ [last]) := by
  have hinner := isGap_line hn hi (depth + 1)
  have houter := isGap_line hn hi depth
  have hwrite : Text.replaceChar '\n' newline
        (Value.enclose indent depth opening closing (p :: parts)) =
      [opening] ++ (Text.replaceChar '\n' newline (Value.line indent (depth + 1)) ++
        (Text.replaceChar '\n' newline p ++ (following newline indent (depth + 1) parts ++
          (Text.replaceChar '\n' newline (Value.line indent depth) ++ [closing])))) := by
    simp only [Value.enclose, Text.joinWith_cons, Text.replaceChar_append, List.append_assoc,
      List.cons_append, Text.replaceChar_cons_of_ne newline hopening.1,
      Text.replaceChar_cons_of_ne newline hclosing.1, Text.replaceChar_nil, following,
      List.nil_append]
  have htokens : first :: (as ++ bs) ++ [last] = [first] ++ (as ++ (bs ++ [last])) := by simp
  rw [hwrite, htokens]
  refine hopening.2.append ?_ (hinner.parts_append _)
  refine hinner.spells_append (hp.append ?_ ?_)
  · exact hparts.append (houter.spells_append hclosing.2) (houter.parts_append _)
  · intro rest hr
    rw [List.append_assoc]
    exact parts_following _ parts _ (houter.parts_append _ rest hr)

theorem spells_member {as : List Token} {t : Text} (k : Text)
    (ht : Spells (Text.replaceChar '\n' newline t) as) :
    Spells (Text.replaceChar '\n' newline (encode k ++ [':', ' '] ++ t))
      (.string k :: .colon :: as) := by
  have hcolon : Spells [':'] [.colon] := spells_mark (by decide) rfl
  have hgap : IsGap [' '] := ⟨by decide, Text.forall_mem_of_all (by decide)⟩
  have hmarks : Text.replaceChar '\n' newline [':', ' '] = [':'] ++ [' '] :=
    Text.replaceChar_eq_self newline (by decide)
  rw [Text.replaceChar_append, Text.replaceChar_append, hmarks,
    Text.replaceChar_eq_self newline (not_mem_encode k), List.append_assoc, List.append_assoc]
  exact (spells_encode k).append
    (hcolon.append (hgap.spells_append ht) (hgap.parts_append _)) (parts_cons (by decide) _)

variable (hn : IsGap newline) (hi : ∀ c ∈ indent, isSpace c = true)

include hn hi

mutual

/-- A written value is its tokens, with a line ending in the place of each line feed. -/
theorem spells_write {room : Nat} (depth : Nat) :
    (v : Value) → v.Legible room →
      Spells (Text.replaceChar '\n' newline (v.write indent depth)) v.tokens
  | .null, _ => spells_word (by decide) fun _ => rfl
  | .bool true, _ => spells_word (by decide) fun _ => rfl
  | .bool false, _ => spells_word (by decide) fun _ => rfl
  | .number n, h => by
    rw [Value.write, Text.replaceChar_eq_self newline (not_mem_write h)]
    exact spells_number h
  | .string t, _ => by
    rw [Value.write, Text.replaceChar_eq_self newline (not_mem_encode t)]
    exact spells_encode t
  | .array items, h => by
    have hopening : Spells ['['] [.openArray] := spells_mark (by decide) rfl
    have hclosing : Spells [']'] [.closeArray] := spells_mark (by decide) rfl
    cases items with
    | nil => exact hopening.append hclosing (parts_cons (by decide) _)
    | cons v items =>
      exact spells_enclose hn hi ⟨by decide, hopening⟩ ⟨by decide, hclosing⟩
        (spells_write (depth + 1) v h.2.1) (spells_writeItems (depth + 1) items h.2.2)
  | .object members, h => by
    have hopening : Spells ['\x7b'] [.openObject] := spells_mark (by decide) rfl
    have hclosing : Spells ['\x7d'] [.closeObject] := spells_mark (by decide) rfl
    cases members with
    | nil => exact hopening.append hclosing (parts_cons (by decide) _)
    | cons m members =>
      obtain ⟨k, v⟩ := m
      obtain ⟨-, -, hv, hmembers⟩ := h
      exact spells_enclose hn hi ⟨by decide, hopening⟩ ⟨by decide, hclosing⟩
        (spells_member k (spells_write (depth + 1) v hv))
        (spells_writeMembers (depth + 1) members hmembers)

theorem spells_writeItems {room : Nat} (depth : Nat) :
    (items : List Value) → Value.LegibleItems room items →
      Spells (following newline indent depth (Value.writeItems indent depth items))
        (Value.tokensOfItems items)
  | [], _ => Spells.nil
  | v :: items, h =>
    spells_following_cons hn hi (spells_write depth v h.1) (spells_writeItems depth items h.2)

theorem spells_writeMembers {room : Nat} (depth : Nat) :
    (members : List (Text × Value)) → Value.LegibleMembers room members →
      Spells (following newline indent depth (Value.writeMembers indent depth members))
        (Value.tokensOfMembers members)
  | [], _ => Spells.nil
  | (k, v) :: members, h =>
    spells_following_cons hn hi (spells_member k (spells_write depth v h.1))
      (spells_writeMembers depth members h.2)

end

theorem parse?_pretty {v : Value} (h : v.Legible depthLimit) :
    parse? (Text.replaceChar '\n' newline (v.pretty indent)) = some v := by
  have htokens := (spells_write hn hi 0 v h).tokens?_eq
  have hrun := State.foldlM_tokens [] (State.starts_value []) v h
  rw [List.append_nil] at hrun
  rw [parse?, Value.pretty, htokens]
  simp only [Option.bind_eq_bind, Option.bind_some, hrun]
  rfl

end

end Json

end PrettyPayload
