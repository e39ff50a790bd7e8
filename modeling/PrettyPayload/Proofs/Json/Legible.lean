import PrettyPayload.Json.Reader
import PrettyPayload.Proofs.Json.Number

/-!
# Values that can be read

Not every value is one that a text spells: numbers have digits, no key of an object comes twice or
starts the object like a number would, and arrays and objects are not nested too deeply. `Legible`
says this of a value. Every value that was read is legible (`legible_of_parse?`), since each token
keeps the reader's state so.
-/

namespace PrettyPayload

namespace Json

/-! ## Definitions -/

/-- Members that an object can have: no key comes twice, and the first is not the one for
numbers. -/
structure Members.Proper (members : Members) : Prop where
  nodup : members.keys.Nodup
  head? : members.keys.head? ≠ some numberKey

mutual

/-- A value that can be read where so many more arrays and objects may be opened. -/
def Value.Legible (room : Nat) : Value → Prop
  | .null => True
  | .bool _ => True
  | .number n => n.Proper
  | .string _ => True
  | .array items => 0 < room ∧ Value.LegibleItems (room - 1) items
  | .object members => 0 < room ∧ Members.Proper members ∧ Value.LegibleMembers (room - 1) members

def Value.LegibleItems (room : Nat) : List Value → Prop
  | [] => True
  | v :: rest => v.Legible room ∧ Value.LegibleItems room rest

def Value.LegibleMembers (room : Nat) : List (Text × Value) → Prop
  | [] => True
  | (_, v) :: rest => v.Legible room ∧ Value.LegibleMembers room rest

end

/-- The arrays and objects that may still be opened inside some frames. -/
def room (frames : List Frame) : Nat := depthLimit - frames.length

def Frame.Legible (outer : List Frame) : Frame → Prop
  | .array items => Value.LegibleItems (room outer - 1) items
  | .object members key =>
    Members.Proper members ∧ Value.LegibleMembers (room outer - 1) members ∧
      (members = [] → key ≠ numberKey)

/-- What was read into frames is legible, and they are not nested too deeply. -/
def FramesLegible : List Frame → Prop
  | [] => True
  | frame :: outer => 0 < room outer ∧ frame.Legible outer ∧ FramesLegible outer

def State.Legible : State → Prop
  | .value frames => FramesLegible frames
  | .inArray frames => 0 < room frames ∧ FramesLegible frames
  | .inObject frames => 0 < room frames ∧ FramesLegible frames
  | .key members frames =>
    0 < room frames ∧ members ≠ [] ∧ Members.Proper members ∧
      Value.LegibleMembers (room frames - 1) members ∧ FramesLegible frames
  | .colon members k frames =>
    0 < room frames ∧ Frame.Legible frames (.object members k) ∧ FramesLegible frames
  | .item items frames =>
    0 < room frames ∧ Value.LegibleItems (room frames - 1) items ∧ FramesLegible frames
  | .member members frames =>
    0 < room frames ∧ members ≠ [] ∧ Members.Proper members ∧
      Value.LegibleMembers (room frames - 1) members ∧ FramesLegible frames
  | .numeralColon frames => FramesLegible frames
  | .numeral frames => FramesLegible frames
  | .numeralEnd n frames => n.Proper ∧ FramesLegible frames
  | .done v => v.Legible depthLimit

def Token.Proper : Token → Prop
  | .number n => n.Proper
  | _ => True

/-! ## Members -/

theorem Members.proper_nil : Members.Proper [] := ⟨List.nodup_nil, nofun⟩

theorem Members.head?_insert (key : Text) (v : Value) (members : Members) :
    (insert key v members).keys.head? =
      if members = [] then some key else members.keys.head? := by
  cases members with
  | nil => rfl
  | cons m rest =>
    obtain ⟨k, w⟩ := m
    by_cases hk : k = key <;> simp [insert, hk, keys]

/-- A new member keeps members proper unless it is the first and has the key for numbers. -/
theorem Members.Proper.insert {members : Members} {key : Text} (h : members.Proper) (v : Value)
    (hkey : members = [] → key ≠ numberKey) : (Members.insert key v members).Proper where
  nodup := nodup_keys_insert h.nodup
  head? := by
    rw [Members.head?_insert]
    split
    next hnil =>
      intro hsome
      exact hkey hnil (Option.some.inj hsome)
    next => exact h.head?

theorem Members.insert_ne_nil (key : Text) (v : Value) (members : Members) :
    Members.insert key v members ≠ [] := by
  cases members with
  | nil => simp [Members.insert]
  | cons m rest =>
    rw [Members.insert]
    split <;> simp

theorem Value.legibleMembers_insert {room : Nat} {v : Value} (key : Text) (hv : v.Legible room) :
    (members : Members) → LegibleMembers room members →
      LegibleMembers room (Members.insert key v members)
  | [], _ => ⟨hv, trivial⟩
  | (k, w) :: rest, h => by
    rw [Members.insert]
    split
    · exact ⟨hv, h.2⟩
    · exact ⟨h.1, legibleMembers_insert key hv rest h.2⟩

theorem Value.legibleItems_iff {room : Nat} {items : List Value} :
    LegibleItems room items ↔ ∀ v ∈ items, v.Legible room := by
  induction items with
  | nil => simp [LegibleItems]
  | cons v rest ih => rw [LegibleItems, ih, List.forall_mem_cons]

/-! ## Steps -/

namespace State

variable {frames : List Frame} {v : Value} {s next : State} {token : Token}

theorem room_cons (frame : Frame) (frames : List Frame) :
    room (frame :: frames) = room frames - 1 := by
  rw [room, room, List.length_cons, Nat.sub_add_eq]

/-- A legible value inside legible frames leaves a legible state. -/
theorem legible_after (hv : v.Legible (room frames)) (h : FramesLegible frames) :
    (after v frames).Legible := by
  cases frames with
  | nil => exact hv
  | cons frame frames =>
    obtain ⟨hroom, hframe, hframes⟩ := h
    rw [room_cons] at hv
    cases frame with
    | array items => exact ⟨hroom, ⟨hv, hframe⟩, hframes⟩
    | object members key =>
      obtain ⟨hproper, hmembers, hkey⟩ := hframe
      exact ⟨hroom, Members.insert_ne_nil key v members, hproper.insert v hkey,
        Value.legibleMembers_insert key hv members hmembers, hframes⟩

theorem legible_begin? (h : FramesLegible frames) (htoken : token.Proper)
    (hbegin : begin? frames token = some next) : next.Legible := by
  unfold begin? at hbegin
  split at hbegin
  next =>
    split at hbegin
    next hlt =>
      obtain rfl := Option.some.inj hbegin
      exact ⟨Nat.sub_pos_of_lt hlt, h⟩
    next => cases hbegin
  next =>
    split at hbegin
    next hlt =>
      obtain rfl := Option.some.inj hbegin
      exact ⟨Nat.sub_pos_of_lt hlt, h⟩
    next => cases hbegin
  next =>
    obtain rfl := Option.some.inj hbegin
    exact legible_after trivial h
  next =>
    obtain rfl := Option.some.inj hbegin
    exact legible_after trivial h
  next n =>
    obtain rfl := Option.some.inj hbegin
    exact legible_after htoken h
  next =>
    obtain rfl := Option.some.inj hbegin
    exact legible_after trivial h
  next => cases hbegin

theorem legible_step? (h : s.Legible) (htoken : token.Proper) (hstep : s.step? token = some next) :
    next.Legible := by
  unfold step? at hstep
  split at hstep
  next => exact legible_begin? h htoken hstep
  next =>
    obtain rfl := Option.some.inj hstep
    exact legible_after ⟨h.1, trivial⟩ h.2
  next =>
    have hframes : FramesLegible (.array [] :: _) := ⟨h.1, trivial, h.2⟩
    exact legible_begin? hframes htoken hstep
  next =>
    obtain rfl := Option.some.inj hstep
    exact legible_after ⟨h.1, Members.proper_nil, trivial⟩ h.2
  next key =>
    split at hstep
    next =>
      obtain rfl := Option.some.inj hstep
      exact h.2
    next hkey =>
      obtain rfl := Option.some.inj hstep
      exact ⟨h.1, ⟨Members.proper_nil, trivial, fun _ => hkey⟩, h.2⟩
  next members frames key =>
    obtain rfl := Option.some.inj hstep
    obtain ⟨hroom, hne, hproper, hmembers, hframes⟩ := h
    exact ⟨hroom, ⟨hproper, hmembers, fun hnil => absurd hnil hne⟩, hframes⟩
  next =>
    obtain rfl := Option.some.inj hstep
    exact h
  next =>
    obtain rfl := Option.some.inj hstep
    exact h
  next items frames =>
    obtain rfl := Option.some.inj hstep
    obtain ⟨hroom, hitems, hframes⟩ := h
    refine legible_after ⟨hroom, Value.legibleItems_iff.2 ?_⟩ hframes
    intro v hv
    exact Value.legibleItems_iff.1 hitems v (List.mem_reverse.1 hv)
  next =>
    obtain rfl := Option.some.inj hstep
    exact h
  next =>
    obtain rfl := Option.some.inj hstep
    obtain ⟨hroom, -, hproper, hmembers, hframes⟩ := h
    exact legible_after ⟨hroom, hproper, hmembers⟩ hframes
  next =>
    obtain rfl := Option.some.inj hstep
    exact h
  next frames t =>
    obtain ⟨n, hn, rfl⟩ := Option.map_eq_some_iff.1 hstep
    unfold Number.ofText? at hn
    split at hn
    next m hm =>
      obtain rfl := Option.some.inj hn
      exact ⟨Number.proper_of_read? hm, h⟩
    next => cases hn
  next =>
    obtain rfl := Option.some.inj hstep
    exact legible_after h.1 h.2
  next => cases hstep

theorem legible_foldlM {tokens : List Token} (h : s.Legible) (htokens : ∀ t ∈ tokens, t.Proper)
    (hrun : tokens.foldlM step? s = some next) : next.Legible := by
  induction tokens generalizing s with
  | nil =>
    obtain rfl := Option.some.inj hrun
    exact h
  | cons token tokens ih =>
    rw [List.foldlM_cons] at hrun
    obtain ⟨middle, hstep, hrest⟩ := Option.bind_eq_some_iff.1 hrun
    rw [List.forall_mem_cons] at htokens
    exact ih (legible_step? h htokens.1 hstep) htokens.2 hrest

end State

/-! ## Tokens -/

theorem proper_of_token? {c : Char} {t rest : Text} {token : Token}
    (h : token? c t = some (token, rest)) : token.Proper := by
  unfold token? at h
  split at h
  next mark hmark =>
    obtain ⟨rfl, -⟩ := Prod.mk.inj (Option.some.inj h)
    obtain ⟨before, behind, hsplit, -⟩ := List.lookup_eq_some_iff.1 hmark
    have hmem : (c, mark) ∈ marks := hsplit ▸ List.mem_append_right before List.mem_cons_self
    have hall : ∀ p ∈ marks, p.2.Proper := by simp [marks, Token.Proper]
    exact hall _ hmem
  next =>
    split at h
    next =>
      obtain ⟨⟨s, u⟩, -, hs⟩ := Option.map_eq_some_iff.1 h
      obtain ⟨rfl, -⟩ := Prod.mk.inj hs
      trivial
    next =>
      split at h
      next found hword =>
        obtain rfl := Option.some.inj h
        obtain ⟨⟨word, token'⟩, hmem, hfound⟩ := List.exists_of_findSome?_eq_some hword
        obtain ⟨u, -, hu⟩ := Option.map_eq_some_iff.1 hfound
        obtain ⟨rfl, -⟩ := Prod.mk.inj hu
        have hall : ∀ p ∈ words, p.2.Proper := by simp [words, Token.Proper]
        exact hall _ hmem
      next =>
        obtain ⟨⟨n, u⟩, hn, hu⟩ := Option.map_eq_some_iff.1 h
        obtain ⟨rfl, -⟩ := Prod.mk.inj hu
        exact Number.proper_of_read? hn

theorem proper_of_tokens? {t : Text} {tokens : List Token} (h : tokens? t = some tokens) :
    ∀ token ∈ tokens, token.Proper := by
  fun_induction tokens? t generalizing tokens with
  | case1 =>
    obtain rfl := Option.some.inj h
    exact nofun
  | case2 c t hspace ih => exact ih h
  | case3 c t hspace token rest htoken ih =>
    obtain ⟨others, hothers, rfl⟩ := Option.map_eq_some_iff.1 h
    exact List.forall_mem_cons.2 ⟨proper_of_token? htoken, ih hothers⟩
  | case4 => cases h

theorem legible_of_parse? {t : Text} {v : Value} (h : parse? t = some v) :
    v.Legible depthLimit := by
  obtain ⟨tokens, htokens, hrun⟩ := Option.bind_eq_some_iff.1 h
  obtain ⟨s, hs, hv⟩ := Option.bind_eq_some_iff.1 hrun
  have hlegible := State.legible_foldlM (s := .value []) trivial (proper_of_tokens? htokens) hs
  split at hv
  next w =>
    obtain rfl := Option.some.inj hv
    exact hlegible
  next => cases hv

end Json

end PrettyPayload
