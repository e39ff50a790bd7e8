import PrettyPayload.Json.Number

/-!
# JSON values

An object keeps its members in the order in which their keys were first given; a key that is given
again replaces the value and keeps its place.
-/

namespace PrettyPayload

namespace Json

inductive Value where
  | null
  | bool (b : Bool)
  | number (n : Number)
  | string (t : Text)
  | array (items : List Value)
  | object (members : List (Text × Value))
  deriving Repr

abbrev Members := List (Text × Value)

namespace Members

/-- Gives a key a value: in its place if it is there, else at the end. -/
def insert (key : Text) (value : Value) : Members → Members
  | [] => [(key, value)]
  | (k, v) :: rest => if k = key then (k, value) :: rest else (k, v) :: insert key value rest

def keys (members : Members) : List Text := members.map Prod.fst

@[simp] theorem keys_nil : keys [] = [] := rfl

theorem mem_keys_insert {key k : Text} {value : Value} {members : Members} :
    k ∈ (insert key value members).keys ↔ k = key ∨ k ∈ members.keys := by
  induction members with
  | nil => simp [insert, keys]
  | cons m rest ih =>
    obtain ⟨k', v⟩ := m
    by_cases h : k' = key
    · subst h; simp [insert, keys]
    · simp only [keys] at ih
      simp only [insert, h, if_false, keys, List.map_cons, List.mem_cons, ih]
      exact or_left_comm

/-- No key comes twice if none did. -/
theorem nodup_keys_insert {key : Text} {value : Value} {members : Members}
    (h : members.keys.Nodup) : (insert key value members).keys.Nodup := by
  induction members with
  | nil => simp [insert, keys]
  | cons m rest ih =>
    obtain ⟨k, v⟩ := m
    obtain ⟨hk, hr⟩ := List.nodup_cons.1 h
    by_cases he : k = key
    · subst he; simpa [insert, keys] using h
    · simp only [insert, he, if_false]
      refine List.nodup_cons.2 ⟨fun hm => ?_, ih hr⟩
      rcases mem_keys_insert.1 hm with hk' | hk'
      · exact he hk'
      · exact hk hk'

end Members

end Json

end PrettyPayload
