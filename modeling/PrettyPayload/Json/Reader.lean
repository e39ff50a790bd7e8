import PrettyPayload.Json.Quoted
import PrettyPayload.Json.Value

/-!
# Reading JSON

A text is first cut into tokens. These are then read one by one with a stack of the arrays and
objects that are open, so that what may come next is seen from the state alone. At most 127 arrays
and objects may be open at a time.

An object whose first key is `numberKey` stands for the number that the string behind it spells. It
has no other member.
-/

namespace PrettyPayload

namespace Json

/-! ## Tokens -/

inductive Token where
  | openArray
  | closeArray
  | openObject
  | closeObject
  | comma
  | colon
  | null
  | bool (b : Bool)
  | number (n : Number)
  | string (t : Text)
  deriving DecidableEq, Repr

/-- White space of JSON: space, tab, line feed and carriage return. -/
def isSpace (c : Char) : Bool := c = ' ' || c = '\t' || c = '\n' || c = '\r'

def marks : List (Char × Token) :=
  [('[', .openArray), (']', .closeArray), ('{', .openObject), ('}', .closeObject), (',', .comma),
    (':', .colon)]

def words : List (Text × Token) :=
  [("null".toList, .null), ("true".toList, .bool true), ("false".toList, .bool false)]

def word? (t : Text) : Option (Token × Text) :=
  words.findSome? fun (word, token) => (Text.dropPrefix? word t).map (token, ·)

def token? (c : Char) (t : Text) : Option (Token × Text) :=
  match marks.lookup c with
  | some mark => some (mark, t)
  | none =>
    if c = '"' then (decode? t).map fun (s, rest) => (.string s, rest)
    else
      match word? (c :: t) with
      | some found => some found
      | none => (Number.read? (c :: t)).map fun (n, rest) => (.number n, rest)

theorem length_of_word? {c : Char} {t rest : Text} {token : Token}
    (h : word? (c :: t) = some (token, rest)) : rest.length ≤ t.length := by
  obtain ⟨⟨word, tok⟩, hm, hd⟩ := List.exists_of_findSome?_eq_some h
  obtain ⟨r, hr, he⟩ := Option.map_eq_some_iff.1 hd
  obtain ⟨-, rfl⟩ := Prod.mk.inj he
  have hl := congrArg List.length (Text.dropPrefix?_eq_some_iff.1 hr)
  rw [List.length_append, List.length_cons] at hl
  have : 0 < word.length := by
    simp only [words, List.mem_cons, Prod.mk.injEq, List.not_mem_nil, or_false] at hm
    rcases hm with ⟨rfl, -⟩ | ⟨rfl, -⟩ | ⟨rfl, -⟩ <;> decide
  omega

theorem length_of_token? {c : Char} {t rest : Text} {token : Token}
    (h : token? c t = some (token, rest)) : rest.length ≤ t.length := by
  unfold token? at h
  split at h
  · obtain ⟨-, rfl⟩ := Prod.mk.inj (Option.some.inj h)
    exact Nat.le_refl _
  · split at h
    · obtain ⟨⟨s, r⟩, hd, he⟩ := Option.map_eq_some_iff.1 h
      obtain ⟨-, rfl⟩ := Prod.mk.inj he
      exact Nat.le_of_lt (length_of_decode? hd)
    · split at h
      next found hw =>
        obtain rfl := Option.some.inj h
        exact length_of_word? hw
      next =>
        obtain ⟨⟨n, r⟩, hn, he⟩ := Option.map_eq_some_iff.1 h
        obtain ⟨-, rfl⟩ := Prod.mk.inj he
        have := Number.length_of_read? hn
        simp only [List.length_cons] at this; omega

def tokens? : Text → Option (List Token)
  | [] => some []
  | c :: t =>
    if isSpace c then tokens? t
    else
      match _h : token? c t with
      | some (token, rest) => (tokens? rest).map (token :: ·)
      | none => none
termination_by t => t.length
decreasing_by
  · simp
  · have := length_of_token? _h
    simp only [List.length_cons]; omega

/-! ## Values -/

/-- An array or object that is open, and what it holds so far. -/
inductive Frame where
  /-- An array; its latest item comes first. -/
  | array (items : List Value)
  /-- An object, and the key whose value is to come. -/
  | object (members : Members) (key : Text)
  deriving Repr

/-- What has been read, and with it what may come next. Frames stand innermost first. -/
inductive State where
  /-- A value has to come. -/
  | value (frames : List Frame)
  /-- An array was opened. -/
  | inArray (frames : List Frame)
  /-- An object was opened. -/
  | inObject (frames : List Frame)
  /-- A comma was read in an object. -/
  | key (members : Members) (frames : List Frame)
  /-- A key was read. -/
  | colon (members : Members) (key : Text) (frames : List Frame)
  /-- An item of an array was read. -/
  | item (items : List Value) (frames : List Frame)
  /-- A member of an object was read. -/
  | member (members : Members) (frames : List Frame)
  /-- The first key of an object was read, and it is the one for numbers. -/
  | numeralColon (frames : List Frame)
  /-- The number of an object that stands for one has to come. -/
  | numeral (frames : List Frame)
  /-- The number of an object that stands for one was read. -/
  | numeralEnd (n : Number) (frames : List Frame)
  /-- The whole value was read. -/
  | done (v : Value)
  deriving Repr

/-- The number of arrays and objects that may be open at a time. -/
def depthLimit : Nat := 127

def numberKey : Text := "$serde_json::private::Number".toList

namespace State

def after (v : Value) : List Frame → State
  | [] => done v
  | .array items :: frames => item (v :: items) frames
  | .object members k :: frames => member (members.insert k v) frames

def begin? (frames : List Frame) : Token → Option State
  | .openArray => if frames.length < depthLimit then some (inArray frames) else none
  | .openObject => if frames.length < depthLimit then some (inObject frames) else none
  | .null => some (after .null frames)
  | .bool b => some (after (.bool b) frames)
  | .number n => some (after (.number n) frames)
  | .string t => some (after (.string t) frames)
  | _ => none

def step? : State → Token → Option State
  | value frames, token => begin? frames token
  | inArray frames, .closeArray => some (after (.array []) frames)
  | inArray frames, token => begin? (.array [] :: frames) token
  | inObject frames, .closeObject => some (after (.object []) frames)
  | inObject frames, .string k =>
    if k = numberKey then some (numeralColon frames) else some (colon [] k frames)
  | key members frames, .string k => some (colon members k frames)
  | colon members k frames, .colon => some (value (.object members k :: frames))
  | item items frames, .comma => some (value (.array items :: frames))
  | item items frames, .closeArray => some (after (.array items.reverse) frames)
  | member members frames, .comma => some (key members frames)
  | member members frames, .closeObject => some (after (.object members) frames)
  | numeralColon frames, .colon => some (numeral frames)
  | numeral frames, .string t => (Number.ofText? t).map fun n => numeralEnd n frames
  | numeralEnd n frames, .closeObject => some (after (.number n) frames)
  | _, _ => none

end State

def parse? (t : Text) : Option Value := do
  let tokens ← tokens? t
  match ← tokens.foldlM State.step? (.value []) with
  | .done v => some v
  | _ => none

end Json

end PrettyPayload
