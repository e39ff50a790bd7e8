import PrettyPayload.Pattern.Lexical
import PrettyPayload.Text.Alphanumeric

/-!
# What opens a group

A parenthesis opens a group that is counted, one with a name, one that switches flags, or it only
switches flags from there on. `opening` tells these apart and reads up to the content of the group.
-/

namespace PrettyPayload

namespace Pattern

/-! ## Names -/

def isGroupNameChar (first : Bool) (c : Char) : Bool :=
  if first then c = '_' || Text.isAlphabetic c
  else c = '_' || c = '.' || c = '[' || c = ']' || Text.isAlphanumeric c

def groupNameFrom (first : Bool) : Text → Except Fault (Text × Text)
  | [] => fail .nameUnfinished .atEnd
  | c :: t =>
    if c = '>' then .ok ([], t)
    else if isGroupNameChar first c then
      (groupNameFrom false t).map fun (name, rest) => (c :: name, rest)
    else fail .nameCharacter (.first (c :: t))

abbrev GroupNames := List (Text × Span)

def groupName (names : GroupNames) (t : Text) : Except Fault ((Text × Span) × Text) := do
  let (name, rest) ← groupNameFrom true t
  let span : Span := ⟨t.length, rest.length + 1⟩
  if name = [] then fail .nameEmpty (.here t)
  else
    match names.lookup name with
    | some earlier => .error ⟨.nameRepeated, span, some earlier⟩
    | none => return ((name, span), rest)

/-! ## Flags -/

def flagLetters : List (Char × Flag) :=
  [('i', .ignoreCase), ('m', .multiLine), ('s', .dotAll), ('U', .swapGreed), ('u', .unicode),
    ('R', .returns), ('x', .loose)]

/-- Flags as they are read: each letter, or the sign that negates what follows, with its place. -/
abbrev FlagItems := List (Option Flag × Span)

def switchesOf (on : Bool) : FlagItems → Switches
  | [] => []
  | (none, _) :: items => switchesOf false items
  | (some flag, _) :: items => (flag, on) :: switchesOf on items

def flagsFrom (found : FlagItems) : Text → Except Fault (FlagItems × Text)
  | [] => fail .flagUnfinished .atEnd
  | c :: t =>
    if c = ':' ∨ c = ')' then
      match found.getLast? with
      | some (none, span) => fail .flagDangling span
      | _ => .ok (found, c :: t)
    else
      let here := Span.first (c :: t)
      let item : Option (Option Flag) :=
        if c = '-' then some none else (flagLetters.lookup c).map some
      match item with
      | none => fail .flagUnknown here
      | some item =>
        match found.lookup item with
        | some earlier =>
          .error ⟨if item = none then .flagNegationRepeated else .flagRepeated, here, some earlier⟩
        | none => flagsFrom (found ++ [(item, here)]) t

/-! ## Openings -/

inductive Opening where
  | group (span : Span) (switches : Switches) (name : Option (Text × Span))
  | switch (span : Span) (switches : Switches)
  deriving Repr

def lookAroundMarks : List Text :=
  ["?=".toList, "?!".toList, "?<=".toList, "?<!".toList]

def opening (loose : Bool) (names : GroupNames) (t : Text) : Except Fault (Opening × Text) :=
  let mark := Span.first t
  let u := skip loose (t.drop 1)
  match lookAroundMarks.findSome? fun mark => Text.dropPrefix? mark u with
  | some rest => fail .lookAround (.between t rest)
  | none =>
    match (Text.dropPrefix? "?P<".toList u).or (Text.dropPrefix? "?<".toList u) with
    | some v => do
      let (name, rest) ← groupName names v
      return (.group mark [] (some name), rest)
    | none =>
      match u with
      | ['?'] => fail .groupUnclosed mark
      | '?' :: v => do
        match ← flagsFrom [] v with
        | ([], ')' :: _) => fail .nothingToRepeat (.here u)
        | (items, ')' :: rest) => return (.switch (.between t rest) (switchesOf true items), rest)
        | (items, rest) => return (.group mark (switchesOf true items) none, rest.drop 1)
      | _ => .ok (.group mark [] none, u)

end Pattern

end PrettyPayload
