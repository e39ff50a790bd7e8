import PrettyPayload.Text.Basic

/-!
# What patterns match

An `Expression` is a pattern whose flags have been applied. `Expression.advance` gives the places at
which a match can end that starts at one of some places, and `Expression.occursIn` says whether
there is a match anywhere in a text.

A place knows the character in front of it and the text behind it. Lists of places are kept in the
order of the text, without repetition, so that a repetition has gone far enough when its list of
places does not change any more.
-/

namespace PrettyPayload

namespace Pattern

/-! ## Sets of characters -/

inductive CharSet where
  | empty
  | range (low high : Char)
  | union (a b : CharSet)
  | intersection (a b : CharSet)
  | difference (a b : CharSet)
  | symmetricDifference (a b : CharSet)
  | complement (a : CharSet)
  /-- With each ASCII letter, the same letter in the other case. -/
  | folded (a : CharSet)
  deriving DecidableEq, Repr

namespace CharSet

def ofRanges (ranges : List (Char × Char)) : CharSet :=
  ranges.foldr (fun (low, high) set => union (range low high) set) empty

def contains : CharSet → Char → Bool
  | empty, _ => false
  | range low high, c => low ≤ c && c ≤ high
  | union a b, c => a.contains c || b.contains c
  | intersection a b, c => a.contains c && b.contains c
  | difference a b, c => a.contains c && !b.contains c
  | symmetricDifference a b, c => a.contains c != b.contains c
  | complement a, c => !a.contains c
  | folded a, c =>
    a.contains c || a.contains (Text.lowerChar c) || a.contains (Text.upperChar c)

end CharSet

/-! ## Places -/

structure Place where
  /-- The character in front of it. -/
  before : Option Char
  /-- The text behind it. -/
  rest : Text
  deriving DecidableEq, Repr

def placesFrom (before : Option Char) : Text → List Place
  | [] => [⟨before, []⟩]
  | c :: t => ⟨before, c :: t⟩ :: placesFrom (some c) t

def isWordChar (c : Char) : Bool :=
  ('a' ≤ c && c ≤ 'z') || ('A' ≤ c && c ≤ 'Z') || ('0' ≤ c && c ≤ '9') || c = '_'

inductive Look where
  | textStart
  | textEnd
  /-- The start of a line; `returns` says whether carriage returns count as line ends. -/
  | lineStart (returns : Bool)
  | lineEnd (returns : Bool)
  | wordBoundary
  | noWordBoundary
  | wordStart
  | wordEnd
  | wordStartHalf
  | wordEndHalf
  deriving DecidableEq, Repr

def Look.holds (look : Look) (place : Place) : Bool :=
  let after := place.rest.head?
  let wordBefore := place.before.any isWordChar
  let wordAfter := after.any isWordChar
  match look with
  | textStart => place.before.isNone
  | textEnd => after.isNone
  | lineStart returns =>
    match place.before with
    | none => true
    | some c => c = '\n' || (returns && c = '\r' && after ≠ some '\n')
  | lineEnd returns =>
    match after with
    | none => true
    | some c =>
      if returns then c = '\r' || (c = '\n' && place.before ≠ some '\r') else c = '\n'
  | wordBoundary => wordBefore != wordAfter
  | noWordBoundary => wordBefore == wordAfter
  | wordStart => !wordBefore && wordAfter
  | wordEnd => wordBefore && !wordAfter
  | wordStartHalf => !wordBefore
  | wordEndHalf => !wordAfter

def Place.step? (set : CharSet) (place : Place) : Option Place :=
  match place.rest with
  | [] => none
  | c :: t => if set.contains c then some ⟨some c, t⟩ else none

def merge : List Place → List Place → List Place
  | [], bs => bs
  | as, [] => as
  | a :: as, b :: bs =>
    if a.rest.length = b.rest.length then a :: merge as bs
    else if b.rest.length < a.rest.length then a :: merge as (b :: bs)
    else b :: merge (a :: as) bs
termination_by as bs => as.length + bs.length

/-! ## Expressions -/

/-- A pattern whose flags have been applied. -/
inductive Expression where
  | empty
  | oneOf (set : CharSet)
  | look (l : Look)
  | sequence (a b : Expression)
  | choice (a b : Expression)
  | repetition (a : Expression) (least : Nat) (most : Option Nat)
  deriving DecidableEq, Repr

/-- Applies a step so often, or until nothing changes any more. -/
def iterate (step : List Place → List Place) : Nat → List Place → List Place
  | 0, places => places
  | n + 1, places =>
    let next := step places
    if next = places then places else iterate step n next

/-- Adds what can be reached in at most so many steps. -/
def reach (step : List Place → List Place) (n : Nat) (places : List Place) : List Place :=
  iterate (fun found => merge found (step found)) n places

namespace Expression

def advance : Expression → List Place → List Place
  | empty, places => places
  | oneOf set, places => places.filterMap (Place.step? set)
  | look l, places => places.filter l.holds
  | sequence a b, places => b.advance (a.advance places)
  | choice a b, places => merge (a.advance places) (b.advance places)
  | repetition a least most, places =>
    let start := iterate a.advance least places
    let longest := (start.head?.map (·.rest.length)).getD 0
    reach a.advance ((most.map (· - least)).getD (longest + 1)) start

def occursIn (e : Expression) (t : Text) : Bool := !(e.advance (placesFrom none t)).isEmpty

end Expression

end Pattern

end PrettyPayload
