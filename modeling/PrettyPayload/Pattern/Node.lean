import PrettyPayload.Pattern.Fault

/-!
# Patterns as they are written

A `Node` is a piece of a pattern as it was read, with the part of the pattern that it takes up. What
it means depends on the flags that hold at its place, so nothing is decided here about upper and
lower case, line ends or the alphabet. `Node.tooDeep?` finds the first piece that is nested too
deeply.
-/

namespace PrettyPayload

namespace Pattern

inductive Flag where
  | ignoreCase
  | multiLine
  | dotAll
  | swapGreed
  | unicode
  | returns
  | loose
  deriving DecidableEq, Repr

abbrev Switches := List (Flag × Bool)

structure Literal where
  span : Span
  char : Char
  /-- Whether it is written as a byte, by two hexadecimal digits. -/
  isByte : Bool
  deriving DecidableEq, Repr

inductive Assertion where
  | lineStart
  | lineEnd
  | textStart
  | textEnd
  | wordBoundary
  | noWordBoundary
  | wordStart
  | wordEnd
  | wordStartHalf
  | wordEndHalf
  deriving DecidableEq, Repr

/-- The classes with a letter of their own. -/
inductive Shorthand where
  | digit
  | space
  | word
  deriving DecidableEq, Repr

inductive SetOperation where
  | intersection
  | difference
  | symmetricDifference
  deriving DecidableEq, Repr

inductive SetNode where
  | empty (span : Span)
  | literal (l : Literal)
  | range (span : Span) (low high : Literal)
  /-- A class with an ASCII name. -/
  | named (span : Span) (negated : Bool) (ranges : List (Char × Char))
  | shorthand (span : Span) (negated : Bool) (kind : Shorthand)
  | property (span : Span) (name : Text)
  | bracketed (span : Span) (negated : Bool) (body : SetNode)
  | union (span : Span) (items : List SetNode)
  | operation (span : Span) (kind : SetOperation) (left right : SetNode)
  deriving Repr

inductive Node where
  | empty (span : Span)
  /-- Flags that are switched from here on. -/
  | switch (span : Span) (switches : Switches)
  | literal (l : Literal)
  | dot (span : Span)
  | assertion (span : Span) (kind : Assertion)
  | shorthand (span : Span) (negated : Bool) (kind : Shorthand)
  | property (span : Span) (name : Text)
  | bracketed (span : Span) (negated : Bool) (body : SetNode)
  | repetition (span : Span) (least : Nat) (most : Option Nat) (body : Node)
  | group (span : Span) (switches : Switches) (body : Node)
  | alternation (span : Span) (branches : List Node)
  | sequence (span : Span) (items : List Node)
  deriving Repr

namespace SetNode

def span : SetNode → Span
  | empty s => s
  | literal l => l.span
  | range s _ _ => s
  | named s _ _ => s
  | shorthand s _ _ => s
  | property s _ => s
  | bracketed s _ _ => s
  | union s _ => s
  | operation s _ _ _ => s

/-- A set made of items in reverse order, the first of which could have stood at a place. -/
def ofItems (place : Nat) : List SetNode → SetNode
  | [] => .empty ⟨place, place⟩
  | [item] => item
  | last :: items =>
    .union ⟨((items.getLast?).getD last).span.start, last.span.stop⟩ (items.reverse ++ [last])

mutual

/-- The first part of a set that is nested too deeply, when so many levels are left. -/
def tooDeep? (levels : Nat) : SetNode → Option Span
  | bracketed s _ body =>
    match levels with
    | 0 => some s
    | levels + 1 => body.tooDeep? levels
  | union s items =>
    match levels with
    | 0 => some s
    | levels + 1 => tooDeepAmong? levels items
  | operation s _ left right =>
    match levels with
    | 0 => some s
    | levels + 1 => (left.tooDeep? levels).or (right.tooDeep? levels)
  | _ => none

def tooDeepAmong? (levels : Nat) : List SetNode → Option Span
  | [] => none
  | item :: items => (item.tooDeep? levels).or (tooDeepAmong? levels items)

end

end SetNode

namespace Node

def span : Node → Span
  | empty s => s
  | switch s _ => s
  | literal l => l.span
  | dot s => s
  | assertion s _ => s
  | shorthand s _ _ => s
  | property s _ => s
  | bracketed s _ _ => s
  | repetition s _ _ _ => s
  | group s _ _ => s
  | alternation s _ => s
  | sequence s _ => s

def ofItems (span : Span) : List Node → Node
  | [] => .empty span
  | [item] => item
  | items => .sequence span items.reverse

mutual

/-- The first part of a piece that is nested too deeply, when so many levels are left. -/
def tooDeep? (levels : Nat) : Node → Option Span
  | bracketed s _ body =>
    match levels with
    | 0 => some s
    | levels + 1 => body.tooDeep? levels
  | repetition s _ _ body =>
    match levels with
    | 0 => some s
    | levels + 1 => body.tooDeep? levels
  | group s _ body =>
    match levels with
    | 0 => some s
    | levels + 1 => body.tooDeep? levels
  | alternation s branches =>
    match levels with
    | 0 => some s
    | levels + 1 => tooDeepAmong? levels branches
  | sequence s items =>
    match levels with
    | 0 => some s
    | levels + 1 => tooDeepAmong? levels items
  | _ => none

def tooDeepAmong? (levels : Nat) : List Node → Option Span
  | [] => none
  | item :: items => (item.tooDeep? levels).or (tooDeepAmong? levels items)

end

end Node

end Pattern

end PrettyPayload
