import PrettyPayload.Format.Failure
import PrettyPayload.Text.Digit

/-!
# Events of a formatting call

A formatter notes what it did as events, in order. Whether anyone hears of them is decided
elsewhere; `Traced` is a result together with the events on the way to it.
-/

namespace PrettyPayload

/-- Something that happened on the way to a result. -/
inductive Event where
  /-- A program is about to format so many bytes. -/
  | reading (bytes : Nat) (kind : Kind)
  /-- A payload of so many bytes goes to the formatter of its kind. -/
  | dispatching (kind : Kind) (bytes : Nat)
  /-- Something did not belong into the table that it stands in. -/
  | misplaced
  /-- So many style elements were rewritten. -/
  | styleBlocks (count : Nat)
  /-- So many style attributes were rewritten. -/
  | inlineStyles (count : Nat)
  /-- Both style passes are through. -/
  | passesComplete (bytes styleBlocks inlineStyles : Nat)
  /-- The same with the number of nodes, for whoever asked for it. -/
  | markupSummary (styleBlocks inlineStyles nodes : Nat)
  /-- An XML payload was read. -/
  | xmlParsed (nodes : Nat)
  /-- A payload was returned as it came. -/
  | failed (report : Report)
  deriving DecidableEq, Repr

structure Traced (α : Type) where
  events : List Event
  result : α
  deriving Repr

def Text.byteLength (t : Text) : Nat := t.foldr (fun c n => c.utf8Size + n) 0

@[simp] theorem Text.byteLength_nil : Text.byteLength [] = 0 := rfl

@[simp] theorem Text.byteLength_cons (c : Char) (t : Text) :
    Text.byteLength (c :: t) = c.utf8Size + Text.byteLength t := rfl

@[simp] theorem Text.byteLength_append (s t : Text) :
    Text.byteLength (s ++ t) = Text.byteLength s + Text.byteLength t := by
  induction s with
  | nil => simp
  | cons c s ih => simp [ih, Nat.add_assoc]

end PrettyPayload
