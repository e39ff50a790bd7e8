import PrettyPayload.Text.Digit

/-!
# Numbers in settings

A number on the command line or in the environment is written in decimal digits, with or without a
plus before them, and has to fit into 64 bits. Of two faults, the one that comes first in the text
is told.
-/

namespace PrettyPayload

namespace Text

inductive NumberError where
  | empty
  | invalidDigit
  | tooLarge
  deriving DecidableEq, Repr

def NumberError.message : NumberError → String
  | empty => "cannot parse integer from empty string"
  | invalidDigit => "invalid digit found in string"
  | tooLarge => "number too large to fit in target type"

/-- The first number that is too large. -/
def numberBound : Nat := 0x10000000000000000

def addDigit (n : Nat) (c : Char) : Except NumberError Nat :=
  match digit? 10 c with
  | none => .error .invalidDigit
  | some d => if 10 * n + d < numberBound then .ok (10 * n + d) else .error .tooLarge

def number (t : Text) : Except NumberError Nat :=
  match t with
  | [] => .error .empty
  | '+' :: c :: u => (c :: u).foldlM addDigit 0
  | _ => t.foldlM addDigit 0

end Text

end PrettyPayload
