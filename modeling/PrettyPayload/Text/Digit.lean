import PrettyPayload.Text.Basic

/-!
# Digits

The value of a digit in a base up to sixteen, and of a run of digits. Letters count in either
case.
-/

namespace PrettyPayload

namespace Text

/-- The value of a digit, letters standing for ten to fifteen. -/
def hexDigit? (c : Char) : Option Nat :=
  if '0' ≤ c ∧ c ≤ '9' then some (c.toNat - 48)
  else if 'a' ≤ c ∧ c ≤ 'f' then some (c.toNat - 87)
  else if 'A' ≤ c ∧ c ≤ 'F' then some (c.toNat - 55)
  else none

def digit? (base : Nat) (c : Char) : Option Nat := (hexDigit? c).filter (· < base)

def isDigit (base : Nat) (c : Char) : Bool := (digit? base c).isSome

/-- The number that a run of digits spells; other characters count as zero. -/
def ofDigits (base : Nat) (t : Text) : Nat :=
  t.foldl (fun n c => base * n + (digit? base c).getD 0) 0

def decimal (n : Nat) : Text := Nat.toDigits 10 n

end Text

end PrettyPayload
