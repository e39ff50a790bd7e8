import PrettyPayload.Text.Basic

/-!
# Control sequences of terminals

An escape character starts a sequence that a terminal obeys and does not show. `Text.shown` is what
remains of a text without these sequences and without control characters other than white space.

A sequence is either short, or a control sequence that a letter or the like ends, or a string, which
goes on until it is closed. White space inside a short sequence or a control sequence is shown, and
text right behind it, too; the sequence goes on behind that text. The mark that closes a string is
one byte, which may come as a part of a longer character.
-/

namespace PrettyPayload

namespace Text

/-- Where the reading of control sequences stands. -/
inductive ControlSpot where
  /-- Outside all sequences. -/
  | outside
  /-- Behind the escape character. -/
  | escape
  /-- In a short sequence, behind the escape character and what may stand between. -/
  | escapeBetween
  | control
  /-- In front of the parameters of a device string. -/
  | device
  /-- Among the parameters of a device string. -/
  | deviceParameters
  /-- Behind the parameters of a device string. -/
  | deviceBetween
  /-- In a string that a byte of its own closes. -/
  | closedString
  /-- In a string that the bell closes. -/
  | bellString
  deriving DecidableEq, Repr

/-- Whether the byte that closes a string is one of those behind the first of a character's UTF-8
form. -/
def hasStringEnd (c : Char) : Bool :=
  let byte (unit : Nat) : Bool := c.toNat / unit % 64 = 0x1C
  0x80 ≤ c.toNat &&
    (byte 1 || (0x800 ≤ c.toNat && byte 64) || (0x10000 ≤ c.toNat && byte 4096))

namespace ControlSpot

def showsBlanks : ControlSpot → Bool
  | outside | escape | escapeBetween | control => true
  | _ => false

def shows (spot : ControlSpot) (c : Char) : Bool :=
  if c.toNat < 0x20 then isAsciiBlank c && spot.showsBlanks
  else spot = outside && c.toNat ≠ 0x7F

def move? (spot : ControlSpot) (c : Char) : Option ControlSpot :=
  let between (low high : Nat) : Bool := low ≤ c.toNat && c.toNat ≤ high
  if c.toNat = 0x18 ∨ c.toNat = 0x1A then some outside
  else if c.toNat = 0x1B then some escape
  else
    match spot with
    | outside => none
    | escape =>
      if between 0x20 0x2F then some escapeBetween
      else if c = '[' then some control
      else if c = ']' then some bellString
      else if c = 'P' then some device
      else if c = 'X' ∨ c = '^' ∨ c = '_' then some closedString
      else if between 0x30 0x7E then some outside
      else none
    | escapeBetween => if between 0x30 0x7E then some outside else none
    | control => if between 0x40 0x7E then some outside else none
    | device =>
      if between 0x20 0x2F then some deviceBetween
      else if between 0x30 0x3F then some deviceParameters
      else if between 0x40 0x7E then some closedString
      else none
    | deviceParameters =>
      if between 0x20 0x2F then some deviceBetween
      else if between 0x3C 0x7E then some closedString
      else none
    | deviceBetween => if between 0x30 0x7E then some closedString else none
    | closedString => if hasStringEnd c then some outside else none
    | bellString => if c.toNat = 7 then some outside else none

end ControlSpot

/-- What is shown of a text from a place on; `showing` says that the character before it was
shown. -/
def shownFrom (spot : ControlSpot) (showing : Bool) : Text → Text
  | [] => []
  | c :: t =>
    let here := if showing then .outside else spot
    let next := if showing && 0x80 ≤ c.toNat then .outside else (here.move? c).getD spot
    if here.shows c then c :: shownFrom next true t else shownFrom next false t

def shown (t : Text) : Text := shownFrom .outside false t

end Text

end PrettyPayload
