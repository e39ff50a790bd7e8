import PrettyPayload.Pattern.Matching
import PrettyPayload.Pattern.Reader

/-!
# What patterns mean

`expression?` applies the flags of a pattern. Only ASCII has upper and lower case here and classes
with a letter of their own, so a pattern that asks for either has to switch `unicode` off first;
then it must not match a part of a character that is not ASCII. Words, too, are known in ASCII
alone, which is found out last, together with a pattern that takes too much room.

`compile` reads a pattern and gives its expression, or says why there is none.
-/

namespace PrettyPayload

namespace Pattern

/-! ## Flags -/

structure Flags where
  ignoreCase : Bool
  multiLine : Bool
  dotAll : Bool
  unicode : Bool
  returns : Bool
  deriving DecidableEq, Repr

namespace Flags

def initial : Flags := ⟨false, false, false, true, false⟩

def set (flags : Flags) : Flag × Bool → Flags
  | (.ignoreCase, on) => { flags with ignoreCase := on }
  | (.multiLine, on) => { flags with multiLine := on }
  | (.dotAll, on) => { flags with dotAll := on }
  | (.unicode, on) => { flags with unicode := on }
  | (.returns, on) => { flags with returns := on }
  | (.swapGreed, _) => flags
  | (.loose, _) => flags

def switch (flags : Flags) (switches : Switches) : Flags := switches.foldl set flags

end Flags

/-! ## Sets -/

def Shorthand.ranges : Shorthand → List (Char × Char)
  | digit => [('0', '9')]
  | space => [('\t', '\r'), (' ', ' ')]
  | word => [('0', '9'), ('A', 'Z'), ('_', '_'), ('a', 'z')]

/-- The name of a property in lower case, without blanks, hyphens and low lines, and without a
leading `is`. -/
def propertyName (t : Text) : Text :=
  let t := (Text.dropPrefixIgnoringCase? "is".toList t).getD t
  Text.lower (t.filter fun c => c.toNat < 0x80 && c ≠ ' ' && c ≠ '_' && c ≠ '-')

def propertyCause (flags : Flags) (name : Text) : Cause :=
  if !flags.unicode then .beyondAscii
  else if name.contains ':' ∨ name.contains '=' then .propertyUnknown
  else if ["cf".toList, "sc".toList, "lc".toList].contains (propertyName name) then
    .propertyValueUnknown
  else .propertyUnknown

def asciiSet (flags : Flags) (span : Span) (negated : Bool) (ranges : List (Char × Char)) :
    Except Fault CharSet :=
  if flags.unicode then
    if flags.ignoreCase then fail .caseUnavailable span
    else .ok (if negated then .complement (.ofRanges ranges) else .ofRanges ranges)
  else if negated then fail .bytesNoText span
  else .ok (if flags.ignoreCase then .folded (.ofRanges ranges) else .ofRanges ranges)

def shorthandSet (flags : Flags) (span : Span) (negated : Bool) (kind : Shorthand) :
    Except Fault CharSet :=
  if flags.unicode then fail .shorthandUnavailable span
  else if negated then fail .bytesNoText span
  else .ok (.ofRanges kind.ranges)

def setChar (flags : Flags) (l : Literal) : Except Fault Char :=
  if flags.unicode ∨ l.char.toNat < 0x80 then .ok l.char
  else fail (if l.isByte then .bytesNoText else .beyondAscii) l.span

def SetOperation.apply : SetOperation → CharSet → CharSet → CharSet
  | intersection => .intersection
  | difference => .difference
  | symmetricDifference => .symmetricDifference

mutual

/-- The characters of a set, and whether it has any whose other case is still to be added. -/
def SetNode.chars (flags : Flags) : SetNode → Except Fault (CharSet × Bool)
  | empty _ => .ok (.empty, false)
  | literal l => do
    let c ← setChar flags l
    return (.range c c, true)
  | range _ low high => do
    let low ← setChar flags low
    let high ← setChar flags high
    return (.range low high, true)
  | named span negated ranges => do
    return (← asciiSet flags span negated ranges, true)
  | shorthand span negated kind => do
    return (← shorthandSet flags span negated kind, true)
  | property span name => fail (propertyCause flags name) span
  | bracketed span negated body => do
    let (set, unfolded) ← body.chars flags
    if flags.unicode then
      if flags.ignoreCase && unfolded then fail .caseUnavailable span
      else return (if negated then .complement set else set, unfolded)
    else if negated then fail .bytesNoText span
    else return (if flags.ignoreCase then .folded set else set, unfolded)
  | union _ items => SetNode.charsAmong flags items
  | operation _ kind left right => do
    let (a, leftOpen) ← left.chars flags
    let (b, rightOpen) ← right.chars flags
    if flags.unicode && flags.ignoreCase && rightOpen then fail .caseUnavailable right.span
    else if flags.unicode && flags.ignoreCase && leftOpen then fail .caseUnavailable left.span
    else
      let fold (set : CharSet) : CharSet := if flags.ignoreCase then .folded set else set
      return (kind.apply (fold a) (fold b), leftOpen || rightOpen)

def SetNode.charsAmong (flags : Flags) : List SetNode → Except Fault (CharSet × Bool)
  | [] => .ok (.empty, false)
  | item :: items => do
    let (a, firstOpen) ← item.chars flags
    let (b, restOpen) ← SetNode.charsAmong flags items
    return (.union a b, firstOpen || restOpen)

end

/-! ## Pieces -/

def Literal.set (flags : Flags) (l : Literal) : Except Fault CharSet :=
  let plain := CharSet.range l.char l.char
  if flags.unicode then
    if flags.ignoreCase then fail .caseUnavailable l.span else .ok plain
  else if l.isByte ∧ 0x80 ≤ l.char.toNat then fail .bytesNoText l.span
  else .ok (if flags.ignoreCase ∧ l.char.toNat < 0x80 then .folded plain else plain)

def dotSet (flags : Flags) (span : Span) : Except Fault CharSet :=
  if !flags.unicode then fail .bytesNoText span
  else if flags.dotAll then .ok (.complement .empty)
  else if flags.returns then .ok (.complement (.ofRanges [('\n', '\n'), ('\r', '\r')]))
  else .ok (.complement (.range '\n' '\n'))

def Assertion.look (flags : Flags) : Assertion → Look
  | lineStart => if flags.multiLine then .lineStart flags.returns else .textStart
  | lineEnd => if flags.multiLine then .lineEnd flags.returns else .textEnd
  | textStart => .textStart
  | textEnd => .textEnd
  | wordBoundary => .wordBoundary
  | noWordBoundary => .noWordBoundary
  | wordStart => .wordStart
  | wordEnd => .wordEnd
  | wordStartHalf => .wordStartHalf
  | wordEndHalf => .wordEndHalf

def Assertion.needsWords : Assertion → Bool
  | lineStart | lineEnd | textStart | textEnd => false
  | _ => true

/-- Whether an expression matches no character, wherever it matches. -/
def Expression.isStill : Expression → Bool
  | empty => true
  | oneOf _ => false
  | look _ => true
  | sequence a b => a.isStill && b.isStill
  | choice a b => a.isStill && b.isStill
  | repetition a _ _ => a.isStill

/-- A repetition; of what matches no character, one time is as good as many. -/
def Expression.times (least : Nat) (most : Option Nat) (e : Expression) : Expression :=
  if most = some 0 then .empty
  else if e.isStill then .repetition e (min least 1) (some ((most.map (min · 1)).getD 1))
  else .repetition e least most

/-- What has been made of a piece: its expression, the flags behind it, and whether it needs words
beyond ASCII. -/
structure Meaning where
  expression : Expression
  flags : Flags
  needsWords : Bool

mutual

def Node.meaning (flags : Flags) : Node → Except Fault Meaning
  | empty _ => .ok ⟨.empty, flags, false⟩
  | switch _ switches => .ok ⟨.empty, flags.switch switches, false⟩
  | literal l => do return ⟨.oneOf (← l.set flags), flags, false⟩
  | dot span => do return ⟨.oneOf (← dotSet flags span), flags, false⟩
  | assertion _ kind => .ok ⟨.look (kind.look flags), flags, kind.needsWords && flags.unicode⟩
  | shorthand span negated kind => do
    return ⟨.oneOf (← shorthandSet flags span negated kind), flags, false⟩
  | property span name => fail (propertyCause flags name) span
  | bracketed span negated body => do
    let (set, _) ← (SetNode.bracketed span negated body).chars flags
    return ⟨.oneOf set, flags, false⟩
  | repetition _ least most body => do
    let m ← body.meaning flags
    return { m with
      expression := m.expression.times least most
      needsWords := m.needsWords && most ≠ some 0 }
  | group _ switches body => do
    return { ← body.meaning (flags.switch switches) with flags }
  | alternation _ branches => Node.meaningOfBranches flags branches
  | sequence _ items => Node.meaningOfItems flags items

def Node.meaningOfItems (flags : Flags) : List Node → Except Fault Meaning
  | [] => .ok ⟨.empty, flags, false⟩
  | item :: items => do
    let a ← item.meaning flags
    let b ← Node.meaningOfItems a.flags items
    return ⟨.sequence a.expression b.expression, b.flags, a.needsWords || b.needsWords⟩

def Node.meaningOfBranches (flags : Flags) : List Node → Except Fault Meaning
  | [] => .ok ⟨.oneOf .empty, flags, false⟩
  | item :: items => do
    let a ← item.meaning flags
    let b ← Node.meaningOfBranches a.flags items
    return ⟨.choice a.expression b.expression, b.flags, a.needsWords || b.needsWords⟩

end

/-! ## Room -/

/-- How much room an expression takes, counting 32 for every state of an automaton for it. -/
def Expression.room : Expression → Nat
  | empty => 32
  | oneOf (.range low high) => if low = high then 32 * low.utf8Size else 72
  | oneOf (.complement _) => 424
  | oneOf _ => 96
  | look _ => 32
  | sequence a b => a.room + b.room
  | choice a b => a.room + b.room + 36
  | repetition a least none => max least 1 * a.room + 40
  | repetition a least (some most) => least * a.room + (most - least) * (a.room + 40) + 32

def roomLimit : Nat := 10485760

inductive Refusal where
  | fault (f : Fault)
  /-- It needs words beyond ASCII. -/
  | words
  | room
  deriving DecidableEq, Repr

def Refusal.message (pattern : Text) : Refusal → Text
  | fault f => f.report pattern
  | words => "error building NFA".toList
  | room => ("Compiled regex exceeds size limit of " ++ toString roomLimit ++ " bytes.").toList

def compile (pattern : Text) : Except Refusal Expression := do
  let node ← (read pattern).mapError .fault
  let m ← (node.meaning .initial).mapError .fault
  if m.needsWords then throw .words
  else if roomLimit < m.expression.room then throw .room
  else return m.expression

end Pattern

end PrettyPayload
