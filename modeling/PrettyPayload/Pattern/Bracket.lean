import PrettyPayload.Pattern.Lexical

/-!
# Sets in brackets

`bracket` reads a set of characters from its opening bracket on. Sets nest, and what stands between
the operators of a set is united first; the operators themselves are taken from left to right. The
sets that are still open are kept on a stack.
-/

namespace PrettyPayload

namespace Pattern

/-! ## Classes with ASCII names -/

def asciiClasses : List (Text × List (Char × Char)) :=
  [("alnum".toList, [('0', '9'), ('A', 'Z'), ('a', 'z')]),
    ("alpha".toList, [('A', 'Z'), ('a', 'z')]),
    ("ascii".toList, [('\x00', '\x7f')]),
    ("blank".toList, [('\t', '\t'), (' ', ' ')]),
    ("cntrl".toList, [('\x00', '\x1f'), ('\x7f', '\x7f')]),
    ("digit".toList, [('0', '9')]),
    ("graph".toList, [('!', '~')]),
    ("lower".toList, [('a', 'z')]),
    ("print".toList, [(' ', '~')]),
    ("punct".toList, [('!', '/'), (':', '@'), ('[', '\x60'), ('\x7b', '~')]),
    ("space".toList, [('\t', '\r'), (' ', ' ')]),
    ("upper".toList, [('A', 'Z')]),
    ("word".toList, [('0', '9'), ('A', 'Z'), ('_', '_'), ('a', 'z')]),
    ("xdigit".toList, [('0', '9'), ('A', 'F'), ('a', 'f')])]

/-- The class with an ASCII name at the start of a text, and the rest. What only looks like one is
a set of its own. -/
def asciiClass? (t : Text) : Option (SetNode × Text) := do
  let u ← Text.dropPrefix? "[:".toList t
  let (negated, u) := match u with
    | '^' :: v => (true, v)
    | _ => (false, u)
  let ranges ← asciiClasses.lookup (u.takeWhile (· ≠ ':'))
  let rest ← Text.dropPrefix? ":]".toList (u.dropWhile (· ≠ ':'))
  return (.named (.between t rest) negated ranges, rest)

/-! ## Items -/

def setAtom (loose : Bool) (t : Text) : Except Fault (Atom × Text) :=
  match t with
  | [] => fail .setUnclosed .atEnd
  | c :: u => if c = '\\' then escape loose t else .ok (.literal ⟨.first t, c, false⟩, u)

def setItem : Atom → Except Fault SetNode
  | .literal l => .ok (.literal l)
  | .shorthand span negated kind => .ok (.shorthand span negated kind)
  | .property span name => .ok (.property span name)
  | .assertion span _ => fail .setEscape span

def rangeBound : Atom → Except Fault Literal
  | .literal l => .ok l
  | atom => fail .setRangeBound atom.span

def behindHyphen (loose : Bool) (t : Text) : Option Char :=
  if loose then
    let found :=
      match t.dropWhile Text.isBlank with
      | '#' :: u => (u.dropWhile Text.isBlank).head?
      | u => u.head?
    found.or t.head?
  else t.head?

/-- A character or a range, and the rest; `unclosed` is the part of the pattern that opens the
set. -/
def rangeItem (loose : Bool) (unclosed : Span) (t : Text) : Except Fault (SetNode × Text) := do
  let (low, rest) ← setAtom loose t
  match skip loose rest with
  | [] => fail .setUnclosed unclosed
  | c :: u =>
    let next := behindHyphen loose u
    if c ≠ '-' ∨ next = some ']' ∨ next = some '-' then
      return (← setItem low, c :: u)
    else if skip loose u = [] then fail .setUnclosed unclosed
    else
      let (high, rest) ← setAtom loose (skip loose u)
      let span : Span := ⟨low.span.start, high.span.stop⟩
      let low ← rangeBound low
      let high ← rangeBound high
      if low.char ≤ high.char then return (.range span low high, rest)
      else fail .setRangeOrder span

/-! ## Open sets -/

inductive SetFrame where
  /-- A set in brackets, with the items in front of it, the latest first. -/
  | opened (outer : List SetNode) (span : Span) (negated : Bool)
  /-- An operator and what stands in front of it. -/
  | operation (kind : SetOperation) (left : SetNode)
  deriving Repr

def innermost : List SetFrame → Span
  | [] => .atEnd
  | .opened _ span _ :: _ => span
  | .operation _ _ :: frames => innermost frames

def closeOperation (right : SetNode) : List SetFrame → SetNode × List SetFrame
  | .operation kind left :: frames =>
    (.operation ⟨left.span.start, right.span.stop⟩ kind left right, frames)
  | frames => (right, frames)

def leadingHyphens (loose : Bool) (found : List SetNode) : Text → List SetNode × Text
  | '-' :: t =>
    leadingHyphens loose (.literal ⟨.first ('-' :: t), '-', false⟩ :: found) (skip loose t)
  | t => (found, t)
termination_by t => t.length
decreasing_by
  have := length_skip_le loose t
  simp only [List.length_cons]; omega

/-- Opens a set, from its bracket on: what opens it, whether it is negated, the items that stand for
themselves only at the start of a set, and the rest. -/
def openSet (loose : Bool) (t : Text) : Except Fault (Span × Bool × List SetNode × Text) :=
  let (negated, u) := match skip loose (t.drop 1) with
    | '^' :: v => (true, skip loose v)
    | u => (false, u)
  match leadingHyphens loose [] u with
  | ([], ']' :: v) =>
    match skip loose v with
    | [] => fail .setUnclosed (.between t [])
    | w =>
      .ok (.between t w, negated, [.literal ⟨.first (']' :: v), ']', false⟩], w)
  | ([], []) => fail .setUnclosed (.between t [])
  | (_, []) => fail .setUnclosed (.here t)
  | (items, v) => .ok (.between t v, negated, items, v)

def operators : List (Char × SetOperation) :=
  [('&', .intersection), ('-', .difference), ('~', .symmetricDifference)]

/-- The operator at the start of a text, which is its character written twice, and the rest. -/
def operator? (t : Text) : Option (SetOperation × Text) :=
  match t with
  | c :: d :: rest => if c = d then (operators.lookup c).map (·, rest) else none
  | _ => none

/-- Reads sets to the end of the outermost one. `items` are the latest items, latest first, and
`place` is where the first of them could have stood. -/
def setFrom (loose : Bool) (frames : List SetFrame) (items : List SetNode) (place : Nat)
    (t : Text) : Except Fault (SetNode × Text) := do
  let onward (frames : List SetFrame) (items : List SetNode) (place : Nat) (rest : Text) :
      Except Fault (SetNode × Text) :=
    if _h : rest.length < t.length then setFrom loose frames items place rest
    else fail .setUnclosed (innermost frames)
  match skip loose t with
  | [] => fail .setUnclosed (innermost frames)
  | c :: u =>
    if c = '[' then
      match asciiClass? (c :: u) with
      | some (item, rest) => onward frames (item :: items) place rest
      | none =>
        let (span, negated, inside, rest) ← openSet loose (c :: u)
        onward (.opened items span negated :: frames) inside rest.length rest
    else if c = ']' then
      let (body, frames) := closeOperation (.ofItems place items) frames
      match frames with
      | .opened outer span negated :: frames =>
        let closed : SetNode := .bracketed ⟨span.start, u.length⟩ negated body
        if frames.isEmpty then return (closed, u)
        else onward frames (closed :: outer) place u
      | _ => fail .setUnclosed (innermost frames)
    else
      match operator? (c :: u) with
      | some (kind, rest) =>
        let (left, frames) := closeOperation (.ofItems place items) frames
        onward (.operation kind left :: frames) [] rest.length rest
      | none =>
        let (item, rest) ← rangeItem loose (innermost frames) (c :: u)
        onward frames (item :: items) place rest
termination_by t.length

def bracket (loose : Bool) (t : Text) : Except Fault (SetNode × Text) := do
  let (span, negated, items, rest) ← openSet loose t
  setFrom loose [.opened [] span negated] items rest.length rest

end Pattern

end PrettyPayload
