import PrettyPayload.Pattern.Bracket
import PrettyPayload.Pattern.Group

/-!
# Reading patterns

`read` reads a whole pattern. The groups that are open stand on a stack, each with what had been
read around it. A repetition applies to the piece right in front of it.
-/

namespace PrettyPayload

namespace Pattern

/-! ## Repetitions -/

def repetitionMarks : List (Char × (Nat × Option Nat)) :=
  [('?', 0, some 1), ('*', 0, none), ('+', 1, none)]

/-- The text behind a question mark at its start, which makes no difference to what matches. -/
def dropLazy (t : Text) : Text :=
  match t with
  | '?' :: rest => rest
  | _ => t

def countedBounds (loose : Bool) (t : Text) : Except Fault ((Nat × Option Nat) × Text) := do
  let unclosed {α : Type} (rest : Text) : Except Fault α :=
    fail .countUnclosed (.between t rest)
  let u := skip loose (t.drop 1)
  if u = [] then unclosed []
  else
    let (least, v) := count loose u
    let (bounds, w) ←
      match v with
      | [] => unclosed []
      | ',' :: w =>
        match skip loose w with
        | [] => unclosed []
        | '\x7d' :: _ => do pure ((← least, none), skip loose w)
        | w => do
          let least ← least
          let (most, rest) := count loose w
          pure ((least, some (← most)), rest)
      | _ => do
        let n ← least
        pure ((n, some n), v)
    match w with
    | '\x7d' :: rest =>
      let rest := dropLazy (skip loose rest)
      if bounds.2.all (bounds.1 ≤ ·) then return (bounds, rest)
      else fail .countOrder (.between t rest)
    | _ => unclosed w

/-! ## Levels -/

structure Level where
  /-- Where the content of the group starts. -/
  start : Nat
  /-- The branches that are complete, latest first. -/
  branches : List Node
  /-- Where the current branch starts. -/
  branchStart : Nat
  /-- The pieces of the current branch, latest first. -/
  items : List Node
  deriving Repr

namespace Level

def startingAt (place : Nat) : Level := ⟨place, [], place, []⟩

def add (item : Node) (level : Level) : Level := { level with items := item :: level.items }

def branch (stop : Nat) (level : Level) : Node := .ofItems ⟨level.branchStart, stop⟩ level.items

def split (bar : Text) (level : Level) : Level :=
  ⟨level.start, level.branch bar.length :: level.branches, bar.length - 1, []⟩

def close (stop : Nat) (level : Level) : Node :=
  match level.branches with
  | [] => level.branch stop
  | branches => .alternation ⟨level.start, stop⟩ (branches.reverse ++ [level.branch stop])

/-- Puts the latest piece under a repetition that goes from a place to another. -/
def repeatLast (bounds : Nat × Option Nat) (here rest : Text) (level : Level) :
    Except Fault Level :=
  match level.items with
  | [] | .switch .. :: _ => fail .nothingToRepeat (.here here)
  | item :: items =>
    .ok { level with
      items := .repetition ⟨item.span.start, rest.length⟩ bounds.1 bounds.2 item :: items }

end Level

structure OpenGroup where
  /-- Its parenthesis. -/
  mark : Span
  switches : Switches
  /-- What had been read around it. -/
  outer : Level
  /-- Whether the pattern around it is loose. -/
  loose : Bool
  deriving Repr

structure Progress where
  level : Level
  /-- The open groups, innermost first. -/
  groups : List OpenGroup
  loose : Bool
  names : GroupNames
  deriving Repr

namespace Progress

def add (item : Node) (p : Progress) : Progress := { p with level := p.level.add item }

def single (p : Progress) (t : Text) : Except Fault (Progress × Text) :=
  match t with
  | [] => .ok (p, [])
  | c :: rest =>
    let here := Span.first t
    match c with
    | '\\' => do
      let (atom, rest) ← escape p.loose t
      let item : Node := match atom with
        | .literal l => .literal l
        | .assertion span kind => .assertion span kind
        | .shorthand span negated kind => .shorthand span negated kind
        | .property span name => .property span name
      return (p.add item, rest)
    | '.' => .ok (p.add (.dot here), rest)
    | '^' => .ok (p.add (.assertion here .lineStart), rest)
    | '$' => .ok (p.add (.assertion here .lineEnd), rest)
    | _ => .ok (p.add (.literal ⟨here, c, false⟩), rest)

def openGroup (p : Progress) (t : Text) : Except Fault (Progress × Text) := do
  match ← opening p.loose p.names t with
  | (.switch span switches, rest) =>
    return ({ p.add (.switch span switches) with
      loose := (switches.lookup .loose).getD p.loose }, rest)
  | (.group mark switches name, rest) =>
    return ({ level := .startingAt rest.length
              groups := ⟨mark, switches, p.level, p.loose⟩ :: p.groups
              loose := (switches.lookup .loose).getD p.loose
              names := name.toList ++ p.names }, rest)

def closeGroup (p : Progress) (t : Text) : Except Fault (Progress × Text) :=
  match p.groups with
  | [] => fail .groupUnopened (.first t)
  | g :: groups =>
    let rest := t.drop 1
    let item : Node := .group ⟨g.mark.start, rest.length⟩ g.switches (p.level.close t.length)
    .ok ({ p with level := g.outer.add item, groups, loose := g.loose }, rest)

def step (p : Progress) (t : Text) : Except Fault (Progress × Text) :=
  match t with
  | [] => .ok (p, [])
  | c :: rest =>
    match repetitionMarks.lookup c with
    | some bounds => do
      let rest := dropLazy rest
      return ({ p with level := ← p.level.repeatLast bounds t rest }, rest)
    | none =>
      match c with
      | '(' => p.openGroup t
      | ')' => p.closeGroup t
      | '|' => .ok ({ p with level := p.level.split t }, rest)
      | '[' => do
        let (set, rest) ← bracket p.loose t
        let item : Node := match set with
          | .bracketed span negated body => .bracketed span negated body
          | set => .bracketed set.span false set
        return (p.add item, rest)
      | '\x7b' => do
        let _ ← p.level.repeatLast (0, none) t t
        let (bounds, rest) ← countedBounds p.loose t
        return ({ p with level := ← p.level.repeatLast bounds t rest }, rest)
      | _ => p.single t

def finish (p : Progress) : Except Fault Node :=
  match p.groups with
  | [] => .ok (p.level.close 0)
  | g :: _ => fail .groupUnclosed g.mark

/-- Reads a text to its end. Every step takes at least one character off the text. -/
def readAll (p : Progress) (t : Text) : Except Fault Node := do
  match skip p.loose t with
  | [] => p.finish
  | c :: u =>
    let (p, rest) ← p.step (c :: u)
    if _h : rest.length < t.length then p.readAll rest else p.finish
termination_by t.length

end Progress

def read (t : Text) : Except Fault Node := do
  let node ← Progress.readAll ⟨.startingAt t.length, [], false, []⟩ t
  match node.tooDeep? depthLimit with
  | some span => fail .tooDeep span
  | none => return node

end Pattern

end PrettyPayload
