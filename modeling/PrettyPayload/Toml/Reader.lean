import PrettyPayload.Toml.Item
import PrettyPayload.Toml.Lexical
import PrettyPayload.Toml.Number

/-!
# Reading TOML

A document is a sequence of lines: headers, which name a table, and entries, which give a key in
that table a value. `lines?` reads the lines, a value being allowed to reach over several of them,
and `parse?` puts the tables together.
-/

namespace PrettyPayload

namespace Toml

/-! ## Keys -/

def isBare (c : Char) : Bool :=
  ('a' ≤ c && c ≤ 'z') || ('A' ≤ c && c ≤ 'Z') || ('0' ≤ c && c ≤ '9') || c = '-' || c = '_'

def keyPart? (t : Text) : Option (Text × Text) :=
  match t with
  | '"' :: rest => basicString? rest
  | '\'' :: rest => literalString? rest
  | _ =>
    match t.takeWhile isBare with
    | [] => none
    | part => some (part, t.dropWhile isBare)

def keyParts? (t : Text) : Option (List Text × Text) := do
  let (part, rest) ← keyPart? (skipBlanks t)
  match skipBlanks rest with
  | '.' :: rest =>
    if rest.length < t.length then
      let (parts, rest) ← keyParts? rest
      return (part :: parts, rest)
    else none
  | rest => return ([part], rest)
termination_by t.length

/-- The number of brackets that may be nested, and of the parts that a key may have. -/
def nestingLimit : Nat := 79

/-- A key, as the path to its table and its last part, and what follows it. -/
def key? (t : Text) : Option ((List Text × Text) × Text) := do
  let (parts, rest) ← keyParts? t
  match parts.getLast? with
  | some last => if parts.length ≤ nestingLimit then some ((parts.dropLast, last), rest) else none
  | none => none

/-! ## Values -/

def scalar? (t : Text) : Option (Item × Text) :=
  match string? t with
  | some (s, rest) => some (.string s, rest)
  | none =>
    match Text.dropPrefix? "true".toList t, Text.dropPrefix? "false".toList t with
    | some rest, _ => some (.bool true, rest)
    | _, some rest => some (.bool false, rest)
    | none, none =>
      match date? t, float? t with
      | some rest, _ => some (.date, rest)
      | _, some rest => some (.float, rest)
      | none, none => (integer? t).map fun (n, rest) => (.integer n, rest)

/-- The items of an array, from behind its opening bracket, and what follows its closing one. -/
def items? (value? : Text → Option (Item × Text)) (t : Text) : Option (List Item × Text) :=
  match skipGap t with
  | ']' :: rest => some ([], rest)
  | u => do
    let (item, rest) ← value? u
    match skipGap rest with
    | ']' :: rest => return ([item], rest)
    | ',' :: rest =>
      if rest.length < t.length then
        let (items, rest) ← items? value? rest
        return (item :: items, rest)
      else none
    | _ => none
termination_by t.length

/-- The entries of a table in braces from the next one on, and what follows the closing brace. -/
def entries? (value? : Text → Option (Item × Text)) (members : Members) (t : Text) :
    Option (Members × Text) := do
  let ((path, key), rest) ← key? t
  let rest ← Text.dropPrefix? ['='] rest
  let (item, rest) ← value? (skipBlanks rest)
  let members ← members.insert path key item
  match skipBlanks rest with
  | '\x7d' :: rest => return (members, rest)
  | ',' :: rest => if rest.length < t.length then entries? value? members rest else none
  | _ => none
termination_by t.length

/-- A value in which brackets are nested at most so deep, and what follows it. -/
def value? : Nat → Text → Option (Item × Text)
  | 0, t => scalar? t
  | levels + 1, t =>
    match t with
    | '[' :: u => (items? (value? levels) u).map fun (items, rest) => (.array items, rest)
    | '\x7b' :: u =>
      match skipBlanks u with
      | '\x7d' :: rest => some (.table .braces [], rest)
      | v =>
        (entries? (value? levels) [] v).map fun (members, rest) => (.table .braces members, rest)
    | _ => scalar? t

/-! ## Lines -/

inductive Line where
  /-- The header of a table. -/
  | table (path : List Text) (key : Text)
  /-- The header of one more table of a name. -/
  | next (path : List Text) (key : Text)
  | entry (path : List Text) (key : Text) (item : Item)
  deriving Repr

def statement? (t : Text) : Option (Line × Text) :=
  match t with
  | '[' :: '[' :: u => do
    let ((path, key), rest) ← key? u
    let rest ← Text.dropPrefix? "]]".toList rest
    return (.next path key, rest)
  | '[' :: u => do
    let ((path, key), rest) ← key? u
    let rest ← Text.dropPrefix? ['\x5d'] rest
    return (.table path key, rest)
  | _ => do
    let ((path, key), rest) ← key? t
    let rest ← Text.dropPrefix? ['='] rest
    let (item, rest) ← value? nestingLimit (skipBlanks rest)
    return (.entry path key item, rest)

def lines? (t : Text) : Option (List Line) :=
  match lineEnd? t with
  | some [] => some []
  | some rest => if rest.length < t.length then lines? rest else none
  | none => do
    let (line, rest) ← statement? (skipBlanks t)
    let rest ← lineEnd? rest
    if rest.length < t.length then
      let lines ← lines? rest
      return line :: lines
    else none
termination_by t.length

/-! ## Documents -/

structure State where
  root : Members
  path : List Text

def State.step? (s : State) : Line → Option State
  | .table path key =>
    (s.root.openTable path key).map fun root => ⟨root, path ++ [key]⟩
  | .next path key =>
    (s.root.openNext path key).map fun root => ⟨root, path ++ [key]⟩
  | .entry path key item =>
    (s.root.atPath s.path (Members.insert path key item)).map fun root => ⟨root, s.path⟩

def dropMark : Text → Text
  | '\uFEFF' :: t => t
  | t => t

def parse? (t : Text) : Option Members := do
  let lines ← lines? (dropMark t)
  let s ← lines.foldlM State.step? ⟨[], []⟩
  return s.root

end Toml

end PrettyPayload
