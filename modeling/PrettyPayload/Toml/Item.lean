import PrettyPayload.Text.Basic

/-!
# Items of a TOML document

A document is a table. Whether a table may still be added to depends on how it came to be, so each
table carries this with it. `insert` gives a dotted key a value, `openAt` finds the place of a table
that a header names; both refuse what has been defined before.
-/

namespace PrettyPayload

namespace Toml

/-- How a table came to be. -/
inductive Origin where
  /-- It was written between braces and is complete. -/
  | braces
  /-- A header names it. -/
  | header
  /-- A header names a table below it. -/
  | above
  /-- A dotted key names something in it. -/
  | dotted
  deriving DecidableEq, Repr

/-- A value or a table of a document. Of a float and a date only the kind is kept. -/
inductive Item where
  | string (t : Text)
  | integer (n : Int)
  | bool (b : Bool)
  | float
  | date
  | array (items : List Item)
  | table (origin : Origin) (members : List (Text × Item))
  /-- Tables of one name, latest first, each with its members. -/
  | tables (latest : List (Text × Item)) (others : List (List (Text × Item)))
  deriving Repr

abbrev Members := List (Text × Item)

namespace Members

def alter (key : Text) (f : Option Item → Option Item) : Members → Option Members
  | [] => (f none).map fun item => [(key, item)]
  | (k, item) :: rest =>
    if k = key then (f (some item)).map fun item => (k, item) :: rest
    else (alter key f rest).map ((k, item) :: ·)

def addNew (key : Text) (item : Item) (members : Members) : Option Members :=
  members.alter key fun
    | none => some item
    | some _ => none

/-- The members of the table in which a dotted key ends, changed by `f`. Such a table has to be one
that dotted keys made. -/
def insertBelow (f : Members → Option Members) (item : Option Item) : Option Item :=
  match item with
  | none => (f []).map (.table .dotted)
  | some (.table .dotted members) => (f members).map (.table .dotted)
  | _ => none

/-- The members of a table on the way to the end of a dotted key, changed by `f`. No header and no
braces may have defined it. -/
def passDotted (f : Members → Option Members) (item : Option Item) : Option Item :=
  match item with
  | none => (f []).map (.table .dotted)
  | some (.table .dotted members) => (f members).map (.table .dotted)
  | some (.table .above members) => (f members).map (.table .above)
  | some (.tables latest others) => (f latest).map (.tables · others)
  | _ => none

/-- Gives a dotted key a value: `path` leads to the table, `key` is its last part. -/
def insert (path : List Text) (key : Text) (item : Item) (members : Members) : Option Members :=
  match path with
  | [] => members.addNew key item
  | [k] => members.alter k (insertBelow (addNew key item))
  | k :: path => members.alter k (passDotted (insert path key item))

/-- The members of a table on the way to one that a header names, changed by `f`. -/
def passHeader (f : Members → Option Members) (item : Option Item) : Option Item :=
  match item with
  | none => (f []).map (.table .above)
  | some (.table .braces _) => none
  | some (.table origin members) => (f members).map (.table origin)
  | some (.tables latest others) => (f latest).map (.tables · others)
  | _ => none

def atPath (path : List Text) (f : Members → Option Members) (members : Members) :
    Option Members :=
  match path with
  | [] => f members
  | k :: path => members.alter k (passHeader (atPath path f))

def openTable (path : List Text) (key : Text) (members : Members) : Option Members :=
  members.atPath path (alter key fun
    | none => some (.table .header [])
    | some (.table .above members) => some (.table .header members)
    | _ => none)

/-- Adds a table to those that a header with double brackets names. -/
def openNext (path : List Text) (key : Text) (members : Members) : Option Members :=
  members.atPath path (alter key fun
    | none => some (.tables [] [])
    | some (.tables latest others) => some (.tables [] (latest :: others))
    | _ => none)

end Members

end Toml

end PrettyPayload
