import PrettyPayload.Settings.Basic
import PrettyPayload.Toml.Reader

/-!
# Settings files

A settings file is a TOML document with a table `format`, in which every setting may be given and
none has to be. What is not known is ignored; a setting that is given with a value of the wrong
kind makes the whole file unusable. In place of the table an array may give the settings in their
order.
-/

namespace PrettyPayload

namespace Settings

def width? : Toml.Item → Option Nat
  | .integer n => if 0 ≤ n then some n.toNat else none
  | _ => none

def flag? : Toml.Item → Option Bool
  | .bool b => some b
  | _ => none

def lineEndingNamed? (t : Text) : Option LineEnding :=
  [LineEnding.native, .lf, .crlf].find? fun ending => ending.name.toList = t

def isEmptyItem : Toml.Item → Bool
  | .array items => items.isEmpty
  | .table _ members => members.isEmpty
  | _ => false

/-- A line ending: its name, or a table that holds nothing but an empty item of that name. -/
def lineEnding? : Toml.Item → Option LineEnding
  | .string t => lineEndingNamed? t
  | .table _ [(key, item)] => if isEmptyItem item then lineEndingNamed? key else none
  | _ => none

/-- The value of a setting: what `read?` makes of the item, or the standard one where there is no
item. -/
def given? {α : Type} (read? : Toml.Item → Option α) (standard : α) : Option Toml.Item → Option α
  | none => some standard
  | some item => read? item

def ofItems? (width tabs ending inline : Option Toml.Item) : Option Settings := do
  let indentWidth ← given? width? standard.indentWidth width
  let useTabs ← given? flag? standard.useTabs tabs
  let lineEnding ← given? lineEnding? standard.lineEnding ending
  let inlineSingleText ← given? flag? standard.inlineSingleText inline
  return ⟨indentWidth, useTabs, lineEnding, inlineSingleText⟩

def ofItem? : Toml.Item → Option Settings
  | .table _ members =>
    let item? (key : String) : Option Toml.Item := members.lookup key.toList
    ofItems? (item? "indent_width") (item? "use_tabs") (item? "line_ending")
      (item? "inline_single_text")
  | .array items => ofItems? items[0]? items[1]? items[2]? items[3]?
  | .date => some standard
  | _ => none

def ofToml? (t : Text) : Option Settings := do
  let members ← Toml.parse? t
  given? ofItem? standard (members.lookup "format".toList)

/-- The largest number that a settings file can hold. -/
def widthLimit : Nat := 0x7FFFFFFFFFFFFFFF

def tomlLines (s : Settings) : List Text :=
  let flag (b : Bool) : String := if b then "true" else "false"
  ["[format]".toList,
    "indent_width = ".toList ++ Text.decimal s.indentWidth,
    ("use_tabs = " ++ flag s.useTabs).toList,
    ("line_ending = \"" ++ s.lineEnding.name ++ "\"").toList,
    ("inline_single_text = " ++ flag s.inlineSingleText).toList]

/-- A settings file that gives every setting, if its number can be written. -/
def toToml? (s : Settings) : Option Text :=
  if s.indentWidth ≤ widthLimit then some (s.tomlLines.flatMap (· ++ ['\n'])) else none

end Settings

end PrettyPayload
