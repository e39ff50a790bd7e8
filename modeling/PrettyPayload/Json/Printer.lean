import PrettyPayload.Json.Quoted
import PrettyPayload.Json.Value

/-!
# Writing JSON

Every item of an array and every member of an object has a line of its own, one level deeper than
the brackets around them; an array or object without content is written as its brackets alone.
-/

namespace PrettyPayload

namespace Json

namespace Value

def line (indent : Text) (depth : Nat) : Text := '\n' :: Text.times depth indent

/-- Several written parts between two brackets, each on a line of its own. -/
def enclose (indent : Text) (depth : Nat) (opening closing : Char) (parts : List Text) : Text :=
  match parts with
  | [] => [opening, closing]
  | _ =>
    opening :: line indent (depth + 1) ++
      Text.joinWith (',' :: line indent (depth + 1)) parts ++ line indent depth ++ [closing]

mutual

def write (indent : Text) (depth : Nat) : Value → Text
  | null => "null".toList
  | bool b => (if b then "true" else "false").toList
  | number n => n.write
  | string t => encode t
  | array items => enclose indent depth '[' ']' (writeItems indent (depth + 1) items)
  | object members => enclose indent depth '\x7b' '\x7d' (writeMembers indent (depth + 1) members)

def writeItems (indent : Text) (depth : Nat) : List Value → List Text
  | [] => []
  | v :: rest => write indent depth v :: writeItems indent depth rest

def writeMembers (indent : Text) (depth : Nat) : List (Text × Value) → List Text
  | [] => []
  | (key, v) :: rest =>
    (encode key ++ [':', ' '] ++ write indent depth v) :: writeMembers indent depth rest

end

def pretty (indent : Text) (v : Value) : Text := v.write indent 0

end Value

end Json

end PrettyPayload
