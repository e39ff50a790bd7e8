import PrettyPayload.Text.Basic

/-!
# Paths

A path names a file by the last of its parts. Empty parts and those that stand for the place itself
do not count. An address is a path on a host; the identifiers of namespaces and of document types
are written as addresses, and nothing is ever fetched from them.
-/

namespace PrettyPayload

namespace Text

/-- The name of the file that a path leads to; none if the path ends at the place itself or above
it. -/
def fileName? (path : Text) : Option Text :=
  match ((splitOn '/' path).filter fun part => part ≠ [] ∧ part ≠ ['.']).getLast? with
  | some name => if name = ['.', '.'] then none else some name
  | none => none

/-- What stands behind the last dot of a file name, unless the name starts with that dot. -/
def extension? (path : Text) : Option Text := do
  let name ← fileName? path
  match (splitOn '.' name).reverse with
  | extension :: stem :: stems =>
    if stem = [] ∧ stems = [] then none else some extension
  | _ => none

def address (host page : String) : Text := ("http:" ++ "//" ++ host ++ "/" ++ page).toList

end Text

end PrettyPayload
