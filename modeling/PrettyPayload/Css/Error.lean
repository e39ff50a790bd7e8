import PrettyPayload.Text.Basic

/-!
# Faults of a stylesheet

A stylesheet is refused for one of eight structural faults. Each but the first quotes the place:
the words there, cut after forty characters.
-/

namespace PrettyPayload

namespace Css

inductive Error where
  | unterminatedComment
  | unterminatedString (near : Text)
  | unclosedBlock (head : Text)
  | unexpectedCloseBrace (near : Text)
  | missingSelector (near : Text)
  | missingColon (declaration : Text)
  | emptyProperty (declaration : Text)
  | strayDeclaration (declaration : Text)
  deriving DecidableEq, Repr

/-- The words of a text between single spaces, and an ellipsis in place of what follows the
fortieth character. -/
def excerpt (t : Text) : Text :=
  let collapsed := Text.joinWith [' '] (Text.words t)
  if collapsed.length ≤ 40 then collapsed else collapsed.take 40 ++ ['.', '.', '.']

namespace Error

def message : Error → String
  | unterminatedComment => "unterminated comment"
  | unterminatedString near => "unterminated string near `" ++ String.ofList near ++ "`"
  | unclosedBlock head => "unclosed block after `" ++ String.ofList head ++ "`"
  | unexpectedCloseBrace near => "unexpected `\x7d` near `" ++ String.ofList near ++ "`"
  | missingSelector near => "block without selector near `" ++ String.ofList near ++ "`"
  | missingColon declaration =>
    "declaration without `:` in `" ++ String.ofList declaration ++ "`"
  | emptyProperty declaration =>
    "declaration with empty property name in `" ++ String.ofList declaration ++ "`"
  | strayDeclaration declaration =>
    "declaration outside of any rule: `" ++ String.ofList declaration ++ "`"

end Error

end Css

end PrettyPayload
