import PrettyPayload.Css.Error
import PrettyPayload.Kind

/-!
# Failures to format

A payload that is malformed cannot be formatted. What is wrong with a stylesheet is told in
detail; JSON and XML are only known to be malformed.
-/

namespace PrettyPayload

inductive Failure where
  | css (e : Css.Error)
  | json
  | xml
  deriving DecidableEq, Repr

namespace Failure

def message : Failure → String
  | css e => "invalid CSS: " ++ e.message
  | json => "invalid JSON"
  | xml => "invalid XML"

end Failure

/-- What is told about a payload that was returned as it came. -/
structure Report where
  kind : Kind
  failure : Failure
  deriving DecidableEq, Repr

namespace Report

def message (report : Report) : String :=
  "failed to format " ++ report.kind.name ++ " payload, returning it unchanged"

end Report

end PrettyPayload
