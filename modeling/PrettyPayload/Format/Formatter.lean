import PrettyPayload.Format.Html
import PrettyPayload.Format.Json
import PrettyPayload.Format.Xml

/-!
# Formatters

A formatter takes a payload to a payload and cannot fail. The formatters of the four payload kinds
get this from an envelope: a payload that is malformed is returned as it came, and the failure is
reported.
-/

namespace PrettyPayload

abbrev Formatter := Text → Traced Text

namespace Format

/-- Formats a payload of a kind, or finds it malformed. A payload of no kind is left alone. -/
def payload : Kind → Options → Text → Traced (Except Failure Text)
  | .none, _, t => ⟨[], .ok t⟩
  | .json, options, t => json options t
  | .xml, options, t => xml options t
  | .html, options, t => html options t
  | .css, options, t => css options t

/-- The formatted payload, or the payload as it came and a report of the failure. -/
def failOpen (kind : Kind) (t : Text) (outcome : Traced (Except Failure Text)) : Traced Text :=
  match outcome.result with
  | .ok formatted => ⟨outcome.events, formatted⟩
  | .error failure => ⟨outcome.events ++ [.failed ⟨kind, failure⟩], t⟩

end Format

namespace Formatter

def standard (kind : Kind) (options : Options) : Formatter := fun t =>
  Format.failOpen kind t (Format.payload kind options t)

def ofFunction (f : Text → Text) : Formatter := fun t => ⟨[], f t⟩

end Formatter

def reports (events : List Event) : List Report :=
  events.filterMap fun
    | .failed report => some report
    | _ => none

@[simp] theorem reports_nil : reports [] = [] := rfl

@[simp] theorem reports_append (before after : List Event) :
    reports (before ++ after) = reports before ++ reports after := by
  simp [reports]

end PrettyPayload
