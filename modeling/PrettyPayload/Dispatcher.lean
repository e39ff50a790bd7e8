import PrettyPayload.Format.Formatter

/-!
# Dispatchers

A dispatcher sends a payload to the formatter registered for its kind. Payloads without a kind and
payloads without content never reach a formatter. A payload of a kind for which nothing is
registered is a mistake of whoever set the dispatcher up, and is refused.
-/

namespace PrettyPayload

/-- The formatters by payload kind. -/
structure Dispatcher where
  formatter? : Kind → Option Formatter

namespace Dispatcher

inductive Outcome where
  /-- The payload needed no formatter. -/
  | untouched (t : Text)
  | formatted (t : Text)
  deriving DecidableEq, Repr

def Outcome.text : Outcome → Text
  | untouched t => t
  | formatted t => t

structure Unregistered where
  kind : Kind
  deriving DecidableEq, Repr

def Unregistered.message (e : Unregistered) : String :=
  "no formatter registered for payload kind `" ++ e.kind.name ++ "`"

def empty : Dispatcher := ⟨fun _ => none⟩

def register (d : Dispatcher) (kind : Kind) (formatter : Formatter) : Dispatcher :=
  ⟨fun k => if k = kind then some formatter else d.formatter? k⟩

def isRegistered (d : Dispatcher) (kind : Kind) : Bool := (d.formatter? kind).isSome

def standard (options : Options) : Dispatcher :=
  [Kind.html, .css, .json, .xml].foldl
    (fun d kind => d.register kind (.standard kind options)) empty

def format (d : Dispatcher) (kind : Kind) (t : Text) : Except Unregistered (Traced Outcome) :=
  if kind = .none ∨ t = [] then .ok ⟨[], .untouched t⟩
  else
    match d.formatter? kind with
    | none => .error ⟨kind⟩
    | some formatter =>
      let formatted := formatter t
      .ok ⟨.dispatching kind (Text.byteLength t) :: formatted.events, .formatted formatted.result⟩

@[simp] theorem formatter?_empty (kind : Kind) : empty.formatter? kind = none := rfl

@[simp] theorem formatter?_register (d : Dispatcher) (kind k : Kind) (formatter : Formatter) :
    (d.register kind formatter).formatter? k =
      if k = kind then some formatter else d.formatter? k := rfl

theorem formatter?_standard (options : Options) (kind : Kind) :
    (standard options).formatter? kind =
      if kind = .none then none else some (.standard kind options) := by
  cases kind <;> rfl

def formatStandard (options : Options) (kind : Kind) (t : Text) : Traced Outcome :=
  match (standard options).format kind t with
  | .ok outcome => outcome
  | .error _ => ⟨[], .untouched t⟩

theorem format_standard (options : Options) (kind : Kind) (t : Text) :
    (standard options).format kind t = .ok (formatStandard options kind t) := by
  unfold formatStandard format
  rw [formatter?_standard]
  by_cases hk : kind = .none
  · simp [hk]
  · by_cases ht : t = [] <;> simp [hk, ht]

end Dispatcher

end PrettyPayload
