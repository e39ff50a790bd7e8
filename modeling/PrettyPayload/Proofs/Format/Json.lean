import PrettyPayload.Format.Json
import PrettyPayload.Proofs.Json.RoundTrip

/-!
# Formatted JSON

Formatting keeps the value of a JSON payload, and a formatted payload is formatted already. The line
feeds that become line endings are those of the layout alone, as no written string has one.
-/

namespace PrettyPayload

namespace Format

open Json

/-- Line endings are white space of JSON. -/
theorem isGap_newline (options : Options) : IsGap options.newline := by
  unfold Options.newline
  cases options.lineEnding with
  | native => exact ⟨by decide, Text.forall_mem_of_all (by decide)⟩
  | lf => exact ⟨by decide, Text.forall_mem_of_all (by decide)⟩
  | crlf => exact ⟨by decide, Text.forall_mem_of_all (by decide)⟩

theorem json_eq_ok_of_parse? {t : Text} {v : Value} (options : Options) (h : parse? t = some v) :
    json options t = ⟨[], .ok (withLineEndings options (v.pretty options.indent))⟩ := by
  rw [json, h]

/-- A JSON payload is formatted without a fault, the formatted payload has the same value and is
formatted to itself, and no key or string is changed by the line endings. -/
theorem json_keeps_value {options : Options} {s : Text} {v : Value}
    (hi : ∀ c ∈ options.indent, isSpace c = true) (hs : parse? s = some v) :
    ∃ o, json options s = ⟨[], .ok o⟩ ∧ parse? o = some v ∧ json options o = ⟨[], .ok o⟩ ∧
      ∀ t, withLineEndings options (encode t) = encode t := by
  have hread : parse? (withLineEndings options (v.pretty options.indent)) = some v :=
    parse?_pretty (isGap_newline options) hi (legible_of_parse? hs)
  refine ⟨_, json_eq_ok_of_parse? options hs, hread, json_eq_ok_of_parse? options hread, ?_⟩
  intro t
  exact Text.replaceChar_eq_self options.newline (not_mem_encode t)

def samplePayload : Text := "\x7b\"a\\n\": 0,\"b\":[1E5,-0.50],\"a\\n\": [] \x7d".toList

def sampleTokens : List Token :=
  [.openObject, .string "a\n".toList, .colon, .number ⟨false, ['0'], [], none⟩, .comma,
    .string ['b'], .colon, .openArray, .number ⟨false, ['1'], [], some (false, ['5'])⟩, .comma,
    .number ⟨true, ['0'], ['5', '0'], none⟩, .closeArray, .comma, .string "a\n".toList, .colon,
    .openArray, .closeArray, .closeObject]

def sampleValue : Value :=
  .object [("a\n".toList, .array []),
    (['b'], .array [.number ⟨false, ['1'], [], some (false, ['5'])⟩,
      .number ⟨true, ['0'], ['5', '0'], none⟩])]

theorem parse?_samplePayload : parse? samplePayload = some sampleValue := by
  have htokens : tokens? samplePayload = some sampleTokens := by decide +kernel
  rw [parse?, htokens]
  rfl

/-- The sample with a tab for each level and carriage returns at the ends of lines. -/
theorem json_keeps_sampleValue :
    parse? samplePayload = some sampleValue ∧
      ∃ o, json ⟨['\t'], .crlf, true⟩ samplePayload = ⟨[], .ok o⟩ ∧ parse? o = some sampleValue ∧
        json ⟨['\t'], .crlf, true⟩ o = ⟨[], .ok o⟩ ∧
        ∀ t, withLineEndings ⟨['\t'], .crlf, true⟩ (encode t) = encode t :=
  ⟨parse?_samplePayload, json_keeps_value (Text.forall_mem_of_all (by decide)) parse?_samplePayload⟩

end Format

end PrettyPayload
