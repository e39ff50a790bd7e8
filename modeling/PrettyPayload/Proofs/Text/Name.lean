import PrettyPayload.Kind
import PrettyPayload.LineEnding
import PrettyPayload.Proofs.Text.Trim

/-!
# Names in any case

The names of payload kinds and of line endings may be written in any case and with white space
around them. `IsName` says so without a word about how a name is looked up, and both look-ups find
exactly what is named in this way.
-/

namespace PrettyPayload

namespace Text

variable {name t : Text} {c : Char}

def IsName (name t : Text) : Prop :=
  ∃ front word back, t = front ++ (word ++ back) ∧ (∀ c ∈ front, isBlank c = true) ∧
    (∀ c ∈ back, isBlank c = true) ∧ lower word = name

/-- What a letter and its small letter have in common, every character has with its own. -/
theorem apply_lowerChar {α : Type} {f : Char → α}
    (h : ∀ k ∈ List.range' 65 26, f (Char.ofNat (k + 32)) = f (Char.ofNat k)) (c : Char) :
    f (lowerChar c) = f c := by
  rw [lowerChar]
  split
  next hc =>
    have hfirst : 65 ≤ c.toNat := UInt32.le_iff_toNat_le.1 hc.1
    have hlast : c.toNat ≤ 90 := UInt32.le_iff_toNat_le.1 hc.2
    have hsame := h c.toNat (List.mem_range'_1.2 (by omega))
    rwa [Char.ofNat_toNat] at hsame
  next => rfl

theorem isBlank_lowerChar (c : Char) : isBlank (lowerChar c) = isBlank c :=
  apply_lowerChar (by decide) c

/-- The word that is left between white space is the name. -/
theorem isName_iff (hname : ∀ c ∈ name, isBlank c = false) :
    IsName name t ↔ lower (trim isBlank t) = name := by
  constructor
  · rintro ⟨front, word, back, rfl, hfront, hback, rfl⟩
    have hword : ∀ c ∈ word, isBlank c = false := by
      intro c hc
      rw [← isBlank_lowerChar]
      exact hname _ (List.mem_map_of_mem hc)
    rw [trim_append_of_all hfront, ← trim_trimEnd, trimEnd_append_of_all hback, trim_trimEnd,
      trim_eq_self (fun c hc => hword c (List.mem_of_mem_head? hc))
        fun c hc => hword c (List.mem_of_getLast? hc)]
  · intro h
    obtain ⟨front, back, ht, hfront, hback⟩ := exists_eq_append_trim isBlank t
    exact ⟨front, trim isBlank t, back, ht, hfront, hback, h⟩

end Text

/-! ## Kinds -/

namespace Kind

theorem not_isBlank_name (kind : Kind) : ∀ c ∈ kind.name.toList, Text.isBlank c = false := by
  cases kind <;> exact Text.forall_mem_of_all (by decide)

theorem ofName?_eq_some_iff {t : Text} {kind : Kind} :
    ofName? t = some kind ↔ Text.IsName kind.name.toList t := by
  have hlower : Text.lower kind.name.toList = kind.name.toList := by cases kind <;> decide
  rw [Text.isName_iff kind.not_isBlank_name, ofName?]
  constructor
  · intro h
    obtain ⟨hsame, -⟩ := List.find?_eq_some_iff_append.1 h
    rw [← of_decide_eq_true hsame, hlower]
  · intro h
    simp only [Text.equalsIgnoringCase, h]
    cases kind <;> decide

end Kind

/-! ## Line endings -/

namespace LineEnding

def names : LineEnding → List String
  | native => ["native"]
  | lf => ["lf", "unix"]
  | crlf => ["crlf", "windows"]

theorem not_isBlank_of_mem_names {ending : LineEnding} {name : String}
    (h : name ∈ ending.names) : ∀ c ∈ name.toList, Text.isBlank c = false := by
  have hall : (ending.names.all fun name =>
      name.toList.all fun c => Text.isBlank c = false) = true := by
    cases ending <;> decide
  exact Text.forall_mem_of_all (List.all_eq_true.1 hall name h)

theorem ofName?_eq_some_iff {t : Text} {ending : LineEnding} :
    ofName? t = some ending ↔ ∃ name ∈ ending.names, Text.IsName name.toList t := by
  have hkey : (∃ name ∈ ending.names, Text.IsName name.toList t) ↔
      ∃ name ∈ ending.names, Text.lower (Text.trim Text.isBlank t) = name.toList := by
    refine exists_congr fun name => and_congr_right fun hmem => Text.isName_iff ?_
    exact not_isBlank_of_mem_names hmem
  rw [hkey, ofName?]
  constructor
  · intro h
    split at h
    next hnative =>
      obtain rfl := Option.some.inj h
      exact ⟨"native", by decide, hnative⟩
    next =>
      split at h
      next hlf =>
        obtain rfl := Option.some.inj h
        rcases hlf with hlf | hunix
        · exact ⟨"lf", by decide, hlf⟩
        · exact ⟨"unix", by decide, hunix⟩
      next =>
        split at h
        next hcrlf =>
          obtain rfl := Option.some.inj h
          rcases hcrlf with hcrlf | hwindows
          · exact ⟨"crlf", by decide, hcrlf⟩
          · exact ⟨"windows", by decide, hwindows⟩
        next => cases h
  · rintro ⟨name, hmem, hname⟩
    simp only [hname]
    clear hname
    revert name
    cases ending <;> decide

end LineEnding

end PrettyPayload
