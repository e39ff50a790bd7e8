import PrettyPayload.Proofs.Settings.Sources
import PrettyPayload.Proofs.Toml.Entry

/-!
# Settings files that are written

The file that holds all settings is read as these settings again, and a file from which lines of
some of them were taken out as the settings whose lines are left, with the standard value for the
others. A file is seen here as the entries of its table, one for each setting that it gives.
-/

namespace PrettyPayload

namespace Settings

open Program

/-! ## The settings one by one -/

/-- What a line of a settings file is about. -/
inductive Setting where
  | indentWidth
  | useTabs
  | lineEnding
  | inlineSingleText
  deriving DecidableEq, Repr

variable {α : Type} {s : Settings} {kept : Setting → Bool} {xs : List Setting} {x y : Setting}
  {read? : Toml.Item → Option α} {standardValue v : α}

namespace Setting

def all : List Setting := [.indentWidth, .useTabs, .lineEnding, .inlineSingleText]

def key : Setting → Text
  | indentWidth => "indent_width".toList
  | useTabs => "use_tabs".toList
  | lineEnding => "line_ending".toList
  | inlineSingleText => "inline_single_text".toList

theorem mem_all (x : Setting) : x ∈ all := by
  cases x <;> decide

theorem key_inj : x.key = y.key ↔ x = y := by
  cases x <;> cases y <;> decide

theorem isBareKey_key (x : Setting) : Toml.IsBareKey x.key := by
  cases x <;> exact ⟨by decide, List.all_eq_true.1 (by decide)⟩

end Setting

/-- What stands for a truth value. -/
def flagText (b : Bool) : Text := if b then "true".toList else "false".toList

def written (s : Settings) : Setting → Text
  | .indentWidth => Text.decimal s.indentWidth
  | .useTabs => flagText s.useTabs
  | .lineEnding => '"' :: (s.lineEnding.name.toList ++ ['"'])
  | .inlineSingleText => flagText s.inlineSingleText

def item (s : Settings) : Setting → Toml.Item
  | .indentWidth => .integer s.indentWidth
  | .useTabs => .bool s.useTabs
  | .lineEnding => .string s.lineEnding.name.toList
  | .inlineSingleText => .bool s.inlineSingleText

def entry (s : Settings) (x : Setting) : Toml.Entry := ⟨x.key, s.written x, s.item x⟩

/-- The lines of the settings file, with those of the settings that are kept. -/
def linesOf (s : Settings) (kept : Setting → Bool) : List Text :=
  Toml.tableLines "format".toList ((Setting.all.filter kept).map s.entry)

def fileOf (s : Settings) (kept : Setting → Bool) : Text := (s.linesOf kept).flatMap (· ++ ['\n'])

def onlyFrom (s : Settings) (kept : Setting → Bool) : Settings where
  indentWidth := if kept .indentWidth then s.indentWidth else standard.indentWidth
  useTabs := if kept .useTabs then s.useTabs else standard.useTabs
  lineEnding := if kept .lineEnding then s.lineEnding else standard.lineEnding
  inlineSingleText :=
    if kept .inlineSingleText then s.inlineSingleText else standard.inlineSingleText

/-! ## Writing -/

theorem linesOf_all (s : Settings) : s.linesOf (fun _ => true) = s.tomlLines := by
  have hflag : ∀ b : Bool, (if b then "true" else "false" : String).toList = flagText b := by
    intro b
    cases b <;> rfl
  simp only [tomlLines, String.toList_append, hflag]
  rfl

/-- Settings whose number is not too large can be written. -/
theorem toToml?_eq_some (hs : s.indentWidth ≤ widthLimit) :
    s.toToml? = some (s.fileOf fun _ => true) := by
  rw [toToml?, if_pos hs, fileOf, linesOf_all]

/-! ## Reading -/

theorem reads_flagText (b : Bool) : Toml.Reads (flagText b) (.bool b) := by
  cases b
  · exact Toml.reads_false
  · exact Toml.reads_true

theorem sound_entry (hs : s.indentWidth ≤ widthLimit) (x : Setting) : (s.entry x).Sound := by
  refine ⟨x.isBareKey_key, ?_⟩
  cases x with
  | indentWidth => exact Toml.reads_decimal (Nat.lt_of_le_of_lt hs (by decide))
  | useTabs => exact reads_flagText s.useTabs
  | lineEnding =>
    refine Toml.reads_string ?_
    cases s.lineEnding <;> exact Text.forall_mem_of_all (by decide)
  | inlineSingleText => exact reads_flagText s.inlineSingleText

theorem lookup_key (f : Setting → Toml.Item) :
    (xs.map fun y => (y.key, f y)).lookup x.key = if x ∈ xs then some (f x) else none := by
  induction xs with
  | nil => rfl
  | cons y xs ih =>
    rw [List.map_cons, List.lookup_cons]
    by_cases h : x = y
    · subst h
      simp
    · have hkey : (x.key == y.key) = false := beq_eq_false_iff_ne.2 (mt Setting.key_inj.1 h)
      simp [hkey, h, ih]

/-- The line of a setting decides about it if it is left. -/
theorem given?_lookup (hread : read? (s.item x) = some v) :
    given? read? standardValue
        (((Setting.all.filter kept).map fun y => (y.key, s.item y)).lookup x.key) =
      some (if kept x then v else standardValue) := by
  rw [lookup_key]
  cases hkept : kept x with
  | false => simp [List.mem_filter, hkept, given?]
  | true => simp [List.mem_filter, hkept, x.mem_all, given?, hread]

theorem ofItem?_lines (origin : Toml.Origin) :
    ofItem? (.table origin ((Setting.all.filter kept).map fun x => (x.key, s.item x))) =
      some (s.onlyFrom kept) := by
  have hwidth : width? (s.item .indentWidth) = some s.indentWidth := by simp [item, width?]
  have hending : lineEnding? (s.item .lineEnding) = some s.lineEnding := by
    rw [item, lineEnding?]
    cases s.lineEnding <;> decide
  exact ofItems?_eq_some_iff.2 ⟨given?_lookup hwidth, given?_lookup (x := .useTabs) rfl,
    given?_lookup hending, given?_lookup (x := .inlineSingleText) rfl⟩

theorem ofToml?_fileOf (hs : s.indentWidth ≤ widthLimit) (kept : Setting → Bool) :
    ofToml? (s.fileOf kept) = some (s.onlyFrom kept) := by
  have hname : Toml.IsBareKey "format".toList := ⟨by decide, List.all_eq_true.1 (by decide)⟩
  have hsound : ∀ e ∈ (Setting.all.filter kept).map s.entry, e.Sound := by
    intro e he
    obtain ⟨x, -, rfl⟩ := List.mem_map.1 he
    exact sound_entry hs x
  have hkeys : (((Setting.all.filter kept).map s.entry).map Toml.Entry.key).Nodup := by
    rw [List.map_map]
    exact (List.filter_sublist.map Setting.key).nodup (by decide)
  rw [ofToml?, fileOf, linesOf, Toml.parse?_tableLines hname hsound hkeys, List.map_map]
  exact ofItem?_lines .header

/-- Settings whose number is not too large are written to a file that is read as the same settings.
Where lines of the file are taken out, what they gave has its standard value and all else stays. -/
theorem exists_toToml?_settingsIn (hs : s.indentWidth ≤ widthLimit) :
    ∃ t, s.toToml? = some t ∧ t = s.fileOf (fun _ => true) ∧
      (∀ w path, w.files path = .ok (bytesOf t) → settingsIn w path = .ok s) ∧
      ∀ kept w path, w.files path = .ok (bytesOf (s.fileOf kept)) →
        settingsIn w path = .ok (s.onlyFrom kept) := by
  have hload : ∀ kept w path, w.files path = .ok (bytesOf (s.fileOf kept)) →
      settingsIn w path = .ok (s.onlyFrom kept) := fun kept w path hfile =>
    settingsIn_eq_ok_iff.2 ⟨_, hfile, ofToml?_fileOf hs kept⟩
  exact ⟨_, toToml?_eq_some hs, rfl, hload _, hload⟩

def sampleSettings : Settings := ⟨8, true, .crlf, false⟩

/-- The files of the sample settings, with the line about tabs taken out of one. -/
def sampleFiles : Surroundings where
  environment := []
  files := fun path =>
    if path = ['a'] then .ok (bytesOf (sampleSettings.fileOf fun _ => true))
    else if path = ['b'] then .ok (bytesOf (sampleSettings.fileOf (· ≠ .useTabs)))
    else .error .missing
  stdin := .error .missing

/-- The whole file gives the settings back, and without the line about tabs there are none. -/
theorem exists_toToml?_settingsIn_sampleFiles :
    sampleSettings.indentWidth ≤ widthLimit ∧
      sampleSettings.toToml? = some ("[format]\nindent_width = 8\nuse_tabs = true\n".toList ++
        "line_ending = \"crlf\"\ninline_single_text = false\n".toList) ∧
      settingsIn sampleFiles ['a'] = .ok sampleSettings ∧
      settingsIn sampleFiles ['b'] = .ok ⟨8, false, .crlf, false⟩ := by
  have hwidth : sampleSettings.indentWidth ≤ widthLimit := by decide
  obtain ⟨t, ht, rfl, hload, hpart⟩ := exists_toToml?_settingsIn hwidth
  exact ⟨hwidth, ht.trans (by decide), hload _ _ rfl, hpart (· ≠ .useTabs) _ _ rfl⟩

end Settings

end PrettyPayload
