import PrettyPayload.Proofs.CommandLine
import PrettyPayload.Proofs.Program

/-!
# Where settings come from

Each of the four settings may be given on the command line, in the environment and in the settings
file, in this order of strength. `Strongest` states the rule for one setting, and `Settled` for all
four of them, each with the sources that it has. A run is settled in one way only, which is the one
that comes out when the settings are read from the file and then changed by the environment and by
the arguments.
-/

namespace PrettyPayload

namespace Settings

open Arguments Program

variable {α : Type} {v u standardValue : α} {source : α → Prop} {sources : List (α → Prop)}
  {env : Environment} {w : Surroundings} {path t : Text} {members : Toml.Members} {s : Settings}
  {read? : Toml.Item → Option α} {name : String}

/-! ## The strongest source -/

/-- The value of a setting: the first of the sources that gives one decides, and where none does
the standard value stays. -/
inductive Strongest {α : Type} (standardValue : α) : (sources : List (α → Prop)) → (v : α) → Prop
  | left : Strongest standardValue [] standardValue
  | given {source : α → Prop} {sources : List (α → Prop)} {v : α} (h : source v) :
      Strongest standardValue (source :: sources) v
  | passed {source : α → Prop} {sources : List (α → Prop)} {v : α} (hnone : ∀ u, ¬source u)
      (h : Strongest standardValue sources v) : Strongest standardValue (source :: sources) v

theorem strongest_nil_iff : Strongest standardValue [] v ↔ v = standardValue := by
  constructor
  · intro h
    cases h
    rfl
  · rintro rfl
    exact .left

theorem strongest_cons_iff {given? : Option α} (hsource : ∀ v, source v ↔ given? = some v)
    (hrest : ∀ v, Strongest standardValue sources v ↔ v = u) :
    Strongest standardValue (source :: sources) v ↔ v = given?.getD u := by
  cases given? with
  | none =>
    have hnone : ∀ v, ¬source v := fun v hv => nomatch (hsource v).1 hv
    rw [Option.getD_none, ← hrest]
    constructor
    · intro h
      cases h with
      | given hv => exact absurd hv (hnone v)
      | passed _ h => exact h
    · exact .passed hnone
  | some x =>
    have hx : source x := (hsource x).2 rfl
    rw [Option.getD_some]
    constructor
    · intro h
      cases h with
      | given hv => exact (Option.some.inj ((hsource v).1 hv)).symm
      | passed hnone _ => exact absurd hx (hnone x)
    · rintro rfl
      exact .given hx

/-! ## The environment -/

/-- The environment gives a width: a number, with white space around it or none. -/
def WidthIn (env : Environment) (n : Nat) : Prop :=
  ∃ value, env.lookup "RUNE_INDENT_WIDTH".toList = some value ∧
    Text.Spells (Text.trim Text.isBlank value) n

/-- The environment says yes or no in a variable: yes is a one or the word for it in any case, and
everything else is no. -/
def FlagIn (env : Environment) (name : String) (b : Bool) : Prop :=
  ∃ value, env.lookup name.toList = some value ∧
    (b = true ↔ value = ['1'] ∨ Text.lower value = "true".toList)

def LineEndingIn (env : Environment) (ending : LineEnding) : Prop :=
  ∃ value, env.lookup "RUNE_LINE_ENDING".toList = some value ∧
    ∃ name ∈ ending.names, Text.IsName name.toList value

theorem widthIn_iff {n : Nat} : WidthIn env n ↔ numberIn? env "RUNE_INDENT_WIDTH" = some n := by
  rw [numberIn?, Option.bind_eq_bind, Option.bind_eq_some_iff]
  refine exists_congr fun value => and_congr_right fun _ => ?_
  rw [← Text.number_eq_ok_iff]
  cases Text.number (Text.trim Text.isBlank value) <;> simp [Except.toOption]

theorem flagIn_iff {b : Bool} : FlagIn env name b ↔ flagIn? env name = some b := by
  rw [flagIn?, Option.map_eq_some_iff]
  refine exists_congr fun value => and_congr_right fun _ => ?_
  have hyes : (value = ['1'] ∨ Text.lower value = "true".toList) ↔
      (decide (value = ['1']) || Text.equalsIgnoringCase "true".toList value) = true := by
    have hlower : Text.lower "true".toList = "true".toList := by decide
    rw [Bool.or_eq_true, decide_eq_true_eq, Text.equalsIgnoringCase, decide_eq_true_eq, hlower,
      eq_comm (a := Text.lower value)]
  rw [hyes]
  exact Bool.coe_iff_coe.trans eq_comm

theorem lineEndingIn_iff {ending : LineEnding} :
    LineEndingIn env ending ↔ lineEndingIn? env "RUNE_LINE_ENDING" = some ending := by
  rw [lineEndingIn?, Option.bind_eq_some_iff]
  exact exists_congr fun value => and_congr_right fun _ => LineEnding.ofName?_eq_some_iff.symm

/-! ## The settings file -/

/-- The item of a setting in a document: by its name in the table of settings, by its place if an
array stands for the table. -/
def itemOf? (members : Toml.Members) (key : String) (place : Nat) : Option Toml.Item :=
  match members.lookup "format".toList with
  | some (.table _ members) => members.lookup key.toList
  | some (.array items) => items[place]?
  | _ => none

/-- The settings file gives a setting: it can be used as a whole, and the item of the setting is
there. -/
def InFile (w : Surroundings) (path : Text) (read? : Toml.Item → Option α) (key : String)
    (place : Nat) (v : α) : Prop :=
  ∃ t s members item, w.files path = .ok (bytesOf t) ∧ ofToml? t = some s ∧
    Toml.parse? t = some members ∧ itemOf? members key place = some item ∧ read? item = some v

def settingsPath (a : Arguments) : Text := a.config.getD defaultSettingsPath

theorem ofItems?_eq_some_iff {width tabs ending inline : Option Toml.Item} :
    ofItems? width tabs ending inline = some s ↔
      given? width? standard.indentWidth width = some s.indentWidth ∧
        given? flag? standard.useTabs tabs = some s.useTabs ∧
        given? lineEnding? standard.lineEnding ending = some s.lineEnding ∧
        given? flag? standard.inlineSingleText inline = some s.inlineSingleText := by
  simp only [ofItems?, Option.bind_eq_bind, Option.bind_eq_some_iff, Option.pure_def,
    Option.some.injEq]
  constructor
  · rintro ⟨n, hn, b, hb, e, he, i, hi, rfl⟩
    exact ⟨hn, hb, he, hi⟩
  · rintro ⟨hn, hb, he, hi⟩
    exact ⟨_, hn, _, hb, _, he, _, hi, rfl⟩

/-- The settings in a document are those that its items give. -/
theorem ofItems?_itemOf? (hs : ofToml? t = some s) (hmembers : Toml.parse? t = some members) :
    ofItems? (itemOf? members "indent_width" 0) (itemOf? members "use_tabs" 1)
      (itemOf? members "line_ending" 2) (itemOf? members "inline_single_text" 3) = some s := by
  rw [ofToml?, hmembers, Option.bind_eq_bind, Option.bind_some] at hs
  unfold itemOf?
  cases hformat : members.lookup "format".toList with
  | none =>
    rw [hformat] at hs
    exact hs
  | some item =>
    rw [hformat, given?] at hs
    cases item with
    | table origin members => exact hs
    | array items => exact hs
    | date => exact hs
    | _ => cases hs

theorem inFile_iff {key : String} {place : Nat} (ht : w.files path = .ok (bytesOf t))
    (hs : ofToml? t = some s) (hmembers : Toml.parse? t = some members) :
    InFile w path read? key place v ↔ (itemOf? members key place).bind read? = some v := by
  rw [Option.bind_eq_some_iff]
  constructor
  · rintro ⟨t', s', members', item, ht', hs', hmembers', hitem, hv⟩
    obtain rfl : t = t' := bytesOf_injective (Except.ok.inj (ht.symm.trans ht'))
    obtain rfl := Option.some.inj (hmembers.symm.trans hmembers')
    exact ⟨item, hitem, hv⟩
  · rintro ⟨item, hitem, hv⟩
    exact ⟨t, s, members, item, ht, hs, hmembers, hitem, hv⟩

/-- A file that cannot be used gives nothing. -/
theorem not_inFile {key : String} {place : Nat} (hnone : ∀ s, ¬Holds w path s) :
    ¬InFile w path read? key place v := by
  rintro ⟨t, s, -, -, ht, hs, -⟩
  exact hnone s ⟨t, ht, hs⟩

theorem strongest_of_not_inFile {key : String} {place : Nat} (hnone : ∀ s, ¬Holds w path s) :
    Strongest standardValue [InFile w path read? key place] v ↔ v = standardValue := by
  have hsource : ∀ v, InFile w path read? key place v ↔ none = some v :=
    fun v => iff_of_false (not_inFile hnone) nofun
  exact strongest_cons_iff hsource fun v => strongest_nil_iff

theorem strongest_inFile_iff {key : String} {place : Nat} {members : Toml.Members} {x : α}
    (ht : w.files path = .ok (bytesOf t)) (hs : ofToml? t = some s)
    (hmembers : Toml.parse? t = some members)
    (hx : given? read? standardValue (itemOf? members key place) = some x) :
    Strongest standardValue [InFile w path read? key place] v ↔ v = x := by
  rw [strongest_cons_iff (fun v => inFile_iff ht hs hmembers) fun v => strongest_nil_iff]
  cases hitem : itemOf? members key place with
  | none =>
    rw [hitem, given?] at hx
    rw [Option.bind_none, Option.getD_none, Option.some.inj hx]
  | some item =>
    rw [hitem, given?] at hx
    rw [Option.bind_some, hx, Option.getD_some]

theorem strongest_inFile_of_startsWith {a : Arguments} (h : StartsWith a w s) :
    (∀ v, Strongest 2 [InFile w (settingsPath a) width? "indent_width" 0] v ↔ v = s.indentWidth) ∧
      (∀ v, Strongest false [InFile w (settingsPath a) flag? "use_tabs" 1] v ↔ v = s.useTabs) ∧
      (∀ v, Strongest .native [InFile w (settingsPath a) lineEnding? "line_ending" 2] v ↔
        v = s.lineEnding) ∧
      ∀ v, Strongest true [InFile w (settingsPath a) flag? "inline_single_text" 3] v ↔
        v = s.inlineSingleText := by
  have hholds : Holds w (settingsPath a) s ∨
      s = .standard ∧ ∀ s, ¬Holds w (settingsPath a) s := by
    cases h with
    | named path s hconfig hs => exact Or.inl (by rwa [settingsPath, hconfig])
    | usual s hconfig hs => exact Or.inl (by rwa [settingsPath, hconfig])
    | standard hconfig hs => exact Or.inr ⟨rfl, by rwa [settingsPath, hconfig]⟩
  rcases hholds with ⟨t, ht, hs⟩ | ⟨rfl, hnone⟩
  · obtain ⟨members, hmembers, -⟩ := Option.bind_eq_some_iff.1 hs
    obtain ⟨hwidth, htabs, hending, hinline⟩ :=
      ofItems?_eq_some_iff.1 (ofItems?_itemOf? hs hmembers)
    exact ⟨fun v => strongest_inFile_iff ht hs hmembers hwidth,
      fun v => strongest_inFile_iff ht hs hmembers htabs,
      fun v => strongest_inFile_iff ht hs hmembers hending,
      fun v => strongest_inFile_iff ht hs hmembers hinline⟩
  · exact ⟨fun v => strongest_of_not_inFile hnone, fun v => strongest_of_not_inFile hnone,
      fun v => strongest_of_not_inFile hnone, fun v => strongest_of_not_inFile hnone⟩

/-! ## All sources -/

def widthSources (gs : List Group) (w : Surroundings) (path : Text) : List (Nat → Prop) :=
  [(lastOf Group.indent? gs = some ·), WidthIn w.environment, InFile w path width? "indent_width" 0]

def tabsSources (gs : List Group) (w : Surroundings) (path : Text) : List (Bool → Prop) :=
  [(lastOf Group.tabs? gs = some ·), FlagIn w.environment "RUNE_USE_TABS",
    InFile w path flag? "use_tabs" 1]

def lineEndingSources (gs : List Group) (w : Surroundings) (path : Text) :
    List (LineEnding → Prop) :=
  [(lastOf Group.lineEnding? gs = some ·), LineEndingIn w.environment,
    InFile w path lineEnding? "line_ending" 2]

/-- The sources of the layout of short elements; no flag is among them. -/
def inlineSources (w : Surroundings) (path : Text) : List (Bool → Prop) :=
  [FlagIn w.environment "RUNE_INLINE_TEXT", InFile w path flag? "inline_single_text" 3]

/-- Each setting comes from the strongest of its sources. -/
structure Settled (gs : List Group) (w : Surroundings) (path : Text) (s : Settings) : Prop where
  indentWidth : Strongest 2 (widthSources gs w path) s.indentWidth
  useTabs : Strongest false (tabsSources gs w path) s.useTabs
  lineEnding : Strongest .native (lineEndingSources gs w path) s.lineEnding
  inlineSingleText : Strongest true (inlineSources w path) s.inlineSingleText

theorem getD_lastOf_tabs? (gs : List Group) (b : Bool) :
    (lastOf Group.tabs? gs).getD b = ((lastOf Group.tabs? gs).getD false || b) := by
  cases hlast : lastOf Group.tabs? gs with
  | none => exact (Bool.false_or b).symm
  | some on =>
    obtain ⟨g, -, hg⟩ := List.mem_filterMap.1 (List.mem_of_getLast? hlast)
    cases g with
    | tabs =>
      obtain rfl := Option.some.inj hg
      exact (Bool.true_or b).symm
    | _ => cases hg

section

variable {gs : List Group} {a : Arguments} {s₀ : Settings}

theorem strongest_widthSources_iff {n : Nat} (hread : read (wordsOf gs) = .ok a)
    (hstart : StartsWith a w s₀) :
    Strongest 2 (widthSources gs w (settingsPath a)) n ↔
      n = (a.apply (s₀.withEnvironment w.environment)).indentWidth := by
  obtain ⟨-, rfl⟩ := read_wordsOf_eq_ok_iff.1 hread
  obtain ⟨hfile, -⟩ := strongest_inFile_of_startsWith hstart
  exact strongest_cons_iff (fun v => Iff.rfl) fun v =>
    strongest_cons_iff (fun v => widthIn_iff) hfile

theorem strongest_tabsSources_iff {b : Bool} (hread : read (wordsOf gs) = .ok a)
    (hstart : StartsWith a w s₀) :
    Strongest false (tabsSources gs w (settingsPath a)) b ↔
      b = (a.apply (s₀.withEnvironment w.environment)).useTabs := by
  obtain ⟨-, rfl⟩ := read_wordsOf_eq_ok_iff.1 hread
  obtain ⟨-, hfile, -⟩ := strongest_inFile_of_startsWith hstart
  refine (strongest_cons_iff (fun v => Iff.rfl)
    fun v => strongest_cons_iff (fun v => flagIn_iff) hfile).trans ?_
  rw [getD_lastOf_tabs?]
  rfl

theorem strongest_lineEndingSources_iff {ending : LineEnding}
    (hread : read (wordsOf gs) = .ok a) (hstart : StartsWith a w s₀) :
    Strongest .native (lineEndingSources gs w (settingsPath a)) ending ↔
      ending = (a.apply (s₀.withEnvironment w.environment)).lineEnding := by
  obtain ⟨-, rfl⟩ := read_wordsOf_eq_ok_iff.1 hread
  obtain ⟨-, -, hfile, -⟩ := strongest_inFile_of_startsWith hstart
  exact strongest_cons_iff (fun v => Iff.rfl)
    fun v => strongest_cons_iff (fun v => lineEndingIn_iff) hfile

theorem strongest_inlineSources_iff {b : Bool} (hstart : StartsWith a w s₀) :
    Strongest true (inlineSources w (settingsPath a)) b ↔
      b = (a.apply (s₀.withEnvironment w.environment)).inlineSingleText := by
  obtain ⟨-, -, -, hfile⟩ := strongest_inFile_of_startsWith hstart
  exact strongest_cons_iff (fun v => flagIn_iff) hfile

/-- The settings that the environment and the arguments make of those that a run starts with are
the ones in which each setting comes from its strongest source. -/
theorem settled_iff (hread : read (wordsOf gs) = .ok a) (hstart : StartsWith a w s₀) :
    Settled gs w (settingsPath a) s ↔ s = a.apply (s₀.withEnvironment w.environment) := by
  constructor
  · rintro ⟨hwidth, htabs, hending, hinline⟩
    rw [strongest_widthSources_iff hread hstart] at hwidth
    rw [strongest_tabsSources_iff hread hstart] at htabs
    rw [strongest_lineEndingSources_iff hread hstart] at hending
    rw [strongest_inlineSources_iff hstart] at hinline
    cases s
    simp only at hwidth htabs hending hinline
    rw [hwidth, htabs, hending, hinline]
  · rintro rfl
    exact ⟨(strongest_widthSources_iff hread hstart).2 rfl,
      (strongest_tabsSources_iff hread hstart).2 rfl,
      (strongest_lineEndingSources_iff hread hstart).2 rfl,
      (strongest_inlineSources_iff hstart).2 rfl⟩

end

/-! ## Giving the same again -/

theorem getD_getD_self (given? : Option α) (v : α) :
    given?.getD (given?.getD v) = given?.getD v := by
  cases given? <;> rfl

theorem withEnvironment_withEnvironment (env : Environment) (s : Settings) :
    (s.withEnvironment env).withEnvironment env = s.withEnvironment env := by
  simp only [withEnvironment, getD_getD_self]

theorem apply_apply (a : Arguments) (s : Settings) : a.apply (a.apply s) = a.apply s := by
  simp only [apply, getD_getD_self, ← Bool.or_assoc, Bool.or_self]

/-- In every run whose arguments name no settings file each setting comes from its strongest
source, and from that alone. The environment and the arguments change nothing when they are taken
into account once more. -/
theorem exists_settled {args : List Text} {a : Arguments} (hread : read args = .ok a)
    (hconfig : a.config = none) (w : Surroundings) :
    (∃ gs s, wordsOf gs = args ∧ Program.settings a w = .ok s ∧
      ∀ s', Settled gs w defaultSettingsPath s' ↔ s' = s) ∧
      (∀ s : Settings, (s.withEnvironment w.environment).withEnvironment w.environment =
        s.withEnvironment w.environment) ∧
      ∀ s, a.apply (a.apply s) = a.apply s := by
  refine ⟨?_, withEnvironment_withEnvironment w.environment, apply_apply a⟩
  obtain ⟨gs, rfl⟩ := exists_wordsOf_eq hread
  obtain ⟨s₀, hstart⟩ := exists_startsWith (a := a) (w := w) fun path hpath => by
    rw [hconfig] at hpath
    cases hpath
  have hpath : settingsPath a = defaultSettingsPath := by
    rw [settingsPath, hconfig]
    rfl
  refine ⟨gs, _, rfl, settings_of_startsWith hstart, fun s' => ?_⟩
  rw [← hpath]
  exact settled_iff hread hstart

/-- A settings file that gives three settings, beside a width that is no number and a word that is
no yes. -/
def sampleSources : Surroundings where
  environment :=
    [("RUNE_INDENT_WIDTH".toList, "wide".toList), ("RUNE_USE_TABS".toList, "yes".toList)]
  files := fun path =>
    if path = defaultSettingsPath then
      .ok (bytesOf
        "[format]\nindent_width = 8\nuse_tabs = true\nline_ending = \"crlf\"\n".toList)
    else .error .missing
  stdin := .error .missing

/-- The width is from the file, spaces are from the environment, the line ending is from a flag,
and the fourth setting is the standard one. -/
theorem exists_settled_sampleSources :
    Program.settings { Arguments.empty with lineEnding := some .lf } sampleSources =
        .ok ⟨8, false, .lf, true⟩ ∧
      Settled [.lf] sampleSources defaultSettingsPath ⟨8, false, .lf, true⟩ := by
  have hread : read ["--lf".toList] = .ok { Arguments.empty with lineEnding := some .lf } := rfl
  obtain ⟨⟨gs, s, hgs, hs, hsettled⟩, -⟩ := exists_settled hread rfl sampleSources
  obtain rfl : gs = [.lf] := wordsOf_injective hgs
  have hstart : StartsWith { Arguments.empty with lineEnding := some .lf } sampleSources
      ⟨8, true, .crlf, true⟩ := .usual _ rfl ⟨_, rfl, by decide +kernel⟩
  have happlied := settings_of_startsWith hstart
  rw [hs] at happlied
  obtain rfl : s = ⟨8, false, .lf, true⟩ := by
    rw [Except.ok.inj happlied]
    decide +kernel
  exact ⟨hs, (hsettled _).2 rfl⟩

/-! ## The indent -/

/-- A width that the last flag for it gives is the indent, in spaces, unless the environment or the
settings file has turned tabs on: the width is without effect then, and no flag turns them off. -/
theorem indent_of_lastOf_indent? {gs : List Group} {a : Arguments} {n : Nat}
    (hread : read (wordsOf gs) = .ok a) (hindent : lastOf Group.indent? gs = some n)
    (htabs : Group.tabs ∉ gs) (hfile : ∀ path, a.config = some path → ∃ s, Holds w path s) :
    ∃ s b, Program.settings a w = .ok s ∧
      (∀ b', Strongest false [FlagIn w.environment "RUNE_USE_TABS",
        InFile w (settingsPath a) flag? "use_tabs" 1] b' ↔ b' = b) ∧
      s.options.indent = if b then ['\t'] else List.replicate n ' ' := by
  obtain ⟨-, rfl⟩ := read_wordsOf_eq_ok_iff.1 hread
  obtain ⟨s₀, hstart⟩ := exists_startsWith hfile
  obtain ⟨-, hinFile, -⟩ := strongest_inFile_of_startsWith hstart
  have hnone : lastOf Group.tabs? gs = none := by
    rw [lastOf, List.getLast?_eq_none_iff, List.filterMap_eq_nil_iff]
    intro g hg
    cases g with
    | tabs => exact absurd hg htabs
    | _ => rfl
  refine ⟨_, _, settings_of_startsWith hstart,
    fun b' => strongest_cons_iff (fun v => flagIn_iff) hinFile, ?_⟩
  rw [options, indentUnit]
  simp only [apply, asked, hindent, hnone, Option.getD_some, Option.getD_none, Bool.false_or]
  rfl

/-- A settings file that turns tabs on, beside an environment that may turn them off. -/
def tabsInFile (environment : Environment) : Surroundings where
  environment := environment
  files := fun path =>
    if path = defaultSettingsPath then .ok (bytesOf "[format]\nuse_tabs = true\n".toList)
    else .error .missing
  stdin := .error .missing

def fourSpaces : Group :=
  .indent ['4'] 4 (.plain ⟨by decide, Text.forall_mem_of_all (by decide), by decide, by decide⟩)

theorem startsWith_tabsInFile (environment : Environment) :
    StartsWith { Arguments.empty with indent := some 4 } (tabsInFile environment)
      ⟨2, true, .native, true⟩ :=
  .usual _ rfl ⟨_, rfl, by decide +kernel⟩

/-- The environment turns tabs off, and the width of the flag is the indent. -/
theorem indent_of_lastOf_indent?_tabsInFile :
    ∃ s, Program.settings { Arguments.empty with indent := some 4 }
        (tabsInFile [("RUNE_USE_TABS".toList, ['0'])]) = .ok s ∧
      s.options.indent = List.replicate 4 ' ' := by
  have hread : read (wordsOf [fourSpaces]) = .ok { Arguments.empty with indent := some 4 } := rfl
  obtain ⟨s, b, hs, hb, hindent⟩ := indent_of_lastOf_indent? (n := 4)
    (w := tabsInFile [("RUNE_USE_TABS".toList, ['0'])]) hread rfl (by simp [fourSpaces]) nofun
  have hno : FlagIn [("RUNE_USE_TABS".toList, ['0'])] "RUNE_USE_TABS" false :=
    flagIn_iff.2 (by decide)
  obtain rfl : false = b := (hb false).1 (.given hno)
  exact ⟨s, hs, hindent⟩

/-- A width on the command line is without effect where the settings file has turned tabs on. -/
theorem indent_of_tabsInFile :
    ∃ a s, read ["--indent".toList, ['4']] = .ok a ∧ a.tabs = false ∧
      Program.settings a (tabsInFile []) = .ok s ∧ s.options.indent ≠ List.replicate 4 ' ' :=
  ⟨_, _, rfl, rfl, settings_of_startsWith (startsWith_tabsInFile []), by decide +kernel⟩

end Settings

end PrettyPayload
