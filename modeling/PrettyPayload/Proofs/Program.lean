import PrettyPayload.Program
import PrettyPayload.Proofs.Dispatcher

/-!
# Runs of the program

A run comes to an output or to an error, and `Ends` says to which: the arguments are read first,
then the settings, then the payload, and what fails first decides. A settings file that the
arguments name has to be usable, the one of the usual name has not. `run_ends` says that every run
ends in exactly one way, and how that shows in its exit code, on its output and in its report.
-/

namespace PrettyPayload

namespace Program

variable {args : List Text} {a : Arguments} {w : Surroundings} {s : Settings} {t path : Text}
  {source : Except ReadError ByteArray} {r : ReadError}

/-! ## Definitions -/

def bytesOf (t : Text) : ByteArray := (String.ofList t).toUTF8

/-- Why no text can be read from a source: the source is unreadable, or it is not UTF-8. -/
def Unreadable (source : Except ReadError ByteArray) (r : ReadError) : Prop :=
  source = .error r ∨ ∃ bytes, source = .ok bytes ∧ (∀ t, bytes ≠ bytesOf t) ∧ r = .notText

/-- The file with a path is readable and holds these settings. -/
def Holds (w : Surroundings) (path : Text) (s : Settings) : Prop :=
  ∃ t, w.files path = .ok (bytesOf t) ∧ Settings.ofToml? t = some s

/-- The settings that a run starts with: those in the file that the arguments name or, where they
name none, those in the file of the usual name, and the standard ones where that holds none. -/
inductive StartsWith (a : Arguments) (w : Surroundings) : Settings → Prop
  | named (path : Text) (s : Settings) (hconfig : a.config = some path) (hs : Holds w path s) :
      StartsWith a w s
  | usual (s : Settings) (hconfig : a.config = none) (hs : Holds w defaultSettingsPath s) :
      StartsWith a w s
  | standard (hconfig : a.config = none) (hs : ∀ s, ¬Holds w defaultSettingsPath s) :
      StartsWith a w .standard

/-- The layout of the output: the environment goes before the settings that the run starts with, and
the arguments before both. -/
def layout (a : Arguments) (w : Surroundings) (s : Settings) : Options :=
  (a.apply (s.withEnvironment w.environment)).options

def payloadSource (a : Arguments) (w : Surroundings) : Except ReadError ByteArray :=
  match a.input with
  | .stdin => w.stdin
  | .file path => w.files path

def payloadError (a : Arguments) (r : ReadError) : Error :=
  match a.input with
  | .stdin => .stdinUnreadable r
  | .file path => .fileUnreadable path r

/-- What a run comes to: an error, or the text on its output. -/
inductive Ends (args : List Text) (w : Surroundings) : Except Error Text → Prop
  /-- The arguments are refused. -/
  | refused (e : Arguments.Error) (hargs : Arguments.read args = .error e) :
      Ends args w (.error (.arguments e))
  /-- Help is asked for. -/
  | help (a : Arguments) (hargs : Arguments.read args = .ok a) (hhelp : a.help = true) :
      Ends args w (.ok (usage ++ ['\n']))
  /-- The settings file that the arguments name is unreadable. -/
  | settingsUnreadable (a : Arguments) (path : Text) (r : ReadError)
      (hargs : Arguments.read args = .ok a) (hhelp : a.help = false)
      (hconfig : a.config = some path) (hr : Unreadable (w.files path) r) :
      Ends args w (.error (.settingsUnreadable r))
  /-- The settings file that the arguments name is malformed. -/
  | settingsMalformed (a : Arguments) (path t : Text) (hargs : Arguments.read args = .ok a)
      (hhelp : a.help = false) (hconfig : a.config = some path)
      (ht : w.files path = .ok (bytesOf t)) (hnone : Settings.ofToml? t = none) :
      Ends args w (.error .settingsMalformed)
  /-- The payload is unreadable. -/
  | payloadUnreadable (a : Arguments) (s : Settings) (r : ReadError)
      (hargs : Arguments.read args = .ok a) (hhelp : a.help = false) (hs : StartsWith a w s)
      (hr : Unreadable (payloadSource a w) r) : Ends args w (.error (payloadError a r))
  /-- The payload is formatted. -/
  | formatted (a : Arguments) (s : Settings) (t : Text) (answered : Traced Dispatcher.Outcome)
      (hargs : Arguments.read args = .ok a) (hhelp : a.help = false) (hs : StartsWith a w s)
      (ht : payloadSource a w = .ok (bytesOf t))
      (hformat : (Dispatcher.standard (layout a w s)).format a.payloadKind t = .ok answered) :
      Ends args w (.ok answered.result.text)

/-- How the end of a run can be seen. -/
def Outcome.Shows (o : Outcome) : Except Error Text → Prop
  | .ok t => o.code = 0 ∧ o.stdout = t ∧ o.report = []
  | .error e => o.code ≠ 0 ∧ o.stdout = [] ∧ o.report = e.report

/-! ## Reading texts -/

theorem decode_eq_ok_iff {bytes : ByteArray} : decode bytes = .ok t ↔ bytes = bytesOf t := by
  unfold decode bytesOf String.fromUTF8?
  by_cases hvalid : bytes.IsValidUTF8
  · rw [dif_pos hvalid]
    constructor
    · intro h
      rw [← Except.ok.inj h, String.ofList_toList]
      rfl
    · rintro rfl
      exact congrArg Except.ok String.toList_ofList
  · rw [dif_neg hvalid]
    constructor
    · exact nofun
    · rintro rfl
      exact absurd (String.ofList t).isValidUTF8 hvalid

theorem bytesOf_injective {t u : Text} (h : bytesOf t = bytesOf u) : t = u := by
  have ht : decode (bytesOf t) = .ok t := decode_eq_ok_iff.2 rfl
  rw [decode_eq_ok_iff.2 h] at ht
  exact (Except.ok.inj ht).symm

theorem decode_eq_error {bytes : ByteArray} (h : decode bytes = .error r) : r = .notText := by
  unfold decode at h
  split at h
  · cases h
  · exact (Except.error.inj h).symm

theorem bind_decode_eq_ok_iff : source >>= decode = .ok t ↔ source = .ok (bytesOf t) := by
  cases source with
  | error e => exact ⟨nofun, nofun⟩
  | ok bytes => exact decode_eq_ok_iff.trans ⟨congrArg Except.ok, Except.ok.inj⟩

theorem bind_decode_eq_error_iff : source >>= decode = .error r ↔ Unreadable source r := by
  cases source with
  | error e =>
    constructor
    · exact fun h => Or.inl (by rw [Except.error.inj h])
    · rintro (h | ⟨bytes, h, -⟩)
      · exact congrArg Except.error (Except.error.inj h)
      · cases h
  | ok bytes =>
    constructor
    · intro h
      refine Or.inr ⟨bytes, rfl, fun t ht => ?_, decode_eq_error h⟩
      have hok : decode bytes = .ok t := decode_eq_ok_iff.2 ht
      rw [show decode bytes = .error r from h] at hok
      cases hok
    · rintro (h | ⟨bytes', h, hnone, rfl⟩)
      · cases h
      · obtain rfl := Except.ok.inj h
        cases hdecode : decode bytes with
        | ok t => exact absurd (decode_eq_ok_iff.1 hdecode) (hnone t)
        | error r => rw [decode_eq_error hdecode] at hdecode; exact hdecode

/-! ## Settings -/

theorem settingsIn_eq_ok_iff : settingsIn w path = .ok s ↔ Holds w path s := by
  unfold settingsIn
  constructor
  · intro h
    split at h
    next => cases h
    next t ht =>
      split at h
      next s' hs =>
        obtain rfl := Except.ok.inj h
        exact ⟨t, bind_decode_eq_ok_iff.1 ht, hs⟩
      next => cases h
  · rintro ⟨t, ht, hs⟩
    rw [Surroundings.readFile, bind_decode_eq_ok_iff.2 ht]
    simp only [hs]

theorem settings_of_startsWith (h : StartsWith a w s) :
    settings a w = .ok (a.apply (s.withEnvironment w.environment)) := by
  cases h with
  | named path s hconfig hs =>
    rw [settings, hconfig]
    simp only [settingsIn_eq_ok_iff.2 hs]
    rfl
  | usual s hconfig hs =>
    rw [settings, hconfig, usualSettings, settingsIn_eq_ok_iff.2 hs]
    rfl
  | standard hconfig hs =>
    have husual : usualSettings w = .standard := by
      unfold usualSettings
      split
      next s hs' => exact absurd (settingsIn_eq_ok_iff.1 hs') (hs s)
      next => rfl
    rw [settings, hconfig, husual]
    rfl

/-- A run starts with some settings unless the file that the arguments name is no use. -/
theorem exists_startsWith (hread : ∀ path, a.config = some path → ∃ s, Holds w path s) :
    ∃ s, StartsWith a w s := by
  cases hconfig : a.config with
  | some path =>
    obtain ⟨s, hs⟩ := hread path hconfig
    exact ⟨s, .named path s hconfig hs⟩
  | none =>
    by_cases hs : ∃ s, Holds w defaultSettingsPath s
    · obtain ⟨s, hs⟩ := hs
      exact ⟨s, .usual s hconfig hs⟩
    · exact ⟨.standard, .standard hconfig (not_exists.1 hs)⟩

/-! ## The payload -/

theorem payload_eq (a : Arguments) (w : Surroundings) :
    payload a w = (payloadSource a w >>= decode).mapError (payloadError a) := by
  unfold payload payloadSource payloadError
  cases a.input <;> rfl

theorem result_formatPayload {options : Options} {kind : Kind}
    {answered : Traced Dispatcher.Outcome}
    (h : (Dispatcher.standard options).format kind t = .ok answered) :
    (formatPayload options kind t).result = answered.result.text := by
  rw [Dispatcher.format_standard] at h
  rw [formatPayload, Except.ok.inj h]

/-! ## Ends -/

theorem output_of_read (hargs : Arguments.read args = .ok a) (hhelp : a.help = false) :
    output args w = do
      let settings ← settings a w
      let t ← payload a w
      return formatPayload settings.options a.payloadKind t := by
  rw [output, hargs]
  simp only [Except.mapError, bind, Except.bind, hhelp]
  rfl

theorem output_of_ends {result : Except Error Text} (h : Ends args w result) :
    (output args w).map Traced.result = result := by
  cases h with
  | refused e hargs =>
    rw [output, hargs]
    rfl
  | help a hargs hhelp =>
    rw [output, hargs]
    simp only [Except.mapError, bind, Except.bind, hhelp]
    rfl
  | settingsUnreadable a path r hargs hhelp hconfig hr =>
    have hread : w.readFile path = .error r := bind_decode_eq_error_iff.2 hr
    have hsettings : settings a w = .error (.settingsUnreadable r) := by
      rw [settings, hconfig]
      simp only [settingsIn, hread]
      rfl
    rw [output_of_read hargs hhelp, hsettings]
    rfl
  | settingsMalformed a path t hargs hhelp hconfig ht hnone =>
    have hread : w.readFile path = .ok t := bind_decode_eq_ok_iff.2 ht
    have hsettings : settings a w = .error .settingsMalformed := by
      rw [settings, hconfig]
      simp only [settingsIn, hread, hnone]
      rfl
    rw [output_of_read hargs hhelp, hsettings]
    rfl
  | payloadUnreadable a s r hargs hhelp hs hr =>
    have hpayload : payload a w = .error (payloadError a r) := by
      rw [payload_eq, bind_decode_eq_error_iff.2 hr]
      rfl
    rw [output_of_read hargs hhelp, settings_of_startsWith hs, hpayload]
    rfl
  | formatted a s t answered hargs hhelp hs ht hformat =>
    have hpayload : payload a w = .ok t := by
      rw [payload_eq, bind_decode_eq_ok_iff.2 ht]
      rfl
    rw [output_of_read hargs hhelp, settings_of_startsWith hs, hpayload]
    exact congrArg Except.ok (result_formatPayload hformat)

theorem exists_ends (args : List Text) (w : Surroundings) : ∃ result, Ends args w result := by
  cases hargs : Arguments.read args with
  | error e => exact ⟨_, .refused e hargs⟩
  | ok a =>
    cases hhelp : a.help with
    | true => exact ⟨_, .help a hargs hhelp⟩
    | false =>
      by_cases hread : ∀ path, a.config = some path → ∃ s, Holds w path s
      · obtain ⟨s, hs⟩ := exists_startsWith hread
        cases hsource : payloadSource a w >>= decode with
        | error r =>
          exact ⟨_, .payloadUnreadable a s r hargs hhelp hs (bind_decode_eq_error_iff.1 hsource)⟩
        | ok t =>
          exact ⟨_, .formatted a s t _ hargs hhelp hs (bind_decode_eq_ok_iff.1 hsource)
            (Dispatcher.format_standard _ _ _)⟩
      · obtain ⟨path, hpath⟩ := not_forall.1 hread
        obtain ⟨hconfig, hnone⟩ := Classical.not_imp.1 hpath
        cases hfile : w.files path >>= decode with
        | error r =>
          exact ⟨_, .settingsUnreadable a path r hargs hhelp hconfig
            (bind_decode_eq_error_iff.1 hfile)⟩
        | ok t =>
          have ht := bind_decode_eq_ok_iff.1 hfile
          cases hs : Settings.ofToml? t with
          | some s => exact absurd ⟨s, t, ht, hs⟩ hnone
          | none => exact ⟨_, .settingsMalformed a path t hargs hhelp hconfig ht hs⟩

/-- Exit code, output and report of a run are those of its output. -/
theorem shows_run (args : List Text) (w : Surroundings) :
    (run args w).Shows ((output args w).map Traced.result) := by
  unfold run
  cases output args w with
  | ok out => exact ⟨rfl, rfl, rfl⟩
  | error e => exact ⟨Nat.one_ne_zero, rfl, rfl⟩

theorem text_of_malformed {options : Options} {kind : Kind}
    {answered : Traced Dispatcher.Outcome} {failure : Failure}
    (h : (Dispatcher.standard options).format kind t = .ok answered)
    (hfailure : (Format.payload kind options t).result = .error failure) :
    answered.result.text = t := by
  by_cases huntouched : kind = .none ∨ t = []
  · rw [Dispatcher.format_of_untouched _ huntouched] at h
    rw [← Except.ok.inj h]
    rfl
  · rw [Dispatcher.format, if_neg huntouched, Dispatcher.formatter?_standard,
      if_neg fun hkind => huntouched (Or.inl hkind)] at h
    rw [← Except.ok.inj h]
    rcases Format.failOpen_payload kind options t with ⟨hok, -⟩ | ⟨-, -, hsame, -⟩
    · rw [hfailure] at hok
      cases hok
    · exact hsame

/-- Every run ends in exactly one of the ways, and its exit code, output and report show in which
one. Nothing is on the output of a run that fails, and a payload that is only malformed is there as
it is. -/
theorem run_ends (args : List Text) (w : Surroundings) :
    (∃ result, Ends args w result ∧ (∀ other, Ends args w other → other = result) ∧
      (run args w).Shows result) ∧
    ((run args w).code ≠ 0 → (run args w).stdout = []) ∧
    ∀ a s t failure, Arguments.read args = .ok a → a.help = false → StartsWith a w s →
      payloadSource a w = .ok (bytesOf t) →
      (Format.payload a.payloadKind (layout a w s) t).result = .error failure →
      (run args w).code = 0 ∧ (run args w).stdout = t := by
  have hshows : ∀ result, Ends args w result → (run args w).Shows result := by
    intro result hresult
    rw [← output_of_ends hresult]
    exact shows_run args w
  obtain ⟨result, hresult⟩ := exists_ends args w
  refine ⟨⟨result, hresult, fun other hother => ?_, hshows result hresult⟩, fun hcode => ?_, ?_⟩
  · rw [← output_of_ends hother, output_of_ends hresult]
  · have hshow := hshows result hresult
    cases result with
    | ok t => exact absurd hshow.1 hcode
    | error e => exact hshow.2.1
  · intro a s t failure hargs hhelp hs ht hfailure
    have hformat := Dispatcher.format_standard (layout a w s) a.payloadKind t
    have hshow := hshows _ (.formatted a s t _ hargs hhelp hs ht hformat)
    rw [text_of_malformed hformat hfailure] at hshow
    exact ⟨hshow.1, hshow.2.1⟩

/-- A malformed stylesheet on standard input, a settings file of the usual name that is malformed,
too, a stylesheet and a settings file for it, and a line ending from the environment. -/
def sampleSurroundings : Surroundings where
  environment := [("RUNE_LINE_ENDING".toList, "crlf".toList)]
  files := fun path =>
    if path = defaultSettingsPath then .ok (bytesOf "format = 1".toList)
    else if path = ['d'] then
      .ok (bytesOf "[format]\nindent_width = 3\nline_ending = \"lf\"\n".toList)
    else if path = "e.css".toList then .ok (bytesOf "a\x7bb:c\x7d".toList)
    else .error .missing
  stdin := .ok (bytesOf "a\x7b".toList)

def sampleArguments : List Text :=
  ["--config".toList, ['d'], "--indent".toList, ['1'], "e.css".toList]

/-- The stylesheet is told by its name; the width is that of the arguments and not that of the file,
the line ending that of the environment. -/
theorem ends_sampleArguments :
    Ends sampleArguments sampleSurroundings (.ok "a \x7b\r\n b: c;\r\n\x7d".toList) := by
  have hargs : Arguments.read sampleArguments =
      .ok { Arguments.empty with
        config := some ['d'], indent := some 1, named := some (.file "e.css".toList) } := by
    decide +kernel
  have hstart : StartsWith
      { Arguments.empty with
        config := some ['d'], indent := some 1, named := some (.file "e.css".toList) }
      sampleSurroundings ⟨3, false, .lf, true⟩ :=
    .named ['d'] _ rfl ⟨_, rfl, by decide +kernel⟩
  have htext : (Dispatcher.formatStandard ⟨[' '], .crlf, true⟩ .css
      "a\x7bb:c\x7d".toList).result.text = "a \x7b\r\n b: c;\r\n\x7d".toList := by
    decide +kernel
  rw [← htext]
  exact .formatted _ _ _ _ hargs rfl hstart rfl (Dispatcher.format_standard _ _ _)

/-- The unusable settings file is passed over, and the malformed stylesheet comes back as it is; a
settings file that is named and missing ends the run; and the other stylesheet is laid out as the
arguments, the environment and the settings file say. -/
theorem run_ends_sampleSurroundings :
    (run ["--kind".toList, "css".toList] sampleSurroundings).code = 0 ∧
      (run ["--kind".toList, "css".toList] sampleSurroundings).stdout = "a\x7b".toList ∧
      (run ["--config".toList, ['c']] sampleSurroundings).code ≠ 0 ∧
      (run ["--config".toList, ['c']] sampleSurroundings).stdout = [] ∧
      (run sampleArguments sampleSurroundings).code = 0 ∧
      (run sampleArguments sampleSurroundings).stdout =
        "a \x7b\r\n b: c;\r\n\x7d".toList := by
  have hargs : Arguments.read ["--kind".toList, "css".toList] =
      .ok { Arguments.empty with kind := some .css } := by decide +kernel
  have hargs' : Arguments.read ["--config".toList, ['c']] =
      .ok { Arguments.empty with config := some ['c'] } := by decide +kernel
  have hsettings : ∀ s, ¬Holds sampleSurroundings defaultSettingsPath s := by
    rintro s ⟨t, ht, hs⟩
    obtain rfl : "format = 1".toList = t := bytesOf_injective (Except.ok.inj ht)
    have hnone : Settings.ofToml? "format = 1".toList = none := by decide +kernel
    rw [hnone] at hs
    cases hs
  have hmalformed := (run_ends ["--kind".toList, "css".toList] sampleSurroundings).2.2 _ _ _
    (.css (.unclosedBlock ['a'])) hargs rfl (.standard rfl hsettings) rfl (by decide +kernel)
  obtain ⟨⟨result, hresult, honly, hshows⟩, hsilent, -⟩ :=
    run_ends ["--config".toList, ['c']] sampleSurroundings
  have hunreadable : Ends ["--config".toList, ['c']] sampleSurroundings
      (.error (.settingsUnreadable .missing)) :=
    .settingsUnreadable _ ['c'] .missing hargs' rfl rfl (Or.inl rfl)
  rw [← honly _ hunreadable] at hshows
  obtain ⟨⟨laidOut, -, honly', hshows'⟩, -⟩ := run_ends sampleArguments sampleSurroundings
  rw [← honly' _ ends_sampleArguments] at hshows'
  exact ⟨hmalformed.1, hmalformed.2, hshows.1, hsilent hshows.1, hshows'.1, hshows'.2.1⟩

end Program

end PrettyPayload
