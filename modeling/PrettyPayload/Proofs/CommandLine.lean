import PrettyPayload.CommandLine
import PrettyPayload.Proofs.Text.Break
import PrettyPayload.Proofs.Text.Name
import PrettyPayload.Proofs.Text.Number

/-!
# Command lines

A command line is a list of groups: a flag, a flag with its value, or the name of the input. Reading
accepts exactly the lists that fall into groups of which at most one is an input. The groups of a
list are its only ones, each field of the result is what the last group that sets it says, and the
order of groups that set different fields is without effect.
-/

namespace PrettyPayload

namespace Arguments

variable {α : Type} {args rest : List Text} {arg value : Text} {a b : Arguments}

/-! ## Groups -/

def NamesInput (arg : Text) : Prop := arg ≠ "-h".toList ∧ ¬"--".toList <+: arg

inductive Group where
  | kind (value : Text) (kind : Kind) (h : Text.IsName kind.name.toList value)
  | config (path : Text)
  | indent (value : Text) (width : Nat) (h : Text.Spells value width)
  | tabs
  | crlf
  | lf
  | help (flag : Text) (h : flag = "-h".toList ∨ flag = "--help".toList)
  | input (arg : Text) (h : NamesInput arg)

namespace Group

def words : Group → List Text
  | kind value _ _ => ["--kind".toList, value]
  | config path => ["--config".toList, path]
  | indent value _ _ => ["--indent".toList, value]
  | tabs => ["--tabs".toList]
  | crlf => ["--crlf".toList]
  | lf => ["--lf".toList]
  | help flag _ => [flag]
  | input arg _ => [arg]

inductive Field where
  | kind
  | config
  | indent
  | tabs
  | lineEnding
  | input
  | help
  deriving DecidableEq, Repr

def field : Group → Field
  | kind .. => .kind
  | config _ => .config
  | indent .. => .indent
  | tabs => .tabs
  | crlf => .lineEnding
  | lf => .lineEnding
  | help .. => .help
  | input .. => .input

/-! ### The values that a group sets -/

def kind? : Group → Option Kind
  | kind _ k _ => some k
  | _ => none

def config? : Group → Option Text
  | config path => some path
  | _ => none

def indent? : Group → Option Nat
  | indent _ n _ => some n
  | _ => none

def tabs? : Group → Option Bool
  | tabs => some true
  | _ => none

def lineEnding? : Group → Option LineEnding
  | crlf => some .crlf
  | lf => some .lf
  | _ => none

def help? : Group → Option Bool
  | help _ _ => some true
  | _ => none

def named? : Group → Option Text
  | input arg _ => some arg
  | _ => none

/-- The input; a dash stands for standard input. -/
def input? (g : Group) : Option Input :=
  g.named?.map fun arg => if arg = ['-'] then .stdin else .file arg

end Group

open PrettyPayload.Arguments.Group

variable {g g' : Group} {gs gs' : List Group}

def wordsOf (gs : List Group) : List Text := gs.flatMap words

def lastOf (value? : Group → Option α) (gs : List Group) : Option α :=
  (gs.filterMap value?).getLast?

def asked (gs : List Group) : Arguments where
  kind := lastOf kind? gs
  config := lastOf config? gs
  indent := lastOf indent? gs
  tabs := (lastOf tabs? gs).getD false
  lineEnding := lastOf lineEnding? gs
  named := lastOf input? gs
  help := (lastOf help? gs).getD false

def HasOneInput (gs : List Group) : Prop := (gs.filterMap named?).length ≤ 1

/-- The same groups, those that set one field being in the same order. -/
def Reordered (gs gs' : List Group) : Prop :=
  ∀ f : Field, gs.filter (fun g => g.field = f) = gs'.filter (fun g => g.field = f)

/-! ## Reading groups -/

/-- What a group asks for on top of what was asked for before it. -/
def Group.onto (a : Arguments) (g : Group) : Arguments where
  kind := g.kind?.or a.kind
  config := g.config?.or a.config
  indent := g.indent?.or a.indent
  tabs := g.tabs?.getD a.tabs
  lineEnding := g.lineEnding?.or a.lineEnding
  named := g.input?.or a.named
  help := g.help?.getD a.help

/-! ### Single arguments -/

theorem NamesInput.valued? (h : NamesInput arg) : Arguments.valued? arg = none := by
  have hne : ∀ flag : Text, "--".toList <+: flag → arg ≠ flag := by
    rintro flag hflag rfl
    exact h.2 hflag
  rw [Arguments.valued?, if_neg (hne _ (by decide)), if_neg (hne _ (by decide)),
    if_neg (hne _ (by decide))]

theorem NamesInput.plain? (h : NamesInput arg) (a : Arguments) : Arguments.plain? arg a = none := by
  have hne : ∀ flag : Text, "--".toList <+: flag → arg ≠ flag := by
    rintro flag hflag rfl
    exact h.2 hflag
  rw [Arguments.plain?, if_neg (hne _ (by decide)), if_neg (hne _ (by decide)),
    if_neg (hne _ (by decide)), if_neg]
  rintro (hshort | hlong)
  · exact h.1 hshort
  · exact hne _ (by decide) hlong

theorem readOnto_valued {flag : String} {set : Text → Arguments → Except Error Arguments}
    (h : valued? arg = some (flag, set)) (value : Text) (rest : List Text) :
    readOnto a (arg :: value :: rest) = set value a >>= fun a => readOnto a rest := by
  rw [readOnto, h]
  dsimp only
  cases set value a <;> rfl

theorem readOnto_plain (hvalued : valued? arg = none) (hplain : plain? arg a = some b)
    (rest : List Text) : readOnto a (arg :: rest) = readOnto b rest := by
  rw [readOnto, hvalued]
  simp only [hplain]

theorem readOnto_input (h : NamesInput arg) (a : Arguments) (rest : List Text) :
    readOnto a (arg :: rest) =
      if a.named.isSome then .error (.secondInput arg)
      else readOnto ((Group.input arg h).onto a) rest := by
  rw [readOnto, h.valued?]
  simp only [h.plain?, setInput]
  rw [if_neg (mt Text.startsWith_iff.1 h.2)]
  cases hnamed : a.named with
  | none => rfl
  | some input => rfl

/-! ### Groups -/

theorem readOnto_words_append (g : Group) (h : g.named? = none ∨ a.named = none)
    (rest : List Text) : readOnto a (g.words ++ rest) = readOnto (g.onto a) rest := by
  cases g with
  | kind value kind hvalue =>
    have hset : setKind value a = .ok ((Group.kind value kind hvalue).onto a) := by
      rw [setKind, Kind.ofName?_eq_some_iff.2 hvalue]
      rfl
    refine (readOnto_valued rfl value rest).trans ?_
    rw [hset]
    rfl
  | config path =>
    have hflag : valued? "--config".toList = some ("--config", setConfig) := rfl
    exact readOnto_valued hflag path rest
  | indent value width hvalue =>
    have hset : setIndent value a = .ok ((Group.indent value width hvalue).onto a) := by
      rw [setIndent, Text.number_eq_ok_iff.2 hvalue]
      rfl
    refine (readOnto_valued rfl value rest).trans ?_
    rw [hset]
    rfl
  | tabs => exact readOnto_plain rfl rfl rest
  | crlf => exact readOnto_plain rfl rfl rest
  | lf => exact readOnto_plain rfl rfl rest
  | help flag hflag =>
    rcases hflag with rfl | rfl
    · exact readOnto_plain rfl rfl rest
    · exact readOnto_plain rfl rfl rest
  | input arg harg =>
    have hnamed : a.named = none := h.resolve_left nofun
    rw [words, List.singleton_append, readOnto_input harg, hnamed]
    rfl

theorem wordsOf_cons (g : Group) (gs : List Group) :
    wordsOf (g :: gs) = g.words ++ wordsOf gs :=
  List.flatMap_cons

theorem exists_words_of_valued? {flag : String}
    {set : Text → Arguments → Except Error Arguments} (h : valued? arg = some (flag, set))
    (hset : set value a = .ok b) : ∃ g : Group, g.words = [arg, value] := by
  rw [valued?] at h
  split at h
  next harg =>
    obtain ⟨-, rfl⟩ := Prod.mk.inj (Option.some.inj h)
    rw [setKind] at hset
    split at hset
    next kind hkind =>
      exact ⟨.kind value kind (Kind.ofName?_eq_some_iff.1 hkind), by rw [harg, words]⟩
    next => cases hset
  next =>
    split at h
    next harg => exact ⟨.config value, by rw [harg, words]⟩
    next =>
      split at h
      next harg =>
        obtain ⟨-, rfl⟩ := Prod.mk.inj (Option.some.inj h)
        rw [setIndent] at hset
        split at hset
        next n hn => exact ⟨.indent value n (Text.number_eq_ok_iff.1 hn), by rw [harg, words]⟩
        next => cases hset
      next => cases h

theorem exists_words_of_plain? (h : plain? arg a = some b) : ∃ g : Group, g.words = [arg] := by
  rw [plain?] at h
  split at h
  next harg => exact ⟨.tabs, by rw [harg, words]⟩
  next =>
    split at h
    next harg => exact ⟨.crlf, by rw [harg, words]⟩
    next =>
      split at h
      next harg => exact ⟨.lf, by rw [harg, words]⟩
      next =>
        split at h
        next harg => exact ⟨.help arg harg, rfl⟩
        next => cases h

theorem namesInput_of_plain? (hplain : plain? arg a = none)
    (hdashes : ¬Text.startsWith "--".toList arg = true) : NamesInput arg := by
  refine ⟨?_, mt Text.startsWith_iff.2 hdashes⟩
  rintro rfl
  cases hplain

theorem exists_wordsOf_eq (h : readOnto a args = .ok b) : ∃ gs, wordsOf gs = args := by
  fun_induction readOnto a args with
  | case1 a => exact ⟨[], rfl⟩
  | case3 a arg flag set hvalued value rest a' hset ih =>
    obtain ⟨g, hg⟩ := exists_words_of_valued? hvalued hset
    obtain ⟨gs, rfl⟩ := ih h
    exact ⟨g :: gs, by rw [wordsOf_cons, hg]; rfl⟩
  | case5 a arg rest hvalued a' hplain ih =>
    obtain ⟨g, hg⟩ := exists_words_of_plain? hplain
    obtain ⟨gs, rfl⟩ := ih h
    exact ⟨g :: gs, by rw [wordsOf_cons, hg]; rfl⟩
  | case7 a arg rest hvalued hplain hdashes a' hset ih =>
    obtain ⟨gs, rfl⟩ := ih h
    exact ⟨.input arg (namesInput_of_plain? hplain hdashes) :: gs, rfl⟩
  | case2 | case4 | case6 | case8 => cases h

theorem readOnto_wordsOf (gs : List Group) (a : Arguments) :
    readOnto a (wordsOf gs) =
      match (gs.filterMap named?)[if a.named.isSome then 0 else 1]? with
      | some arg => .error (.secondInput arg)
      | none => .ok (gs.foldl Group.onto a) := by
  induction gs generalizing a with
  | nil => rfl
  | cons g gs ih =>
    rw [wordsOf_cons, List.foldl_cons]
    cases hg : g.named? with
    | none =>
      have hnamed : (g.onto a).named = a.named := by
        rw [Group.onto, input?, hg]
        rfl
      rw [readOnto_words_append g (Or.inl hg), ih, hnamed, List.filterMap_cons_none hg]
    | some arg =>
      rw [List.filterMap_cons_some hg]
      cases ha : a.named with
      | none =>
        have hnamed : (g.onto a).named.isSome = true := by
          rw [Group.onto, input?, hg]
          rfl
        rw [readOnto_words_append g (Or.inr ha), ih, hnamed]
        rfl
      | some input =>
        cases g with
        | input arg' harg =>
          obtain rfl := Option.some.inj hg
          rw [words, List.singleton_append, readOnto_input harg, ha]
          rfl
        | _ => cases hg

/-! ### The last value -/

theorem lastOf_cons (value? : Group → Option α) (g : Group) (gs : List Group) :
    lastOf value? (g :: gs) = (lastOf value? gs).or (value? g) := by
  rw [lastOf, lastOf]
  cases hg : value? g with
  | none => rw [List.filterMap_cons_none hg, Option.or_none]
  | some v =>
    rw [List.filterMap_cons_some hg, List.getLast?_cons]
    cases (gs.filterMap value?).getLast? <;> rfl

theorem foldl_onto (gs : List Group) (a : Arguments) :
    gs.foldl Group.onto a =
      { kind := (lastOf kind? gs).or a.kind
        config := (lastOf config? gs).or a.config
        indent := (lastOf indent? gs).or a.indent
        tabs := (lastOf tabs? gs).getD a.tabs
        lineEnding := (lastOf lineEnding? gs).or a.lineEnding
        named := (lastOf input? gs).or a.named
        help := (lastOf help? gs).getD a.help } := by
  induction gs generalizing a with
  | nil => rfl
  | cons g gs ih =>
    rw [List.foldl_cons, ih]
    simp only [lastOf_cons, Group.onto, Option.or_assoc, Option.getD_or]

theorem foldl_onto_empty (gs : List Group) : gs.foldl Group.onto empty = asked gs := by
  rw [foldl_onto]
  simp only [empty, Option.or_none]
  rfl

theorem read_wordsOf (gs : List Group) :
    read (wordsOf gs) =
      match (gs.filterMap named?)[1]? with
      | some arg => .error (.secondInput arg)
      | none => .ok (asked gs) := by
  rw [read, readOnto_wordsOf, foldl_onto_empty]
  rfl

theorem read_wordsOf_eq_ok_iff : read (wordsOf gs) = .ok a ↔ HasOneInput gs ∧ asked gs = a := by
  rw [read_wordsOf, HasOneInput]
  cases hsecond : (gs.filterMap named?)[1]? with
  | none =>
    have hone := List.getElem?_eq_none_iff.1 hsecond
    exact ⟨fun h => ⟨hone, Except.ok.inj h⟩, fun h => congrArg Except.ok h.2⟩
  | some arg =>
    have htwo := (List.getElem?_eq_some_iff.1 hsecond).1
    exact ⟨nofun, fun h => absurd h.1 (Nat.not_le_of_lt htwo)⟩

/-! ## The groups of a list -/

/-- Whether a group has a value shows in its first argument. -/
theorem length_words (g : Group) (rest : List Text) :
    g.words.length = if ((g.words ++ rest).head?.bind valued?).isSome then 2 else 1 := by
  cases g with
  | help flag hflag => rcases hflag with rfl | rfl <;> rfl
  | input arg harg =>
    rw [words, List.singleton_append, List.head?_cons, Option.bind_some, harg.valued?]
    rfl
  | _ => rfl

/-- A group is known by its arguments: read alone, they tell what it sets, and to what. -/
theorem words_injective (h : g.words = g'.words) : g = g' := by
  have honto : g.onto empty = g'.onto empty := by
    have hread : ∀ g : Group, readOnto empty g.words = .ok (g.onto empty) := by
      intro g
      rw [← List.append_nil g.words, readOnto_words_append g (Or.inr rfl)]
      rfl
    exact Except.ok.inj ((hread g).symm.trans (h ▸ hread g'))
  cases g <;> cases g' <;>
    simp_all [words, Group.onto, empty, kind?, config?, indent?, tabs?, lineEnding?, help?, input?,
      named?]

theorem words_append_inj (h : g.words ++ args = g'.words ++ rest) : g = g' ∧ args = rest := by
  have hlength : g.words.length = g'.words.length := by
    rw [length_words g args, length_words g' rest, h]
  obtain ⟨hwords, hrest⟩ := List.append_inj h hlength
  exact ⟨words_injective hwords, hrest⟩

theorem words_ne_nil (g : Group) : g.words ≠ [] := by
  cases g <;> exact List.cons_ne_nil _ _

/-- A list falls into groups in one way at most. -/
theorem wordsOf_injective (h : wordsOf gs = wordsOf gs') : gs = gs' := by
  induction gs generalizing gs' with
  | nil =>
    cases gs' with
    | nil => rfl
    | cons g' gs' => exact absurd (List.append_eq_nil_iff.1 h.symm).1 (words_ne_nil g')
  | cons g gs ih =>
    cases gs' with
    | nil => exact absurd (List.append_eq_nil_iff.1 h).1 (words_ne_nil g)
    | cons g' gs' =>
      obtain ⟨rfl, hrest⟩ := words_append_inj h
      rw [ih hrest]

/-! ## The order of groups -/

/-- Only groups that set a field give a value of this kind. -/
def Concerns (value? : Group → Option α) (f : Field) : Prop :=
  ∀ g v, value? g = some v → g.field = f

theorem Reordered.filterMap_eq {value? : Group → Option α} {f : Field} (h : Reordered gs gs')
    (hf : Concerns value? f) : gs.filterMap value? = gs'.filterMap value? := by
  have hvalue : value? = fun g => if decide (g.field = f) then value? g else none := by
    funext g
    cases hg : value? g with
    | none => rw [ite_self]
    | some v => rw [if_pos (decide_eq_true (hf g v hg))]
  have hfilter : ∀ gs : List Group,
      gs.filterMap value? = (gs.filter fun g => g.field = f).filterMap value? := by
    intro gs
    rw [List.filterMap_filter, ← hvalue]
  rw [hfilter gs, h f, ← hfilter gs']

theorem Reordered.lastOf_eq {value? : Group → Option α} {f : Field} (h : Reordered gs gs')
    (hf : Concerns value? f) : lastOf value? gs = lastOf value? gs' :=
  congrArg List.getLast? (h.filterMap_eq hf)

theorem concerns_fields :
    Concerns named? .input ∧ Concerns kind? .kind ∧ Concerns config? .config ∧
      Concerns indent? .indent ∧ Concerns tabs? .tabs ∧ Concerns lineEnding? .lineEnding ∧
      Concerns help? .help := by
  refine ⟨?_, ?_, ?_, ?_, ?_, ?_, ?_⟩ <;> intro g v hv <;> cases g <;>
    simp_all [named?, kind?, config?, indent?, tabs?, lineEnding?, help?, field]

theorem concerns_input? : Concerns input? .input := by
  intro g v hv
  obtain ⟨arg, harg, -⟩ := Option.map_eq_some_iff.1 hv
  exact concerns_fields.1 g arg harg

theorem Reordered.asked_eq (h : Reordered gs gs') : asked gs = asked gs' := by
  obtain ⟨-, hkind, hconfig, hindent, htabs, hending, hhelp⟩ := concerns_fields
  rw [asked, asked, h.lastOf_eq hkind, h.lastOf_eq hconfig, h.lastOf_eq hindent,
    h.lastOf_eq htabs, h.lastOf_eq hending, h.lastOf_eq concerns_input?, h.lastOf_eq hhelp]

/-- Reordering changes neither what is asked for nor what is refused. -/
theorem Reordered.read_eq (h : Reordered gs gs') : read (wordsOf gs) = read (wordsOf gs') := by
  rw [read_wordsOf, read_wordsOf, h.filterMap_eq concerns_fields.1, h.asked_eq]

/-- Arguments are accepted exactly if they fall into groups of which at most one is an input, and
what is read is what the last group that sets a field says. There is one way at most in which they
fall into groups, and the order of groups that set different fields is without effect. -/
theorem read_eq_ok_iff_groups (args : List Text) :
    (∀ a, read args = .ok a ↔ ∃ gs, wordsOf gs = args ∧ HasOneInput gs ∧ asked gs = a) ∧
      (∀ gs gs', wordsOf gs = args → wordsOf gs' = args → gs = gs') ∧
      ∀ gs gs', wordsOf gs = args → Reordered gs gs' → read (wordsOf gs') = read args := by
  refine ⟨fun a => ⟨fun h => ?_, ?_⟩, ?_, ?_⟩
  · obtain ⟨gs, rfl⟩ := exists_wordsOf_eq h
    exact ⟨gs, rfl, read_wordsOf_eq_ok_iff.1 h⟩
  · rintro ⟨gs, rfl, h⟩
    exact read_wordsOf_eq_ok_iff.2 h
  · rintro gs gs' rfl h
    exact wordsOf_injective h.symm
  · rintro gs gs' rfl h
    exact h.read_eq.symm

def sampleWidth : Group :=
  .indent "+04".toList 4
    (.plus ⟨by decide, Text.forall_mem_of_all (by decide), by decide, by decide⟩)

def otherWidth : Group :=
  .indent ['2'] 2 (.plain ⟨by decide, Text.forall_mem_of_all (by decide), by decide, by decide⟩)

def sampleInput : Group := .input ['-'] ⟨by decide, by decide⟩

/-- Of two widths the later one counts, and the input may stand behind all flags. -/
theorem read_eq_ok_iff_groups_twoWidths :
    read ["--indent".toList, "+04".toList, ['-'], "--tabs".toList, "--indent".toList, ['2']] =
        .ok ⟨none, none, some 2, true, none, some .stdin, false⟩ ∧
      read ["--tabs".toList, "--indent".toList, "+04".toList, "--indent".toList, ['2'], ['-']] =
        .ok ⟨none, none, some 2, true, none, some .stdin, false⟩ := by
  obtain ⟨haccepted, -, hreordered⟩ :=
    read_eq_ok_iff_groups (wordsOf [sampleWidth, sampleInput, .tabs, otherWidth])
  have hread : read (wordsOf [sampleWidth, sampleInput, .tabs, otherWidth]) =
      .ok ⟨none, none, some 2, true, none, some .stdin, false⟩ :=
    (haccepted _).2 ⟨_, rfl, Nat.le_refl 1, rfl⟩
  refine ⟨hread, ?_⟩
  rw [← hread]
  refine hreordered _ [.tabs, sampleWidth, otherWidth, sampleInput] rfl ?_
  intro f
  cases f <;> rfl

end Arguments

end PrettyPayload
