import PrettyPayload.Format.Event
import PrettyPayload.Pattern.Meaning
import PrettyPayload.Text.ControlSequence

/-!
# The log

Events are logged under a level and a topic. A log filter is a list of rules, each for the topics
that start in one way or for all, and the rule with the longest such start decides up to which level
is logged. A filter is written as rules between commas: a topic and a level around an equals sign,
or one of the two alone. The pattern that stands behind a slash has to occur in every line.

A line is written as a terminal shows it, without control sequences.
-/

namespace PrettyPayload

namespace Log

inductive Level where
  | error
  | warn
  | info
  | debug
  | trace
  deriving DecidableEq, Repr

namespace Level

def all : List Level := [error, warn, info, debug, trace]

def name : Level → String
  | error => "ERROR"
  | warn => "WARN"
  | info => "INFO"
  | debug => "DEBUG"
  | trace => "TRACE"

/-- The number of levels that matter at least as much. -/
def rank : Level → Nat
  | error => 1
  | warn => 2
  | info => 3
  | debug => 4
  | trace => 5

/-- The number of levels that a word of a filter admits, whatever its case. -/
def limit? (t : Text) : Option Nat :=
  if Text.equalsIgnoringCase "off".toList t then some 0
  else (all.find? fun level => Text.equalsIgnoringCase level.name.toList t).map rank

end Level

/-! ## Filters -/

/-- Up to which level the topics with a common start are logged. -/
structure Rule where
  /-- The common start; nothing where the rule is for all topics. -/
  topic : Option Text
  limit : Nat
  deriving DecidableEq, Repr

namespace Rule

def covers (rule : Rule) (topic : Text) : Bool :=
  rule.topic.all fun start => Text.startsWith start topic

def length (rule : Rule) : Nat := (rule.topic.map Text.byteLength).getD 0

/-- Puts a rule in the place of one for the same topics, or at the end. -/
def insert (rule : Rule) : List Rule → List Rule
  | [] => [rule]
  | other :: rules =>
    if other.topic = rule.topic then rule :: rules else other :: insert rule rules

end Rule

/-- Which lines are logged. -/
structure Filter where
  /-- The rules, no two of them for the same topics. -/
  rules : List Rule
  /-- What has to occur in a line, if anything. -/
  pattern : Option Pattern.Expression
  deriving DecidableEq, Repr

def complaint (part : Text) : String :=
  "warning: invalid logging spec '" ++ String.ofList part ++ "', ignoring it"

def readRule (part : Text) : Except String Rule :=
  let everything : Nat := Level.trace.rank
  match Text.splitOn '=' part with
  | [word] =>
    match Level.limit? word with
    | some limit => .ok ⟨none, limit⟩
    | none => .ok ⟨some word, everything⟩
  | [topic, word] =>
    match Text.trim Text.isBlank word with
    | [] => .ok ⟨some topic, everything⟩
    | word =>
      match Level.limit? word with
      | some limit => .ok ⟨some topic, limit⟩
      | none => .error (complaint word)
  | _ => .error (complaint part)

def readPattern (t : Text) : Except String Pattern.Expression :=
  (Pattern.compile t).mapError fun refusal =>
    "warning: invalid regex filter - " ++ String.ofList (refusal.message t) ++ ", ignoring it"

def complaintsOf {α : Type} (results : List (Except String α)) : List String :=
  results.filterMap fun
    | .ok _ => none
    | .error complaint => some complaint

namespace Filter

def standard : Filter := ⟨[⟨none, Level.error.rank⟩], none⟩

/-- The rules that remain of some rules; of two for the same topics, the later one. Without any,
only errors are logged. -/
def rulesOf (rules : List Rule) : List Rule :=
  match rules with
  | [] => standard.rules
  | _ => rules.foldl (fun kept rule => rule.insert kept) []

def read (t : Text) : Filter × List String :=
  match Text.splitOn '/' t with
  | rules :: patterns =>
    if patterns.length > 1 then
      (standard, ["warning: invalid logging spec '" ++ String.ofList t ++
        "' (too many '/'s), ignoring it"])
    else
      let parts := ((Text.splitOn ',' rules).map (Text.trim Text.isBlank)).filter (· ≠ [])
      let found := parts.map readRule
      let pattern := patterns.map readPattern
      (⟨rulesOf (found.filterMap Except.toOption), (pattern.filterMap Except.toOption).head?⟩,
        complaintsOf found ++ complaintsOf pattern)
  | [] => (standard, [])

/-- The better of two rules for a topic: the one with the longer start, and of two equal ones the
second. -/
def better (a : Option Rule) (b : Rule) : Option Rule :=
  match a with
  | none => some b
  | some a => if b.length < a.length then some a else some b

def limit (filter : Filter) (topic : Text) : Nat :=
  match (filter.rules.filter (·.covers topic)).foldl better none with
  | some rule => rule.limit
  | none => 0

end Filter

/-! ## Lines -/

structure Line where
  level : Level
  topic : String
  text : String
  deriving DecidableEq, Repr

/-- What is written of a line, with its end. Control sequences in its text go missing, even with the
end of the line if they go on so far. -/
def Line.shown (line : Line) : Text := Text.shown (line.text.toList ++ ['\n'])

def Filter.admits (filter : Filter) (line : Line) : Bool :=
  line.level.rank ≤ filter.limit line.topic.toList &&
    filter.pattern.all (·.occursIn line.text.toList)

def field (name value : String) : String := " " ++ name ++ "=" ++ value

def count (name : String) (n : Nat) : String := field name (toString n)

/-- The line of an event. The summary of a document is only logged where `diagnostics` are on. -/
def line? (diagnostics : Bool) : Event → Option Line
  | .reading bytes kind =>
    some ⟨.debug, "rune_pretty",
      "formatting " ++ toString bytes ++ " bytes as " ++ kind.name⟩
  | .dispatching kind bytes =>
    some ⟨.trace, "rune_format::dispatch",
      "dispatching payload" ++ field "kind" kind.name ++ count "len" bytes⟩
  | .misplaced => some ⟨.warn, "html5ever::tree_builder", "foster parenting not implemented"⟩
  | .styleBlocks n =>
    some ⟨.debug, "rune_format::markup::passes", "reindented style blocks" ++ count "count" n⟩
  | .inlineStyles n =>
    some ⟨.debug, "rune_format::markup::passes", "normalized inline styles" ++ count "count" n⟩
  | .passesComplete bytes blocks styles =>
    some ⟨.debug, "rune_format::markup", "markup passes complete" ++ count "input_len" bytes ++
      count "style_blocks" blocks ++ count "inline_styles" styles⟩
  | .markupSummary blocks styles nodes =>
    if diagnostics then
      some ⟨.info, "rune_format::markup", "[format] markup document" ++
        count "style_blocks" blocks ++ count "inline_styles" styles ++ count "nodes" nodes⟩
    else none
  | .xmlParsed nodes =>
    some ⟨.debug, "rune_format::markup::xml", "parsed xml payload" ++ count "nodes" nodes⟩
  | .failed report =>
    some ⟨.warn, "rune_format::report", report.message ++ field "kind" report.kind.name ++
      field "error" report.failure.message⟩

/-- Whether a list of categories between commas holds the one of formatting, or all. -/
def showsDiagnostics (t : Text) : Bool :=
  (Text.splitOn ',' t).any fun part =>
    let category := Text.lower (Text.trim Text.isBlank part)
    category = "all".toList || category = "format".toList

def lines (filter : Filter) (diagnostics : Bool) (events : List Event) : List Line :=
  (events.filterMap (line? diagnostics)).filter filter.admits

end Log

end PrettyPayload
