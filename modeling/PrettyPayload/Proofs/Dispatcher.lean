import Mathlib.Data.List.Basic
import PrettyPayload.Dispatcher

/-!
# Runs of a dispatcher

A dispatcher is replaced, given formatters and handed payloads, in any order. Which formatter a
payload goes to is read off the steps before it: it is the one registered last for the kind of the
payload since the dispatcher was replaced (`latest?`). The answer to a payload depends on the past
through that alone, and no payload leaves a trace in the dispatcher. The formatters of the payload
kinds never fail, so a run reports one failure for each payload that one of them finds malformed
(`failures`), and nothing else.
-/

namespace PrettyPayload

/-! ## What formatting reports -/

namespace Format

variable {options : Options} {t : Text}

theorem reports_html (options : Options) (t : Text) : reports (html options t).events = [] := by
  have hwritten (bytes : Nat) (d : Markup.Document) :
      reports (writeHtml options bytes d).events = [] := by
    unfold writeHtml
    split
    · rfl
    · split <;> rfl
  have hmisplaced (n : Nat) : reports (List.replicate n .misplaced) = [] := by
    rw [reports, List.filterMap_replicate_of_none rfl]
  rw [html]
  dsimp only
  rw [reports_append, hmisplaced, hwritten, List.nil_append]

/-- A payload that is formatted, or found malformed, is not reported yet. -/
theorem reports_payload (kind : Kind) (options : Options) (t : Text) :
    reports (payload kind options t).events = [] := by
  cases kind with
  | none => rfl
  | json => rfl
  | css => rfl
  | html => exact reports_html options t
  | xml =>
    rw [payload, xml]
    split <;> rfl

/-- A formatted payload comes without a report; a malformed one comes back with one report of what
is wrong with it. -/
theorem failOpen_payload (kind : Kind) (options : Options) (t : Text) :
    ((payload kind options t).result = .ok (Formatter.standard kind options t).result ∧
      reports (Formatter.standard kind options t).events = []) ∨
    ∃ failure, (payload kind options t).result = .error failure ∧
      (Formatter.standard kind options t).result = t ∧
      reports (Formatter.standard kind options t).events = [⟨kind, failure⟩] := by
  have hsilent := reports_payload kind options t
  rw [Formatter.standard, failOpen]
  cases hresult : (payload kind options t).result with
  | ok formatted => exact Or.inl ⟨rfl, hsilent⟩
  | error failure =>
    refine Or.inr ⟨failure, rfl, rfl, ?_⟩
    dsimp only
    rw [reports_append, hsilent]
    rfl

end Format

namespace Dispatcher

/-! ## Definitions -/

/-- A formatter as it is registered: the one of a payload kind, or any other one, which has nobody
to report to. -/
inductive Handler where
  | builtIn (kind : Kind) (options : Options)
  | custom (formatter : Formatter) (silent : ∀ t, reports (formatter t).events = [])

def Handler.formatter : Handler → Formatter
  | builtIn kind options => .standard kind options
  | custom formatter _ => formatter

inductive Step where
  /-- An empty dispatcher takes its place. -/
  | empty
  /-- A dispatcher with the formatters of all kinds takes its place. -/
  | standard (options : Options)
  | register (kind : Kind) (handler : Handler)
  | format (kind : Kind) (t : Text)

def Step.concerns (kind : Kind) : Step → Bool
  | register k _ => k = kind
  | _ => true

abbrev Answer := Except Unregistered (Traced Outcome)

def Answer.reports : Answer → List Report
  | .ok answered => PrettyPayload.reports answered.events
  | .error _ => []

def after (d : Dispatcher) : Step → Dispatcher
  | .empty => empty
  | .standard options => standard options
  | .register kind handler => d.register kind handler.formatter
  | .format _ _ => d

def answer? (d : Dispatcher) : Step → Option Answer
  | .format kind t => some (d.format kind t)
  | _ => none

def afterAll (d : Dispatcher) (steps : List Step) : Dispatcher := steps.foldl after d

def answersFrom (d : Dispatcher) : List Step → List Answer
  | [] => []
  | step :: steps => (d.answer? step).toList ++ answersFrom (d.after step) steps

def answers (steps : List Step) : List Answer := empty.answersFrom steps

/-- The formatter that was registered last for a kind since the dispatcher was replaced, given the
steps so far, the latest one first. -/
def latest? (kind : Kind) : (earlier : List Step) → Option Handler
  | [] => none
  | .empty :: _ => none
  | .standard options :: _ => if kind = .none then none else some (.builtIn kind options)
  | .register k handler :: earlier => if k = kind then some handler else latest? kind earlier
  | .format _ _ :: earlier => latest? kind earlier

/-- The failure of a step, given the steps before it, the latest one first: a payload that is handed
to the formatter of a payload kind and found malformed. -/
def failure? (earlier : List Step) : Step → Option Report
  | .format kind t =>
    if kind = .none ∨ t = [] then none
    else
      match latest? kind earlier with
      | some (.builtIn own options) =>
        match (Format.payload own options t).result with
        | .error failure => some ⟨own, failure⟩
        | .ok _ => none
      | _ => none
  | _ => none

def failures (earlier : List Step) : List Step → List Report
  | [] => []
  | step :: steps => (failure? earlier step).toList ++ failures (step :: earlier) steps

/-- What the answer to a payload is, given the steps before it, the latest one first. -/
structure FailsOpen (earlier : List Step) (kind : Kind) (t : Text) (answer : Answer) : Prop where
  untouched : kind = .none ∨ t = [] → answer = .ok ⟨[], .untouched t⟩
  refused : ¬(kind = .none ∨ t = []) → latest? kind earlier = none → answer = .error ⟨kind⟩
  custom : ¬(kind = .none ∨ t = []) → ∀ formatter silent,
    latest? kind earlier = some (.custom formatter silent) →
      answer = .ok ⟨.dispatching kind (Text.byteLength t) :: (formatter t).events,
        .formatted (formatter t).result⟩
  builtIn : ¬(kind = .none ∨ t = []) → ∀ own options,
    latest? kind earlier = some (.builtIn own options) →
      ∃ events o, answer = .ok ⟨events, .formatted o⟩ ∧
        (((Format.payload own options t).result = .ok o ∧ reports events = []) ∨
          ∃ failure, (Format.payload own options t).result = .error failure ∧ o = t ∧
            reports events = [⟨own, failure⟩])

variable {d : Dispatcher} {earlier steps : List Step} {kind : Kind} {t : Text}

/-! ## Steps one after the other -/

theorem answersFrom_append (d : Dispatcher) (steps more : List Step) :
    d.answersFrom (steps ++ more) = d.answersFrom steps ++ (d.afterAll steps).answersFrom more := by
  induction steps generalizing d with
  | nil => rfl
  | cons step steps ih =>
    rw [List.cons_append, answersFrom, ih, answersFrom, List.append_assoc]
    rfl

theorem answersFrom_format (d : Dispatcher) (kind : Kind) (t : Text) (steps : List Step) :
    d.answersFrom (.format kind t :: steps) = d.format kind t :: d.answersFrom steps := rfl

/-! ## The formatter of a kind -/

/-- The formatters of a dispatcher are the ones registered last. -/
def Follows (d : Dispatcher) (earlier : List Step) : Prop :=
  ∀ kind, d.formatter? kind = (latest? kind earlier).map Handler.formatter

theorem follows_empty : empty.Follows [] := fun _ => rfl

/-- A step keeps the formatters in line with the steps so far. -/
theorem Follows.after (h : d.Follows earlier) (step : Step) :
    (d.after step).Follows (step :: earlier) := by
  intro kind
  cases step with
  | empty => rfl
  | standard options =>
    rw [Dispatcher.after, formatter?_standard, latest?]
    split <;> rfl
  | register k handler =>
    rw [Dispatcher.after, formatter?_register, latest?]
    by_cases hk : k = kind
    · rw [if_pos hk.symm, if_pos hk]
      rfl
    · rw [if_neg (Ne.symm hk), if_neg hk, h kind]
  | format k t => exact h kind

theorem Follows.afterAll (h : d.Follows earlier) (steps : List Step) :
    (d.afterAll steps).Follows (steps.reverse ++ earlier) := by
  induction steps generalizing d earlier with
  | nil => exact h
  | cons step steps ih =>
    rw [List.reverse_cons, List.append_assoc]
    exact ih (h.after step)

theorem follows_afterAll (steps : List Step) : (empty.afterAll steps).Follows steps.reverse := by
  simpa using follows_empty.afterAll steps

/-! ## One payload -/

theorem format_of_untouched (d : Dispatcher) (h : kind = .none ∨ t = []) :
    d.format kind t = .ok ⟨[], .untouched t⟩ := by
  rw [format, if_pos h]

theorem format_of_touched (h : d.Follows earlier) (ht : ¬(kind = .none ∨ t = [])) :
    d.format kind t =
      match latest? kind earlier with
      | none => .error ⟨kind⟩
      | some handler =>
        .ok ⟨.dispatching kind (Text.byteLength t) :: (handler.formatter t).events,
          .formatted (handler.formatter t).result⟩ := by
  rw [format, if_neg ht, h kind]
  cases latest? kind earlier <;> rfl

/-- The answer to a payload depends on the past through the formatter registered last. -/
theorem failsOpen_format (h : d.Follows earlier) (kind : Kind) (t : Text) :
    FailsOpen earlier kind t (d.format kind t) where
  untouched := d.format_of_untouched
  refused ht hlatest := by rw [format_of_touched h ht, hlatest]
  custom ht formatter silent hlatest := by
    rw [format_of_touched h ht, hlatest]
    rfl
  builtIn ht own options hlatest := by
    rw [format_of_touched h ht, hlatest]
    refine ⟨_, _, rfl, ?_⟩
    exact Format.failOpen_payload own options t

theorem reports_answer? (h : d.Follows earlier) (step : Step) :
    (d.answer? step).toList.flatMap Answer.reports = (failure? earlier step).toList := by
  cases step with
  | empty => rfl
  | standard options => rfl
  | register kind handler => rfl
  | format kind t =>
    have hanswer : (d.answer? (.format kind t)).toList.flatMap Answer.reports =
        Answer.reports (d.format kind t) := List.append_nil _
    rw [hanswer, failure?]
    by_cases ht : kind = .none ∨ t = []
    · rw [if_pos ht, d.format_of_untouched ht]
      rfl
    rw [if_neg ht, format_of_touched h ht]
    cases hlatest : latest? kind earlier with
    | none => rfl
    | some handler =>
      cases handler with
      | custom formatter silent => exact silent t
      | builtIn own options =>
        have hreports : Answer.reports (.ok
            ⟨.dispatching kind (Text.byteLength t) :: (Formatter.standard own options t).events,
              .formatted (Formatter.standard own options t).result⟩) =
            reports (Formatter.standard own options t).events := rfl
        refine hreports.trans ?_
        rcases Format.failOpen_payload own options t with ⟨hresult, hsilent⟩ | ⟨e, hresult, -, hone⟩
        · rw [hsilent]
          simp only [hresult]
          rfl
        · rw [hone]
          simp only [hresult]
          rfl

/-! ## Runs -/

theorem reports_answersFrom (h : d.Follows earlier) (steps : List Step) :
    (d.answersFrom steps).flatMap Answer.reports = failures earlier steps := by
  induction steps generalizing d earlier with
  | nil => rfl
  | cons step steps ih =>
    rw [answersFrom, List.flatMap_append, reports_answer? h step, ih (h.after step), failures]

/-- Registrations for other kinds change nothing about the formatter of a kind. -/
theorem formatter?_afterAll_filter (kind : Kind) (steps : List Step) {e : Dispatcher}
    (h : d.formatter? kind = e.formatter? kind) :
    (d.afterAll (steps.filter (Step.concerns kind))).formatter? kind =
      (e.afterAll steps).formatter? kind := by
  induction steps generalizing d e with
  | nil => exact h
  | cons step steps ih =>
    cases hstep : step.concerns kind with
    | true =>
      rw [List.filter_cons_of_pos hstep]
      refine ih (d := d.after step) (e := e.after step) ?_
      cases step with
      | empty => rfl
      | standard options => rfl
      | register k handler =>
        rw [after, after, formatter?_register, formatter?_register, h]
      | format k t => exact h
    | false =>
      rw [List.filter_cons_of_neg (by rw [hstep]; exact Bool.false_ne_true)]
      refine ih (e := e.after step) (h.trans ?_)
      cases step with
      | register k handler =>
        have hk : kind ≠ k := fun heq => by simp [Step.concerns, heq] at hstep
        rw [after, formatter?_register, if_neg hk]
      | _ => cases hstep

theorem format_congr {e : Dispatcher} (h : d.formatter? kind = e.formatter? kind) (t : Text) :
    d.format kind t = e.format kind t := by
  rw [format, format, h]

/-- In a run of any steps, each payload is answered as the steps before it say, the other answers
are the same as without it, and registrations for other kinds do not count. The reports of the run
are its failures in order, each with the kind of the formatter that met it. -/
theorem answers_failOpen (steps : List Step) :
    (answers steps).flatMap Answer.reports = failures [] steps ∧
    ∀ before kind t later, steps = before ++ .format kind t :: later →
      ∃ answer rest, answers steps = answers before ++ answer :: rest ∧
        answers (before ++ later) = answers before ++ rest ∧
        answers (before.filter (Step.concerns kind) ++ [.format kind t]) =
          answers (before.filter (Step.concerns kind)) ++ [answer] ∧
        FailsOpen before.reverse kind t answer := by
  refine ⟨reports_answersFrom follows_empty steps, ?_⟩
  rintro before kind t later rfl
  refine ⟨(empty.afterAll before).format kind t, (empty.afterAll before).answersFrom later,
    ?_, ?_, ?_, failsOpen_format (follows_afterAll before) kind t⟩
  · rw [answers, answersFrom_append, answersFrom_format, answers]
  · rw [answers, answersFrom_append, answers]
  · rw [answers, answersFrom_append, answersFrom_format, answers,
      format_congr (formatter?_afterAll_filter kind before rfl)]
    rfl

/-- A run with a formatter that capitalizes, a malformed stylesheet, a payload that goes to the
capitals, and one that comes when nothing is registered any more. -/
def sampleRun : List Step :=
  [.standard ⟨['\t'], .crlf, true⟩,
    .register .json (.custom (.ofFunction Text.upper) fun _ => rfl),
    .format .css "a\x7b".toList, .format .json ['b'], .empty, .format .css ['c']]

/-- The malformed stylesheet comes back and is reported once, nothing else is reported, and the
other answers are the same without it. -/
theorem answers_failOpen_sampleRun :
    (answers sampleRun).flatMap Answer.reports = [⟨.css, .css (.unclosedBlock ['a'])⟩] ∧
      ∃ events rest, answers sampleRun = .ok ⟨events, .formatted "a\x7b".toList⟩ :: rest ∧
        reports events = [⟨.css, .css (.unclosedBlock ['a'])⟩] ∧
        answers (sampleRun.eraseIdx 2) = rest := by
  have hfailures : failures [] sampleRun = [⟨.css, .css (.unclosedBlock ['a'])⟩] := by
    decide +kernel
  have hmalformed : (Format.payload .css ⟨['\t'], .crlf, true⟩ "a\x7b".toList).result =
      .error (.css (.unclosedBlock ['a'])) := by decide +kernel
  obtain ⟨hlog, hpayloads⟩ := answers_failOpen sampleRun
  obtain ⟨answer, rest, hwith, hwithout, -, hanswer⟩ :=
    hpayloads (sampleRun.take 2) .css "a\x7b".toList (sampleRun.drop 3) rfl
  obtain ⟨events, o, rfl, hcases⟩ :=
    hanswer.builtIn (by decide) .css ⟨['\t'], .crlf, true⟩ rfl
  refine ⟨hlog.trans hfailures, events, rest, ?_, ?_, hwithout⟩
  · rcases hcases with ⟨hok, -⟩ | ⟨-, -, rfl, -⟩
    · rw [hmalformed] at hok
      cases hok
    · exact hwith
  · rcases hcases with ⟨hok, -⟩ | ⟨failure, herror, -, hreports⟩
    · rw [hmalformed] at hok
      cases hok
    · rw [hmalformed] at herror
      obtain rfl := Except.error.inj herror
      exact hreports

/-- A formatter that is registered for the kind of another one reports its own kind. -/
theorem answers_report_own_kind :
    (answers [.register .json (.builtIn .css .standard), .format .json "a\x7b".toList]).flatMap
        Answer.reports = [⟨.css, .css (.unclosedBlock ['a'])⟩] ∧
      Kind.css ≠ Kind.json := by
  decide +kernel

end Dispatcher

end PrettyPayload
