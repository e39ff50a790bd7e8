import PrettyPayload.Proofs.Dispatcher
import PrettyPayload.Proofs.Markup.Held
import PrettyPayload.Proofs.Markup.Links

/-!
# What the line ending changes

A formatter puts the line ending between the pieces of its output, and nothing else depends on it:
two runs that differ in the line ending alone give the same pieces, or fail in the same way
(`format_eq_joinWith`). The line feeds within a piece of markup stay line feeds.
-/

namespace PrettyPayload

namespace Format

open Markup

/-! ## Definitions -/

def withStyles (indent : Text) (d : Document) : Except Failure Document :=
  match d.reindentStyles indent indent with
  | (_, .error e) => .error (.css e)
  | (d, .ok _) =>
    match d.compactStyles with
    | (_, .error e) => .error (.css e)
    | (d, .ok _) => .ok d

/-- The document that is written for a payload of markup: in HTML, with its styles laid out. -/
def written? (indent t : Text) : Kind → Option Document
  | .html => (withStyles indent (.ofPage (Html.read (Text.withoutReturns t)))).toOption
  | .xml => Document.ofXml? (Text.withoutReturns t)
  | _ => none

/-- The pieces between the line endings of a formatted payload, or what is wrong with it. -/
def layOut (style : Style) (t : Text) : Kind → Except Failure (List Text)
  | .none => .ok [t]
  | .json =>
    match Json.parse? t with
    | none => .error .json
    | some v => .ok (Text.splitOn '\n' (v.pretty style.indent))
  | .css =>
    match Css.parseStylesheet (Text.withoutReturns t) with
    | .error e => .error (.css e)
    | .ok sheet => .ok (Text.splitOn '\n' (sheet.pretty style.indent))
  | .html =>
    (withStyles style.indent (.ofPage (Html.read (Text.withoutReturns t)))).map
      (Document.lines style)
  | .xml =>
    match Document.ofXml? (Text.withoutReturns t) with
    | none => .error .xml
    | some d => .ok (d.lines style)

/-- The pieces of what comes back for a payload. A malformed payload is itself the only one. -/
def piecesOf (style : Style) (kind : Kind) (t : Text) : List Text :=
  match layOut style t kind with
  | .ok pieces => pieces
  | .error _ => [t]

def failuresOf (style : Style) (kind : Kind) (t : Text) : List Report :=
  match layOut style t kind with
  | .ok _ => []
  | .error failure => [⟨kind, failure⟩]

variable {kind : Kind} {t : Text}

/-! ## Payloads by their pieces -/

theorem withLineEndings_eq_joinWith (options : Options) (t : Text) :
    withLineEndings options t = Text.joinWith options.newline (Text.splitOn '\n' t) :=
  (Text.joinWith_splitOn_eq_replaceChar '\n' options.newline t).symm

theorem result_writeHtml (options : Options) (bytes : Nat) (d : Document) :
    (writeHtml options bytes d).result =
      (withStyles options.indent d).map (Document.serialize options) := by
  rw [writeHtml, withStyles]
  rcases d.reindentStyles options.indent options.indent with ⟨d, e | blocks⟩
  · rfl
  · dsimp only
    rcases d.compactStyles with ⟨d, e | styles⟩ <;> rfl

theorem result_payload (kind : Kind) (options : Options) (t : Text) :
    (payload kind options t).result =
      (layOut (Style.ofOptions options) t kind).map (Text.joinWith options.newline) := by
  cases kind with
  | none => exact congrArg Except.ok (Text.joinWith_singleton options.newline t).symm
  | json =>
    rw [payload, json, layOut]
    dsimp only
    cases Json.parse? t with
    | none => rfl
    | some v => exact congrArg Except.ok (withLineEndings_eq_joinWith options _)
  | css =>
    rw [payload, css, layOut]
    dsimp only
    cases Css.parseStylesheet (Text.withoutReturns t) with
    | error e => rfl
    | ok sheet => exact congrArg Except.ok (withLineEndings_eq_joinWith options _)
  | html =>
    have hindent : (Style.ofOptions options).indent = options.indent := rfl
    refine (result_writeHtml options (Text.byteLength t) _).trans ?_
    rw [layOut, hindent]
    cases withStyles options.indent (.ofPage (Html.read (Text.withoutReturns t))) <;> rfl
  | xml =>
    rw [payload, xml, layOut]
    cases Document.ofXml? (Text.withoutReturns t) <;> rfl

/-- What a formatter gives is its pieces with the line ending between each two, and what it reports
does not depend on the line ending. -/
theorem standard_eq (kind : Kind) (options : Options) (t : Text) :
    (Formatter.standard kind options t).result =
        Text.joinWith options.newline (piecesOf (Style.ofOptions options) kind t) ∧
      reports (Formatter.standard kind options t).events =
        failuresOf (Style.ofOptions options) kind t := by
  have hresult := result_payload kind options t
  rw [piecesOf, failuresOf]
  cases hlay : layOut (Style.ofOptions options) t kind with
  | error e =>
    rw [hlay] at hresult
    rcases failOpen_payload kind options t with ⟨hok, -⟩ | ⟨failure, herror, ht, hone⟩
    · rw [hresult] at hok
      cases hok
    · rw [hresult] at herror
      cases herror
      exact ⟨ht.trans (Text.joinWith_singleton _ t).symm, hone⟩
  | ok pieces =>
    rw [hlay] at hresult
    rcases failOpen_payload kind options t with ⟨hok, hsilent⟩ | ⟨failure, herror, -, -⟩
    · rw [hresult] at hok
      exact ⟨(Except.ok.inj hok).symm, hsilent⟩
    · rw [hresult] at herror
      cases herror

/-! ## The payload without content -/

theorem ofPage_read_nil : Document.ofPage (Html.read []) = Document.new .html :=
  Document.eq_of_cells (by decide +kernel) (by decide +kernel)

theorem withStyles_new (indent : Text) :
    withStyles indent (Document.new .html) = .ok (Document.new .html) := by
  have hstyle : (Document.new .html).styleElements = [] := by decide +kernel
  have hstyled : (Document.new .html).styledElements = [] := by decide +kernel
  rw [withStyles, Document.reindentStyles, hstyle]
  dsimp only [Document.reindentEach, Except.map]
  rw [Document.compactStyles, hstyled]
  rfl

theorem lines_new (style : Style) : (Document.new .html).lines style = [] := by
  have hchildren : (Document.new .html).children Document.root = [] := rfl
  rw [Document.lines_eq_linesOf, Document.tree, Document.treeAt_eq, hchildren]
  rfl

theorem joinWith_piecesOf_nil (style : Style) (kind : Kind) (separator : Text) :
    Text.joinWith separator (piecesOf style kind []) = [] := by
  have hpage : Document.ofPage (Html.read (Text.withoutReturns [])) = .new .html := ofPage_read_nil
  have hjson : Json.parse? [] = none := Option.isNone_iff_eq_none.1 (by decide +kernel)
  have hxml : Document.ofXml? (Text.withoutReturns []) = none :=
    Option.isNone_iff_eq_none.1 (by decide +kernel)
  have hcss : Css.parseStylesheet (Text.withoutReturns []) = .ok (.ofItems []) := by
    have hitems : Css.readItems true [] = .ok [] := by decide +kernel
    have hcomments : Css.stripComments (Text.withoutReturns []) = .ok [] := by decide +kernel
    rw [Css.parseStylesheet, hcomments]
    change (Css.readItems true [] >>= fun items => pure (Css.Stylesheet.ofItems items)) = _
    rw [hitems]
    rfl
  cases kind with
  | html =>
    have hlines : piecesOf style .html [] = (Document.new .html).lines style := by
      rw [piecesOf, layOut, hpage, withStyles_new]
      rfl
    rw [hlines, lines_new, Text.joinWith_nil]
  | css =>
    rw [piecesOf, layOut, hcss]
    rfl
  | none => rfl
  | json =>
    rw [piecesOf, layOut, hjson]
    rfl
  | xml =>
    rw [piecesOf, layOut, hxml]
    rfl

/-! ## Two runs -/

theorem piecesOf_of_written? (style : Style) {d : Document}
    (h : written? style.indent t kind = some d) :
    piecesOf style kind t = d.lines style := by
  cases kind with
  | html =>
    rw [written?] at h
    rw [piecesOf, layOut]
    cases hd : withStyles style.indent (.ofPage (Html.read (Text.withoutReturns t))) with
    | error e =>
      rw [hd] at h
      cases h
    | ok d' =>
      rw [hd] at h
      cases h
      rfl
  | xml =>
    rw [written?] at h
    rw [piecesOf, layOut, h]
  | _ => cases h

/-- Whatever the line ending, the formatter of a kind gives the same pieces, with the line ending
between each two, and reports the same failures. A dispatcher hands this on, and reports nothing of
a payload that needs no formatter. Where a document is written, all its attribute values, comments,
document types and instructions, and the texts in its preformatted elements, are whole within the
pieces. -/
theorem format_eq_joinWith (options : Options) (kind : Kind) (t : Text) :
    ∃ pieces failures,
      (∀ ending,
        (Formatter.standard kind { options with lineEnding := ending } t).result =
            Text.joinWith ending.terminator pieces ∧
          reports (Formatter.standard kind { options with lineEnding := ending } t).events =
            failures) ∧
      (∀ ending, ∃ answer,
        (Dispatcher.standard { options with lineEnding := ending }).format kind t = .ok answer ∧
          answer.result.text = Text.joinWith ending.terminator pieces ∧
          reports answer.events = if kind = .none ∨ t = [] then [] else failures) ∧
      ∀ d, written? options.indent t kind = some d →
        HeldIn (fixedTexts d.flavor (d.tree.map Prod.snd)) pieces := by
  refine ⟨piecesOf (Style.ofOptions options) kind t, failuresOf (Style.ofOptions options) kind t,
    fun ending => standard_eq kind { options with lineEnding := ending } t, ?_, ?_⟩
  · intro ending
    obtain ⟨hresult, hreports⟩ := standard_eq kind { options with lineEnding := ending } t
    rw [Dispatcher.format]
    by_cases huntouched : kind = .none ∨ t = []
    · rw [if_pos huntouched, if_pos huntouched]
      refine ⟨_, rfl, ?_, rfl⟩
      rcases huntouched with rfl | rfl
      · exact (Text.joinWith_singleton _ t).symm
      · exact (joinWith_piecesOf_nil _ kind _).symm
    · have hkind : kind ≠ .none := fun h => huntouched (Or.inl h)
      rw [if_neg huntouched, if_neg huntouched, Dispatcher.formatter?_standard, if_neg hkind]
      exact ⟨_, rfl, hresult, hreports⟩
  · intro d hd
    rw [piecesOf_of_written? (Style.ofOptions options) hd]
    exact d.heldIn_lines _

/-- A list whose item has line feeds in an attribute value and in a comment. -/
def sampleItem : Text := "<ul><li title=\"a\nb\"><!--c\nd--></li></ul>".toList

/-- The value and the comment of the sample are each whole within a piece. -/
theorem format_eq_joinWith_sampleItem :
    ∃ pieces,
      (∀ ending, (Formatter.standard .html ⟨['\t'], ending, true⟩ sampleItem).result =
        Text.joinWith ending.terminator pieces) ∧
      ∀ t ∈ ["a\nb".toList, "<!--c\nd-->".toList], ∃ piece ∈ pieces, t <:+: piece := by
  obtain ⟨pieces, _, hformat, -, hheld⟩ :=
    format_eq_joinWith ⟨['\t'], .lf, true⟩ .html sampleItem
  have htexts : (written? ['\t'] sampleItem .html).map
      (fun d => fixedTexts d.flavor (d.tree.map Prod.snd)) =
        some ["a\nb".toList, "<!--c\nd-->".toList] := by decide +kernel
  obtain ⟨d, hd, hfixed⟩ := Option.map_eq_some_iff.1 htexts
  have hitem := hheld d hd
  rw [hfixed] at hitem
  exact ⟨pieces, fun ending => (hformat ending).1, fun _ => hitem.exists_piece⟩

/-- Whether an attribute value, a comment or the like is read from an HTML payload. -/
def Reads (t wording : Text) : Prop :=
  wording ∈ wordings .html ((Document.ofHtml (Text.withoutReturns t)).tree.map Prod.snd)

/-- Whether a text is whole within a piece of the formatted HTML payload, however this is taken
apart at line feeds. -/
def Keeps (t wording : Text) : Prop :=
  ∃ pieces,
    (Formatter.standard .html ⟨['\t'], .lf, true⟩ t).result = Text.joinWith ['\n'] pieces ∧
      ∃ piece ∈ pieces, wording <:+: piece

theorem not_keeps {t wording : Text}
    (h : ¬wording <:+: (Formatter.standard .html ⟨['\t'], .lf, true⟩ t).result) :
    ¬Keeps t wording := by
  rintro ⟨pieces, hresult, piece, hpiece, hwithin⟩
  rw [hresult] at h
  exact h (hwithin.trans (Text.infix_joinWith _ hpiece))

/-- A style element holds its stylesheet and nothing else when it is written, an element that is
called like one without an end tag holds nothing, and a style attribute is laid out. -/
theorem html_drops_wordings :
    (Reads "<svg><style><!--c--></style></svg>".toList "<!--c-->".toList ∧
      ¬Keeps "<svg><style><!--c--></style></svg>".toList "<!--c-->".toList) ∧
    (Reads "<svg><link><!--c--></link></svg>".toList "<!--c-->".toList ∧
      ¬Keeps "<svg><link><!--c--></link></svg>".toList "<!--c-->".toList) ∧
    Reads "<p style=\"a:b\"></p>".toList "a:b".toList ∧
      ¬Keeps "<p style=\"a:b\"></p>".toList "a:b".toList := by
  refine ⟨⟨?_, not_keeps (by decide +kernel)⟩, ⟨?_, not_keeps (by decide +kernel)⟩, ?_,
    not_keeps (by decide +kernel)⟩
  all_goals
    rw [Reads]
    decide +kernel

end Format

end PrettyPayload
