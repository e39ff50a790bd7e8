import PrettyPayload.Proofs.Format.LineEnding
import PrettyPayload.Proofs.Html.Page.Fragment
import PrettyPayload.Proofs.Markup.Contents
import PrettyPayload.Proofs.Markup.RelaidMarks

/-!
# Formatted pages

What is formatted of a fragment that lasts is formatted already. The condition is sufficient, and
much narrower than what is formatted at all. Its parts are these.

* The payload is read as a fragment that nests (`Html.nests`): it is made of elements of a body,
  elements without markup, comments and texts, and no tag in it closes another element than its own.
  This leaves out documents with a doctype, `html`, `head` or `body`. It also leaves out tables,
  lists of options, `svg`, `math`, templates and `plaintext`, wherever they stand. Many of these are
  formatted well.
* No text in it holds a character that reading changes: a carriage return, which only a reference
  can bring in, a null character or a byte order mark.
* Its stylesheets and style attributes are read, and read in the same way from what is written of
  them (`DurableSheet`, `DurableAttribute`): their texts are closed, and those of a stylesheet stand
  on one line each.
* In preformatted content no line feed is put behind a start tag.

References to carriage returns, plain text without end and line feeds at the start of nested
preformatted content are what must be left out: each has a payload that is not formatted twice as it
is once.
-/

namespace PrettyPayload

namespace Format

open Html (nestsAll writtenAll)
open Markup
open PrettyPayload.Tree

variable {options : Options} {s t o : Text} {ts : List (Tree Markup.Node)}

/-- The options of the samples: a tab for each level, line feeds between lines. -/
def tabbed : Options := ⟨['\t'], .lf, true⟩

def html? (options : Options) (t : Text) : Option Text := (html options t).result.toOption

def marksOf (t : Text) : List Markup.Mark := (Markup.Document.ofHtml (Text.withoutReturns t)).marks

/-! ## Fragments that last -/

def treeOf (t : Text) : Tree Markup.Node :=
  (Document.ofHtml (Text.withoutReturns t)).tree.map Prod.snd

/-- A payload is read as a fragment that lasts. Pages with a doctype, `html`, `head` or `body` never
do, nor do payloads with a table, a list of options, foreign content or a template. -/
def Lasts (indent t : Text) : Prop :=
  ∃ ts, treeOf t = .node .document ts ∧ nestsAll [] ts = true ∧ EachOfAll (Durable indent) ts

theorem withStyles_eq_ok_iff {indent : Text} {d d' : Document} :
    withStyles indent d = .ok d' ↔ ∃ d₁ m n, d.reindentStyles indent indent = (d₁, .ok m) ∧
      d₁.compactStyles = (d', .ok n) := by
  rw [withStyles]
  constructor
  · intro h
    split at h
    next => cases h
    next d₁ m hstyles =>
      split at h
      next => cases h
      next d₂ n hattributes =>
        obtain rfl := Except.ok.inj h
        exact ⟨d₁, m, n, hstyles, hattributes⟩
  · rintro ⟨d₁, m, n, hstyles, hattributes⟩
    rw [hstyles]
    dsimp only
    rw [hattributes]

theorem html?_eq_some_iff_exists : html? options t = some o ↔
    ∃ d, withStyles options.indent (.ofPage (Html.read (Text.withoutReturns t))) = .ok d ∧
      d.serialize options = o := by
  have hresult : (html options t).result =
      (withStyles options.indent (.ofPage (Html.read (Text.withoutReturns t)))).map
        (Document.serialize options) := result_writeHtml options (Text.byteLength t) _
  rw [html?, hresult]
  cases withStyles options.indent (.ofPage (Html.read (Text.withoutReturns t))) with
  | error fault => exact ⟨nofun, fun ⟨_, h, _⟩ => nomatch h⟩
  | ok d => exact ⟨fun h => ⟨d, rfl, Option.some.inj h⟩, fun ⟨d', hd', h⟩ =>
      congrArg some (Except.ok.inj hd' ▸ h)⟩

theorem html?_eq_some_iff (h : treeOf t = .node .document ts) (hleaf : EachOfAll StyleLeaf ts) :
    html? options t = some o ↔
      EachOfAll StyleRead ts ∧ o = Text.joinWith options.newline
        (entriesOfAll .html options 1 (restyledAll options.indent 1 ts)) := by
  have hd := Document.linked_ofPage (Html.read (Text.withoutReturns t))
  have hroot := Document.size_pos_ofPage (Html.read (Text.withoutReturns t))
  have hflavor := Document.flavor_ofPage (Html.read (Text.withoutReturns t))
  have htree : (Document.ofPage (Html.read (Text.withoutReturns t))).tree.map Prod.snd =
      .node .document ts := h
  rw [html?_eq_some_iff_exists]
  generalize Document.ofPage (Html.read (Text.withoutReturns t)) = d at hd hroot hflavor htree
  have hpasses := Document.passes_iff hd hroot (by rw [htree]; exact ⟨nofun, hleaf⟩) options.indent
    (restyled options.indent 0 (.node .document ts))
  rw [htree] at hpasses
  have hserialize {d' : Document} (hflavor' : d'.flavor = .html)
      (htree' : d'.tree.map Prod.snd = restyled options.indent 0 (.node .document ts)) :
      d'.serialize options = Text.joinWith options.newline
        (entriesOfAll .html options 1 (restyledAll options.indent 1 ts)) := by
    rw [d'.serialize_eq, hflavor', htree']
    rfl
  constructor
  · rintro ⟨d', hstyles, rfl⟩
    obtain ⟨d₁, m, n, hindented, hcompacted⟩ := withStyles_eq_ok_iff.1 hstyles
    obtain ⟨htree', hflavor'⟩ := Document.tree_of_passes hd hroot hindented hcompacted
    rw [htree] at htree'
    exact ⟨(hpasses.1 ⟨d₁, m, d', n, hindented, hcompacted, htree'⟩).1.2,
      hserialize (hflavor'.trans hflavor) htree'⟩
  · rintro ⟨hread, rfl⟩
    obtain ⟨d₁, m, d', n, hindented, hcompacted, htree'⟩ :=
      hpasses.2 ⟨⟨styleRead_of_element?_eq_none rfl ts, hread⟩, rfl⟩
    have hflavor' := (Document.tree_of_passes hd hroot hindented hcompacted).2
    exact ⟨d', withStyles_eq_ok_iff.2 ⟨d₁, m, n, hindented, hcompacted⟩,
      hserialize (hflavor'.trans hflavor) htree'⟩

theorem html?_of_durable (h : treeOf t = .node .document ts) (hnests : nestsAll [] ts = true)
    (hdurable : EachOfAll (Durable options.indent) ts) :
    html? options t = some (Text.joinWith options.newline
      (entriesOfAll .html options 1 (restyledAll options.indent 1 ts))) :=
  (html?_eq_some_iff h (EachOfAll.mono (fun _ _ h => h.styleLeaf) ts
    (formedAll_of_nestsAll ts hnests))).2
      ⟨EachOfAll.mono (fun _ _ h => h.styleRead) ts hdurable, rfl⟩

/-- A fragment that lasts is written as a fragment that is read as the same one with its layout. -/
theorem treeOf_html? (hindent : PlainIndent options) (h : treeOf t = .node .document ts)
    (hnests : nestsAll [] ts = true) (hdurable : EachOfAll (Durable options.indent) ts)
    (ho : html? options t = some o) :
    treeOf o = .node .document (relaidPage options.withLineFeeds ts) := by
  have hfeed : options.withLineFeeds.newline = ['\n'] := rfl
  have hindent' : PlainIndent options.withLineFeeds := hindent
  have hnests' : nestsAll [] (relaidPage options.withLineFeeds ts) = true :=
    nestsAll_relaidPage hindent' hfeed rfl hnests hdurable
  have hwritten : Text.withoutReturns o = writtenAll (relaidPage options.withLineFeeds ts) := by
    have hentries : writtenAll (relaidPage options.withLineFeeds ts) = Text.joinWith ['\n']
        (entriesOfAll .html options.withLineFeeds 1 (restyledAll options.indent 1 ts)) :=
      writtenAll_relaidPage hindent' hfeed hnests hdurable
    rw [html?_of_durable h hnests hdurable] at ho
    rw [← Option.some.inj ho, withoutReturns_joinWith_map, withoutReturns_entriesOfAll,
      ← withoutReturns_joinWith_map options.withLineFeeds, hfeed, ← hentries]
    exact withoutReturns_eq_self (Html.return_not_mem_writtenAll _ hnests')
  rw [treeOf, hwritten]
  exact Html.tree_ofHtml_writtenAll hnests'

/-- A fragment that lasts is formatted, and what is formatted of it is formatted already. -/
theorem html_idempotent (hindent : PlainIndent options) (h : Lasts options.indent t) :
    ∃ o, html? options t = some o ∧ html? options o = some o := by
  obtain ⟨ts, htree, hnests, hdurable⟩ := h
  have hindent' : PlainIndent options.withLineFeeds := hindent
  have hnests' : nestsAll [] (relaidPage options.withLineFeeds ts) = true :=
    nestsAll_relaidPage hindent' rfl rfl hnests hdurable
  have hleaf' := EachOfAll.mono (fun _ _ h => h.styleLeaf) _ (formedAll_of_nestsAll _ hnests')
  have hformat := html?_of_durable htree hnests hdurable
  have htree' := treeOf_html? hindent htree hnests hdurable hformat
  refine ⟨_, hformat, (html?_eq_some_iff htree' hleaf').2
    ⟨styleRead_relaidPage hindent' rfl hnests hdurable, ?_⟩⟩
  rw [entriesOfAll_relaidPage hindent hnests hdurable]

/-- A paragraph with a style attribute, a style element, and preformatted content that starts with a
line feed. -/
def lastingPayload : Text :=
  "<p style=\"a:b\">c &amp; <b>d</b>\n</p><style>p\x7bb:c\x7d</style><pre>\n\n e</pre>".toList

def lastingTrees : List (Tree Markup.Node) :=
  [.node (.element ⟨['p'], [("style".toList, "a:b".toList)]⟩)
      [.node (.text "c & ".toList) [], .node (.element ⟨['b'], []⟩) [.node (.text ['d']) []],
        .node (.text ['\n']) []],
    .node (.element ⟨"style".toList, []⟩) [.node (.data "p\x7bb:c\x7d".toList) []],
    .node (.element ⟨"pre".toList, []⟩) [.node (.text "\n e".toList) []]]

def lastingSheet : Css.Stylesheet where
  rules := [.block (.style [['p']]) [.declaration ⟨['b'], ['c'], false⟩]]
  all_isRule := by simp

def lastingLayout : List (Tree Markup.Node) :=
  [.node (.element ⟨['p'], [("style".toList, "a: b".toList)]⟩)
      [.node (.text "c & ".toList) [], .node (.element ⟨['b'], []⟩) [.node (.text ['d']) []],
        .node (.text ['\n']) []],
    .node (.element ⟨"style".toList, []⟩)
      [.node (.css "\n\tp \x7b\n\t\tb: c;\n\t\x7d\n".toList) []],
    .node (.element ⟨"pre".toList, []⟩) [.node (.text "\n e".toList) []]]

def lastingResult : Text :=
  ("<p style=\"a: b\">\n\tc &amp;\n\t<b>d</b>\n</p>\n" ++
    "<style>\n\tp \x7b\n\t\tb: c;\n\t\x7d\n</style>\n<pre>\n\n e</pre>").toList

theorem plainIndent_tabbed : PlainIndent tabbed := by
  intro c hc
  exact Or.inr (List.mem_singleton.1 hc)

theorem nestsAll_lastingTrees : nestsAll [] lastingTrees = true := by decide

theorem treeOf_lastingPayload : treeOf lastingPayload = .node .document lastingTrees := by
  have hwritten : Text.withoutReturns lastingPayload = writtenAll lastingTrees := by decide
  rw [treeOf, hwritten]
  exact Html.tree_ofHtml_writtenAll nestsAll_lastingTrees

theorem styles_lastingTrees :
    (Css.parseStylesheet "p\x7bb:c\x7d".toList = .ok lastingSheet ∧
      Css.Item.AllFaithful true lastingSheet.rules) ∧
    Css.parseDeclarations "a:b".toList = .ok [⟨['a'], ['b'], false⟩] ∧
      Css.Declaration.FaithfulInLine ⟨['a'], ['b'], false⟩ := by
  have hhead : Css.Head.Faithful true (.style [['p']]) := ⟨by decide +kernel, by decide +kernel⟩
  have hb : Css.Declaration.Faithful ⟨['b'], ['c'], false⟩ := ⟨by decide +kernel, by decide +kernel⟩
  exact ⟨⟨by decide +kernel, ⟨hhead, hb, trivial⟩, trivial⟩, by decide +kernel, by decide +kernel,
    by decide +kernel⟩

theorem durable_lastingTrees : EachOfAll (Durable tabbed.indent) lastingTrees := by
  obtain ⟨⟨hread, hfaithful⟩, hdeclarations, ha⟩ := styles_lastingTrees
  have hsheet : DurableSheet tabbed.indent "p\x7bb:c\x7d".toList lastingSheet :=
    ⟨hread, hfaithful, by simp [lastingSheet, Css.Item.AllOneLine, Css.Item.OneLine,
      Css.Head.OneLine, Css.Declaration.OneLine], by decide⟩
  have hstyled : DurableAttribute ⟨['p'], [("style".toList, "a:b".toList)]⟩ := by
    intro value hvalue
    obtain rfl : "a:b".toList = value := Option.some.inj hvalue
    exact ⟨_, hdeclarations, List.forall_mem_singleton.2 ha⟩
  have hplain (name : Text) : DurableAttribute ⟨name, []⟩ := by
    intro value hvalue
    cases hvalue
  have htext (t : Text) : (Tree.node (Markup.Node.text t) []).Each (Durable tabbed.indent) :=
    ⟨durable_leaf rfl, trivial⟩
  have hbold : (Tree.node (.element ⟨['b'], []⟩) [.node (.text ['d']) []]).Each
      (Durable tabbed.indent) :=
    ⟨durable_element (hplain _) (absurd · (by decide)) (absurd · (by decide)), htext _, trivial⟩
  refine ⟨?_, ?_, ?_, trivial⟩
  · exact ⟨durable_element hstyled (absurd · (by decide)) (absurd · (by decide)), htext _, hbold,
      htext _, trivial⟩
  · exact ⟨durable_element (hplain _) (fun _ => ⟨_, hsheet⟩) (absurd · (by decide)),
      ⟨durable_leaf rfl, trivial⟩, trivial⟩
  · have hfeedless : Feedless (.text "\n e".toList) [] := fun _ he => by cases he
    exact ⟨durable_element (hplain _) (absurd · (by decide)) fun _ =>
      ⟨⟨hfeedless, trivial⟩, trivial⟩, htext _, trivial⟩

theorem lasts_lastingPayload : Lasts tabbed.indent lastingPayload :=
  ⟨lastingTrees, treeOf_lastingPayload, nestsAll_lastingTrees, durable_lastingTrees⟩

theorem restyledAll_lastingTrees : restyledAll tabbed.indent 1 lastingTrees = lastingLayout := by
  obtain ⟨⟨hread, -⟩, hdeclarations, -⟩ := styles_lastingTrees
  have hstyled : Element.laidOut ⟨['p'], [("style".toList, "a:b".toList)]⟩ =
      ⟨['p'], [("style".toList, "a: b".toList)]⟩ :=
    (Element.laidOut_of_ok rfl hdeclarations).trans (by decide)
  have hplain (name : Text) : Element.laidOut ⟨name, []⟩ = ⟨name, []⟩ := Element.laidOut_of_none rfl
  have hsheet : sheetText tabbed.indent 1 [.data "p\x7bb:c\x7d".toList] =
      "\n\tp \x7b\n\t\tb: c;\n\t\x7d\n".toList := by
    have htext : textOf [.data "p\x7bb:c\x7d".toList] = "p\x7bb:c\x7d".toList := by decide
    rw [sheetText, htext, hread]
    decide
  simp only [lastingTrees, restyledAll, restyled, Markup.Node.laidOut, hstyled, hplain]
  rw [lastingLayout, ← hsheet]
  rfl

theorem html?_lastingPayload : html? tabbed lastingPayload = some lastingResult := by
  rw [html?_of_durable treeOf_lastingPayload nestsAll_lastingTrees durable_lastingTrees,
    restyledAll_lastingTrees]
  decide

/-- The sample is formatted, and its result to itself. -/
theorem html_idempotent_lastingPayload :
    PlainIndent tabbed ∧ Lasts tabbed.indent lastingPayload ∧
      html? tabbed lastingPayload = some lastingResult ∧
      html? tabbed lastingResult = some lastingResult := by
  obtain ⟨o, ho, hagain⟩ := html_idempotent plainIndent_tabbed lasts_lastingPayload
  obtain rfl := Option.some.inj (ho.symm.trans html?_lastingPayload)
  exact ⟨plainIndent_tabbed, lasts_lastingPayload, html?_lastingPayload, hagain⟩

/-- A fragment that lasts keeps its marks, if every style element of it with a text has a rule. -/
theorem html_keeps_marks (hindent : PlainIndent options) (h : Lasts options.indent t)
    (hruled : (treeOf t).Each Ruled) :
    ∃ o, html? options t = some o ∧ marksOf o = marksOf t := by
  obtain ⟨ts, htree, hnests, hdurable⟩ := h
  have hindent' : PlainIndent options.withLineFeeds := hindent
  have hformat := html?_of_durable htree hnests hdurable
  have hmarks (s : Text) : marksOf s = marks false (treeOf s) := rfl
  refine ⟨_, hformat, ?_⟩
  rw [htree] at hruled
  rw [hmarks, hmarks, treeOf_html? hindent htree hnests hdurable hformat, htree]
  exact marksOfAll_relaidPage hindent' rfl hnests hdurable hruled.2

/-- The sample keeps its four elements, the words of its three texts, and its stylesheet. -/
theorem html_keeps_marks_lastingPayload :
    (treeOf lastingPayload).Each Ruled ∧ html? tabbed lastingPayload = some lastingResult ∧
      marksOf lastingResult = marksOf lastingPayload ∧ (marksOf lastingPayload).length = 8 := by
  have hruled : (treeOf lastingPayload).Each Ruled := by
    have hsheet : Ruled (.element ⟨"style".toList, []⟩)
        [.node (.data "p\x7bb:c\x7d".toList) []] := by
      intro _ _ sheet hsheet
      rw [← Except.ok.inj (styles_lastingTrees.1.1.symm.trans hsheet)]
      exact List.cons_ne_nil _ _
    have hplain {v : Markup.Node} {ts : List (Tree Markup.Node)} (hv : v.isStyle = false) :
        Ruled v ts := fun hstyle _ => by cases hv.symm.trans hstyle
    rw [treeOf_lastingPayload]
    exact ⟨hplain rfl, ⟨hplain rfl, ⟨hplain rfl, trivial⟩,
        ⟨hplain rfl, ⟨hplain rfl, trivial⟩, trivial⟩, ⟨hplain rfl, trivial⟩, trivial⟩,
      ⟨hsheet, ⟨hplain rfl, trivial⟩, trivial⟩,
      ⟨hplain rfl, ⟨hplain rfl, trivial⟩, trivial⟩, trivial⟩
  obtain ⟨o, ho, hmarks⟩ := html_keeps_marks plainIndent_tabbed lasts_lastingPayload hruled
  obtain rfl := Option.some.inj (ho.symm.trans html?_lastingPayload)
  have hcount : (marksOf lastingPayload).length = 8 := by
    have hmarks : marksOf lastingPayload = marks false (treeOf lastingPayload) := rfl
    rw [hmarks, treeOf_lastingPayload]
    decide
  exact ⟨hruled, html?_lastingPayload, hmarks, hcount⟩

/-! ## What does not last -/

/-- Formatting the result again takes a line feed from the inner of two nested preformatted
elements, the carriage return that a reference has brought into a text, and takes the end tag behind
plain text for a part of it. -/
theorem html_unstable_payloads :
    (html? tabbed "<pre><pre>\n\nx</pre></pre>".toList = some "<pre><pre>\nx</pre></pre>".toList ∧
      html? tabbed "<pre><pre>\nx</pre></pre>".toList = some "<pre><pre>x</pre></pre>".toList) ∧
    (html? tabbed "<p>a&#13;b</p>".toList = some "<p>a\rb</p>".toList ∧
      html? tabbed "<p>a\rb</p>".toList = some "<p>ab</p>".toList) ∧
    html? tabbed "<plaintext>abc".toList = some "<plaintext>abc</plaintext>".toList ∧
      html? tabbed "<plaintext>abc</plaintext>".toList =
        some "<plaintext>abc</plaintext></plaintext>".toList := by
  decide +kernel

/-- Two words become one, and an end tag becomes a word. -/
theorem html_loses_marks :
    (html? tabbed "<p>a&#13;b</p>".toList = some "<p>a\rb</p>".toList ∧
      marksOf "<p>a\rb</p>".toList ≠ marksOf "<p>a&#13;b</p>".toList) ∧
    html? tabbed "<plaintext>abc".toList = some "<plaintext>abc</plaintext>".toList ∧
      marksOf "<plaintext>abc</plaintext>".toList ≠ marksOf "<plaintext>abc".toList := by
  decide +kernel

end Format

end PrettyPayload
