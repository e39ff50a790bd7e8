import PrettyPayload.Markup.Serializer
import PrettyPayload.Proofs.Text.Join
import PrettyPayload.Proofs.Tree

/-!
# The entries of a document

What a document looks like when it is written, by recursion over its tree. `verbatim` is a subtree
without any layout. `entries` are the pieces of a subtree that stand between two line endings; each
starts with the indent of its node. A piece may run over several lines where the document itself
has line feeds, in preformatted content and in stylesheets.
-/

namespace PrettyPayload

namespace Markup

mutual

def verbatim (flavor : Flavor) : Tree Node → Text
  | .node value ts =>
    match value with
    | .document => verbatimAll flavor ts
    | .text t => escapeText flavor t ++ verbatimAll flavor ts
    | .data t => t ++ verbatimAll flavor ts
    | .css t => t ++ verbatimAll flavor ts
    | .comment t => commentText t ++ verbatimAll flavor ts
    | .doctype t => doctypeText t ++ verbatimAll flavor ts
    | .instruction target data => instructionText flavor target data ++ verbatimAll flavor ts
    | .element e =>
      if flavor = .xml ∧ ts.isEmpty then startTag flavor e true
      else
        startTag flavor e false ++ verbatimAll flavor ts ++
          if isVoid flavor e then [] else endTag e

def verbatimAll (flavor : Flavor) : List (Tree Node) → Text
  | [] => []
  | t :: ts => verbatim flavor t ++ verbatimAll flavor ts

end

/-- The line of an element that holds no more than that, of those between the tags. -/
def onlyLine? (options : Options) (children : List Node) : Option Text :=
  if options.inlineSingleText then
    match children.filter fun node => !isBlankNode node with
    | [.text t] =>
      match segments t with
      | [line] => some line
      | _ => none
    | _ => none
  else none

/-- The stylesheet in a style element, without carriage returns and white space at its end. -/
def stylesheetOf (children : List Node) : Text :=
  Text.trimEnd Text.isBlank (Text.withoutReturns (textOf children))

mutual

/-- The pieces of a subtree whose root has some number of ancestors. A nested document is itself not
written, but counts as an ancestor. -/
def entries (flavor : Flavor) (options : Options) (ancestors : Nat) : Tree Node → List Text
  | .node value ts =>
    let indented (t : Text) : Text := Text.times (ancestors - 1) options.indent ++ t
    let children := ts.map Tree.value
    match value with
    | .document => entriesOfAll flavor options (ancestors + 1) ts
    | .text t => (segments t).map fun line => indented (escapeText flavor line)
    | .data t => (segments t).map indented
    | .css t => (segments t).map indented
    | .comment t => [indented (commentText t)]
    | .doctype t => [indented (doctypeText t)]
    | .instruction target data => [indented (instructionText flavor target data)]
    | .element e =>
      let start := startTag flavor e false
      if isVoid flavor e then [indented start]
      else if isPreformatted flavor e then
        [indented
          (start ++ leadingLineFeed flavor e children ++ verbatimAll flavor ts ++ endTag e)]
      else if flavor = .html ∧ e.isStyle then
        if stylesheetOf children = [] then [indented (start ++ endTag e)]
        else
          [indented (start ++ Text.replaceChar '\n' options.newline (stylesheetOf children)),
            indented (endTag e)]
      else if children.all isBlankNode then
        match flavor with
        | .html => [indented (start ++ endTag e)]
        | .xml => [indented (startTag flavor e true)]
      else
        match onlyLine? options children with
        | some line => [indented (start ++ escapeText flavor line ++ endTag e)]
        | none =>
          indented start :: entriesOfAll flavor options (ancestors + 1) ts ++ [indented (endTag e)]

def entriesOfAll (flavor : Flavor) (options : Options) (ancestors : Nat) :
    List (Tree Node) → List Text
  | [] => []
  | t :: ts => entries flavor options ancestors t ++ entriesOfAll flavor options ancestors ts

end

/-! ## Handles are not written -/

mutual

theorem inline_eq_verbatim (flavor : Flavor) :
    (t : Tree (Nat × Node)) → inline flavor t = verbatim flavor (t.map Prod.snd)
  | .node (_, value) ts => by
    have ih := inlineAll_eq_verbatimAll flavor ts
    cases value with
    | element e =>
      cases flavor with
      | html => simp [Tree.map, inline, verbatim, ih]
      | xml => cases ts <;> simp [Tree.map, inline, verbatim, ih, Tree.mapAll, isVoid]
    | _ => simp only [Tree.map, inline, verbatim, ih]

theorem inlineAll_eq_verbatimAll (flavor : Flavor) :
    (ts : List (Tree (Nat × Node))) →
      inlineAll flavor ts = verbatimAll flavor (Tree.mapAll Prod.snd ts)
  | [] => rfl
  | t :: ts => by
    rw [inlineAll, Tree.mapAll, verbatimAll, inline_eq_verbatim flavor t,
      inlineAll_eq_verbatimAll flavor ts]

end

/-! ## Parts of what is written -/

theorem verbatimAll_append (flavor : Flavor) (ts us : List (Tree Node)) :
    verbatimAll flavor (ts ++ us) = verbatimAll flavor ts ++ verbatimAll flavor us := by
  induction ts with
  | nil => rfl
  | cons t ts ih => rw [List.cons_append, verbatimAll, verbatimAll, ih, List.append_assoc]

theorem entriesOfAll_append (flavor : Flavor) (options : Options) (ancestors : Nat)
    (ts us : List (Tree Node)) :
    entriesOfAll flavor options ancestors (ts ++ us) =
      entriesOfAll flavor options ancestors ts ++ entriesOfAll flavor options ancestors us := by
  induction ts with
  | nil => rfl
  | cons t ts ih => rw [List.cons_append, entriesOfAll, entriesOfAll, ih, List.append_assoc]

theorem entries_element (options : Options) (ancestors : Nat) (e : Element)
    (ts : List (Tree Node)) :
    entries .xml options ancestors (.node (.element e) ts) =
      let indented (t : Text) : Text := Text.times (ancestors - 1) options.indent ++ t
      if isPreformatted .xml e then
        [indented (startTag .xml e false ++ verbatimAll .xml ts ++ endTag e)]
      else if (ts.map Tree.value).all isBlankNode then [indented (startTag .xml e true)]
      else
        match onlyLine? options (ts.map Tree.value) with
        | some line => [indented (startTag .xml e false ++ escapeText .xml line ++ endTag e)]
        | none =>
          indented (startTag .xml e false) :: entriesOfAll .xml options (ancestors + 1) ts ++
            [indented (endTag e)] := by
  have hvoid : isVoid .xml e = false := rfl
  have hfeed : leadingLineFeed .xml e (ts.map Tree.value) = [] := rfl
  rw [entries]
  simp only [hvoid, hfeed, Bool.false_eq_true, reduceCtorEq, false_and, if_false, List.append_nil]

theorem verbatimAll_text (t : Text) :
    verbatimAll .xml [.node (.text t) []] = escapeText .xml t := by
  simp [verbatimAll, verbatim]

theorem verbatim_element_of_ne_nil (e : Element) {ts : List (Tree Node)} (h : ts ≠ []) :
    verbatim .xml (.node (.element e) ts) =
      startTag .xml e false ++ verbatimAll .xml ts ++ endTag e := by
  have hempty : ts.isEmpty = false := by simpa using h
  simp [verbatim, hempty, isVoid]

end Markup

end PrettyPayload
