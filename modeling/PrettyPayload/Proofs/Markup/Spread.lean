import PrettyPayload.Proofs.Markup.OfXml
import PrettyPayload.Proofs.Markup.Segments
import PrettyPayload.Proofs.Markup.Serializer

/-!
# Layout as content

What the layout of an XML document puts between its tags is text like any other when the document is
read again. `lay` puts it into the tree: in front of each node that stands on a line of its own
comes a text of a line ending and the indent, and the entries of a tree are the tree with its
layout, written without any more of it.
-/

namespace PrettyPayload

open PrettyPayload.Tree

namespace Markup

/-! ## Definitions -/

section

variable (options : Options)

def lineGap (depth : Nat) : Text := options.newline ++ Text.times depth options.indent

def spreadText (depth : Nat) (t : Text) : Text :=
  (segments t).flatMap (lineGap options depth ++ ·)

mutual

/-- A tree other than a text with the layout of its entries in its texts. An element that is written
with two tags and nothing between them gets an empty text. -/
def lay (depth : Nat) : Tree Node → Tree Node
  | .node v ts =>
    match v with
    | .element e =>
      if isPreformatted .xml e then .node v (if ts.isEmpty then [.node (.text []) []] else ts)
      else if (ts.map value).all isBlankNode then .node v []
      else
        match onlyLine? options (ts.map value) with
        | some line => .node v [.node (.text line) []]
        | none => .node v (spreadAll (depth + 1) ts ++ [.node (.text (lineGap options depth)) []])
    | _ => .node v ts

def spreadAll (depth : Nat) : List (Tree Node) → List (Tree Node)
  | [] => []
  | t :: ts =>
    match t.value with
    | .text s => .node (.text (spreadText options depth s)) [] :: spreadAll depth ts
    | _ => .node (.text (lineGap options depth)) [] :: lay depth t :: spreadAll depth ts

end

end

/-- The indent is made of spaces and tabs. -/
def PlainIndent (options : Options) : Prop := ∀ c ∈ options.indent, c = ' ' ∨ c = '\t'

variable {options : Options} {flavor : Flavor}

theorem spreadAll_of_isText_eq_false {t : Tree Node} {ts : List (Tree Node)} {depth : Nat}
    (h : t.value.isText = false) :
    spreadAll options depth (t :: ts) =
      .node (.text (lineGap options depth)) [] :: lay options depth t ::
        spreadAll options depth ts := by
  rw [spreadAll]
  split
  next hv =>
    rw [hv] at h
    cases h
  next => rfl

@[simp] theorem value_lay (depth : Nat) (t : Tree Node) :
    (lay options depth t).value = t.value := by
  obtain ⟨v, ts⟩ := t
  cases v with
  | element e =>
    rw [lay]
    split
    · rfl
    · split
      · rfl
      · split <;> rfl
  | _ => rfl

/-! ## Gaps -/

theorem escapeText_of_space {t : Text} (h : ∀ c ∈ t, Xml.isSpace c = true) :
    escapeText flavor t = t := by
  induction t with
  | nil => rfl
  | cons c t ih =>
    rw [List.forall_mem_cons] at h
    have hc : escapeTextChar flavor c = [c] := by
      have hspace := h.1
      simp only [Xml.isSpace, Bool.or_eq_true, decide_eq_true_eq] at hspace
      rcases hspace with ((rfl | rfl) | rfl) | rfl <;> cases flavor <;> decide
    rw [escapeText, List.flatMap_cons, hc, ← escapeText, ih h.2]
    rfl

theorem space_of_newline (options : Options) : ∀ c ∈ options.newline, Xml.isSpace c = true := by
  unfold Options.newline
  cases options.lineEnding <;> exact Text.forall_mem_of_all (by decide)

theorem space_of_lineGap (hindent : PlainIndent options) (depth : Nat) :
    ∀ c ∈ lineGap options depth, Xml.isSpace c = true := by
  refine List.forall_mem_append.2 ⟨space_of_newline options, Text.forall_mem_times depth ?_⟩
  intro c hc
  rcases hindent c hc with rfl | rfl <;> decide

theorem escapeText_lineGap (hindent : PlainIndent options) (depth : Nat) :
    escapeText flavor (lineGap options depth) = lineGap options depth :=
  escapeText_of_space (space_of_lineGap hindent depth)

/-! ## Entries -/

theorem flatMap_segments (hindent : PlainIndent options) (depth : Nat) (t : Text) :
    ((segments t).map fun line =>
        Text.times depth options.indent ++ escapeText flavor line).flatMap (options.newline ++ ·) =
      escapeText flavor (spreadText options depth t) := by
  unfold spreadText
  induction segments t with
  | nil => rfl
  | cons line lines ih =>
    rw [List.map_cons, List.flatMap_cons, List.flatMap_cons, ih, escapeText_append,
      escapeText_append, escapeText_lineGap hindent, lineGap]
    simp only [List.append_assoc]

mutual

/-- The entries of a tree, each behind a line ending, are the tree with its layout, written as it
is. -/
theorem flatMap_entries (hindent : PlainIndent options) (depth : Nat) :
    (t : Tree Node) → t.Each WritableAt → t.value.isText = false →
      (entries .xml options (depth + 1) t).flatMap (options.newline ++ ·) =
        lineGap options depth ++ verbatim .xml (lay options depth t)
  | .node v ts, h, ht => by
    have ih := flatMap_entriesOfAll hindent (depth + 1) ts h.2
    cases v with
    | text t => cases ht
    | element e =>
      rw [entries_element, lay]
      simp only [Nat.add_sub_cancel]
      split
      next hpre =>
        cases ts with
        | nil =>
          rw [List.isEmpty_nil, if_pos rfl, verbatim_element_of_ne_nil e (List.cons_ne_nil _ _)]
          simp [verbatimAll, verbatim, lineGap]
        | cons t ts =>
          rw [List.isEmpty_cons, if_neg Bool.false_ne_true,
            verbatim_element_of_ne_nil e (List.cons_ne_nil t ts)]
          simp [lineGap]
      next =>
        split
        next => simp [verbatim, lineGap]
        next =>
          cases onlyLine? options (ts.map value) with
          | some line =>
            dsimp only
            rw [verbatim_element_of_ne_nil e (List.cons_ne_nil _ _), verbatimAll_text]
            simp [lineGap]
          | none =>
            dsimp only
            rw [verbatim_element_of_ne_nil e (List.append_ne_nil_of_right_ne_nil _
              (List.cons_ne_nil _ _)), verbatimAll_append, verbatimAll_text,
              escapeText_lineGap hindent, ← ih, lineGap]
            simp only [List.cons_append, List.flatMap_cons, List.flatMap_append, List.flatMap_nil,
              List.append_nil, List.append_assoc]
    | comment t =>
      obtain rfl := h.1.leaf rfl
      simp [entries, lay, lineGap, verbatim, verbatimAll]
    | instruction target content =>
      obtain rfl := h.1.leaf rfl
      simp [entries, lay, lineGap, verbatim, verbatimAll]
    | document => exact absurd h.1.node id
    | doctype t => exact absurd h.1.node id
    | data t => exact absurd h.1.node id
    | css t => exact absurd h.1.node id

theorem flatMap_entriesOfAll (hindent : PlainIndent options) (depth : Nat) :
    (ts : List (Tree Node)) → EachOfAll WritableAt ts →
      (entriesOfAll .xml options (depth + 1) ts).flatMap (options.newline ++ ·) =
        verbatimAll .xml (spreadAll options depth ts)
  | [], _ => rfl
  | .node v us :: ts, h => by
    have ih := flatMap_entriesOfAll hindent depth ts h.2
    rw [entriesOfAll, List.flatMap_append, ih]
    cases hv : v.isText with
    | true =>
      obtain ⟨t, rfl⟩ := exists_of_isText hv
      rw [spreadAll, entries]
      simp only [value_node, verbatimAll, verbatim, List.append_nil]
      exact congrArg (· ++ _) (flatMap_segments hindent depth t)
    | false =>
      rw [flatMap_entries hindent depth (.node v us) h.1 hv,
        spreadAll_of_isText_eq_false (t := .node v us) hv]
      simp [verbatimAll, verbatim, escapeText_lineGap hindent]

end

/-! ## The layout is writable -/

theorem onlyLine?_eq_some {ts : List (Tree Node)} {line : Text}
    (h : onlyLine? options (ts.map value) = some line) :
    ∃ t us, ts.filter (fun t => !isBlankNode t.value) = [.node (.text t) us] ∧
      segments t = [line] := by
  unfold onlyLine? at h
  split at h
  next =>
    split at h
    next t hfilter =>
      split at h
      next l hsegments =>
        obtain rfl := Option.some.inj h
        rw [List.filter_map, List.map_eq_singleton_iff] at hfilter
        obtain ⟨⟨v, us⟩, hu, rfl⟩ := hfilter
        exact ⟨t, us, hu, hsegments⟩
      next => cases h
    next => cases h
  next => cases h

theorem mem_of_mem_onlyLine {ts : List (Tree Node)} {line : Text} {c : Char}
    (h : onlyLine? options (ts.map value) = some line) (hc : c ∈ line) :
    ∃ t us, Tree.node (.text t) us ∈ ts ∧ c ∈ t := by
  obtain ⟨t, us, hfilter, hsegments⟩ := onlyLine?_eq_some h
  exact ⟨t, us, (List.mem_filter.1 (hfilter ▸ List.mem_cons_self)).1,
    mem_of_mem_segments (hsegments ▸ List.mem_cons_self) hc⟩

theorem isAllowed_of_isSpace {c : Char} (h : Xml.isSpace c = true) : Xml.isAllowed c = true := by
  simp only [Xml.isSpace, Bool.or_eq_true, decide_eq_true_eq] at h
  rcases h with ((rfl | rfl) | rfl) | rfl <;> decide

theorem writableAt_text {t : Text} (h : ∀ c ∈ t, Xml.isAllowed c = true) :
    (Tree.node (Node.text t) []).Each WritableAt :=
  ⟨⟨h, fun _ => rfl⟩, trivial⟩

theorem writableAt_lineGap (hindent : PlainIndent options) (depth : Nat) :
    (Tree.node (Node.text (lineGap options depth)) []).Each WritableAt :=
  writableAt_text fun c hc => isAllowed_of_isSpace (space_of_lineGap hindent depth c hc)

theorem allowed_of_spreadText (hindent : PlainIndent options) (depth : Nat) {t : Text}
    (h : ∀ c ∈ t, Xml.isAllowed c = true) :
    ∀ c ∈ spreadText options depth t, Xml.isAllowed c = true := by
  intro c hc
  obtain ⟨line, hline, hc⟩ := List.mem_flatMap.1 hc
  rcases List.mem_append.1 hc with hc | hc
  · exact isAllowed_of_isSpace (space_of_lineGap hindent depth c hc)
  · exact h c (mem_of_mem_segments hline hc)

mutual

theorem writableAt_lay (hindent : PlainIndent options) (depth : Nat) :
    (t : Tree Node) → t.Each WritableAt → (lay options depth t).Each WritableAt
  | .node v ts, h => by
    have ih := writableAt_spreadAll hindent (depth + 1) ts h.2
    cases v with
    | element e =>
      rw [lay]
      split
      next =>
        refine ⟨⟨h.1.node, nofun⟩, ?_⟩
        split
        next => exact ⟨writableAt_text nofun, trivial⟩
        next => exact h.2
      next =>
        split
        next => exact ⟨⟨h.1.node, nofun⟩, trivial⟩
        next =>
          split
          next line honly =>
            refine ⟨⟨h.1.node, nofun⟩, writableAt_text ?_, trivial⟩
            intro c hc
            obtain ⟨t, us, hu, hc⟩ := mem_of_mem_onlyLine honly hc
            exact (eachOfAll_iff.1 h.2 _ hu).1.node c hc
          next =>
            refine ⟨⟨h.1.node, nofun⟩, eachOfAll_iff.2 (List.forall_mem_append.2
              ⟨eachOfAll_iff.1 ih, ?_⟩)⟩
            exact List.forall_mem_cons.2 ⟨writableAt_lineGap hindent depth, nofun⟩
    | text t => exact h
    | comment t => exact h
    | instruction target content => exact h
    | document => exact absurd h.1.node id
    | doctype t => exact absurd h.1.node id
    | data t => exact absurd h.1.node id
    | css t => exact absurd h.1.node id

theorem writableAt_spreadAll (hindent : PlainIndent options) (depth : Nat) :
    (ts : List (Tree Node)) → EachOfAll WritableAt ts →
      EachOfAll WritableAt (spreadAll options depth ts)
  | [], _ => trivial
  | .node v us :: ts, h => by
    have ih := writableAt_spreadAll hindent depth ts h.2
    cases hv : v.isText with
    | true =>
      obtain ⟨t, rfl⟩ := exists_of_isText hv
      exact ⟨writableAt_text (allowed_of_spreadText hindent depth h.1.1.node), ih⟩
    | false =>
      rw [spreadAll_of_isText_eq_false (t := .node v us) hv]
      exact ⟨writableAt_lineGap hindent depth, writableAt_lay hindent depth (.node v us) h.1, ih⟩

end

end Markup

end PrettyPayload
