import PrettyPayload.Proofs.Markup.Document
import PrettyPayload.Proofs.Markup.Entries

/-!
# The walk around a document

The serializer goes around the tree of a document and skips what is already written. The handles
below a node are greater than its own, so the skipping ends where the node is left and nowhere
before. Hence the walk writes the lines of a tree by recursion (`walk_edgesOnto`), and these are the
entries of the tree, taken apart at their line feeds (`serialize_eq_joinWith_entries`).
-/

namespace PrettyPayload

namespace Markup

open PrettyPayload.Tree

/-! ## Lines by recursion -/

section

variable {flavor : Flavor} {style : Style} {options : Options} {ancestors : Nat}

mutual

def linesOf (flavor : Flavor) (style : Style) (ancestors : Nat) : Tree (Nat × Node) → List Text
  | .node v ts =>
    let (lines, whole) := entryLines flavor style (ancestors - 1) (.node v ts)
    if whole then lines
    else
      lines ++ linesOfAll flavor style (ancestors + 1) ts ++
        exitLines style (ancestors - 1) (.node v ts)

def linesOfAll (flavor : Flavor) (style : Style) (ancestors : Nat) :
    List (Tree (Nat × Node)) → List Text
  | [] => []
  | t :: ts => linesOf flavor style ancestors t ++ linesOfAll flavor style ancestors ts

end

mutual

theorem walk_skip_edgesOnto {skip : Nat} (ancestors : Nat) (rest : List (Edge (Nat × Node))) :
    (t : Tree (Nat × Node)) → t.All (fun v => v.1 ≠ skip) →
      walk flavor style (some skip) (edgesOnto ancestors t rest) =
        walk flavor style (some skip) rest
  | .node v ts, h => by
    have hne : (node v ts).value.1 ≠ skip := h.1
    rw [edgesOnto, walk, walk_skip_edgesOntoAll (ancestors + 1) _ ts h.2, walk, if_neg hne]

theorem walk_skip_edgesOntoAll {skip : Nat} (ancestors : Nat) (rest : List (Edge (Nat × Node))) :
    (ts : List (Tree (Nat × Node))) → AllOfAll (fun v => v.1 ≠ skip) ts →
      walk flavor style (some skip) (edgesOntoAll ancestors ts rest) =
        walk flavor style (some skip) rest
  | [], _ => by rw [edgesOntoAll]
  | t :: ts, h => by
    rw [edgesOntoAll, walk_skip_edgesOnto ancestors _ t h.1,
      walk_skip_edgesOntoAll ancestors rest ts h.2]

end

mutual

/-- A walk around a tree writes the lines of the tree, and skips nothing behind it. -/
theorem walk_edgesOnto (ancestors : Nat) (rest : List (Edge (Nat × Node))) :
    (t : Tree (Nat × Node)) → t.Ascending (fun a b => a.1 < b.1) →
      walk flavor style none (edgesOnto ancestors t rest) =
        linesOf flavor style ancestors t ++ walk flavor style none rest
  | .node v ts, h => by
    rw [edgesOnto, walk, linesOf]
    cases entryLines flavor style (ancestors - 1) (.node v ts) with
    | mk lines whole =>
      cases whole with
      | true =>
        -- The node is left where the walk meets its handle again, which is not among those below.
        have hskip : AllOfAll (fun w => w.1 ≠ v.1) ts :=
          AllOfAll.mono (fun w hw => Nat.ne_of_gt hw) ts h.1
        simp only [if_true, value_node]
        rw [walk_skip_edgesOntoAll (ancestors + 1) _ ts hskip, walk]
        simp only [value_node, if_true]
      | false =>
        simp only [Bool.false_eq_true, if_false]
        rw [walk_edgesOntoAll (ancestors + 1) _ ts h.2, walk]
        simp only [List.append_assoc]

theorem walk_edgesOntoAll (ancestors : Nat) (rest : List (Edge (Nat × Node))) :
    (ts : List (Tree (Nat × Node))) → AscendingAll (fun a b => a.1 < b.1) ts →
      walk flavor style none (edgesOntoAll ancestors ts rest) =
        linesOfAll flavor style ancestors ts ++ walk flavor style none rest
  | [], _ => by rw [edgesOntoAll, linesOfAll, List.nil_append]
  | t :: ts, h => by
    rw [edgesOntoAll, walk_edgesOnto ancestors _ t h.1, walk_edgesOntoAll ancestors rest ts h.2,
      linesOfAll, List.append_assoc]

end

theorem Document.lines_eq_linesOf (style : Style) (d : Document) :
    d.lines style = linesOf d.flavor style 0 d.tree := by
  rw [Document.lines, Tree.edges, walk_edgesOnto 0 [] d.tree (d.ascending_treeAt root), walk,
    List.append_nil]

/-! ## Lines and entries -/

@[simp] theorem Style.inlineSingleText_ofOptions (options : Options) :
    (Style.ofOptions options).inlineSingleText = options.inlineSingleText := rfl

@[simp] theorem Style.line_ofOptions (options : Options) (depth : Nat) :
    (Style.ofOptions options).line depth = fun t => Text.times depth options.indent ++ t := rfl

theorem flatMap_styleLines (depth : Nat) (tag : Text) (e : Element) (children : List Node) :
    (styleLines (Style.ofOptions options) depth tag e children).flatMap (options.newline ++ ·) =
      (if stylesheetOf children = [] then [Text.times depth options.indent ++ (tag ++ endTag e)]
        else
          [Text.times depth options.indent ++
              (tag ++ Text.replaceChar '\n' options.newline (stylesheetOf children)),
            Text.times depth options.indent ++ endTag e]).flatMap (options.newline ++ ·) := by
  rw [styleLines, ← stylesheetOf]
  dsimp only [Style.line_ofOptions]
  split
  · rfl
  · have hreplace :=
      Text.joinWith_splitOn_eq_replaceChar '\n' options.newline (stylesheetOf children)
    cases hs : Text.splitOn '\n' (stylesheetOf children) with
    | nil => exact absurd hs (Text.splitOn_ne_nil _ _)
    | cons first rest =>
      rw [hs, Text.joinWith_cons] at hreplace
      simp [← hreplace]

theorem filter_eq_nil_iff_all_blank {children : List Node} :
    children.filter (fun node => !isBlankNode node) = [] ↔ children.all isBlankNode = true := by
  simp [List.filter_eq_nil_iff]

theorem onlyLine?_eq_singleSegment? (children : List Node) :
    onlyLine? options children =
      if options.inlineSingleText then
        singleSegment? (children.filter fun node => !isBlankNode node)
      else none := by
  rw [onlyLine?]
  split
  · unfold singleSegment?
    rfl
  · rfl

/-- The layout of an element, read off the questions that its entries ask one after the other. -/
theorem layoutOf_eq (e : Element) (children : List Node) :
    layoutOf flavor options.inlineSingleText e children =
      if isVoid flavor e then .void
      else if isPreformatted flavor e then .verbatim
      else if flavor = .html ∧ e.isStyle then .stylesheet
      else if children.all isBlankNode then
        match flavor with
        | .html => .empty
        | .xml => .selfClosing
      else
        match onlyLine? options children with
        | some line => .singleLine line
        | none => .block := by
  unfold layoutOf
  rw [onlyLine?_eq_singleSegment?]
  cases hcounting : children.filter fun node => !isBlankNode node with
  | nil =>
    have hall := filter_eq_nil_iff_all_blank.1 hcounting
    generalize children.all isBlankNode = blank at hall ⊢
    subst hall
    rfl
  | cons node nodes =>
    have hall : children.all isBlankNode = false := by
      rw [← Bool.not_eq_true, ← filter_eq_nil_iff_all_blank, hcounting]
      simp
    generalize children.all isBlankNode = blank at hall ⊢
    subst hall
    rfl

mutual

theorem flatMap_linesOf (ancestors : Nat) :
    (t : Tree (Nat × Node)) →
      (linesOf flavor (Style.ofOptions options) ancestors t).flatMap (options.newline ++ ·) =
        (entries flavor options ancestors (t.map Prod.snd)).flatMap (options.newline ++ ·)
  | .node (h, value) ts => by
    have ih := flatMap_linesOfAll (ancestors + 1) ts
    cases value with
    | document => simpa [linesOf, Tree.map, entries, entryLines, exitLines] using ih
    | element e =>
      have hchildren : (mapAll Prod.snd ts).map Tree.value = ts.map fun t => t.value.2 :=
        map_value_mapAll Prod.snd ts
      simp only [linesOf, Tree.map, entries, entryLines, value_node, children_node, elementLines,
        exitLines, hchildren, Style.inlineSingleText_ofOptions, layoutOf_eq]
      by_cases hvoid : isVoid flavor e = true
      · simp [hvoid]
      by_cases hpre : isPreformatted flavor e = true
      · simp [hvoid, hpre, inlineAll_eq_verbatimAll]
      by_cases hstyle : flavor = .html ∧ e.isStyle = true
      · simp only [hvoid, hpre, if_pos hstyle, Bool.false_eq_true, if_false, if_true]
        exact flatMap_styleLines _ _ _ _
      by_cases hblank : (ts.map fun t => t.value.2).all isBlankNode = true
      · simp only [hvoid, hpre, if_neg hstyle, if_pos hblank, Bool.false_eq_true, if_false]
        cases flavor <;> simp
      · simp only [hvoid, hpre, if_neg hstyle, if_neg hblank, Bool.false_eq_true, if_false]
        cases onlyLine? options (ts.map fun t => t.value.2) with
        | some line => simp
        | none => simp [ih]
    | _ => simp [linesOf, Tree.map, entries, entryLines]

theorem flatMap_linesOfAll (ancestors : Nat) :
    (ts : List (Tree (Nat × Node))) →
      (linesOfAll flavor (Style.ofOptions options) ancestors ts).flatMap (options.newline ++ ·) =
        (entriesOfAll flavor options ancestors (mapAll Prod.snd ts)).flatMap
          (options.newline ++ ·)
  | [] => rfl
  | t :: ts => by
    rw [linesOfAll, mapAll, entriesOfAll, List.flatMap_append, List.flatMap_append,
      flatMap_linesOf ancestors t, flatMap_linesOfAll ancestors ts]

end

/-! ## Writing line by line -/

/-- A text that is being written, and the node whose content is already in it. -/
structure Progress where
  written : Text
  skip : Option Nat

def Progress.start : Progress := ⟨[], none⟩

/-- A line behind what is written; a line ending is put between them unless there is nothing yet. -/
def startLine (options : Options) (written line : Text) : Text :=
  (if written = [] then [] else written ++ options.newline) ++ line

/-- Writes what belongs to one step of the walk around a document. -/
def Progress.step (flavor : Flavor) (options : Options) (p : Progress) :
    Edge (Nat × Node) → Progress
  | .enter ancestors t =>
    match p.skip with
    | some _ => p
    | none =>
      let (lines, whole) := entryLines flavor (Style.ofOptions options) (ancestors - 1) t
      ⟨lines.foldl (startLine options) p.written, if whole then some t.value.1 else none⟩
  | .leave ancestors t =>
    match p.skip with
    | some h => ⟨p.written, if t.value.1 = h then none else some h⟩
    | none =>
      let lines := exitLines (Style.ofOptions options) (ancestors - 1) t
      ⟨lines.foldl (startLine options) p.written, none⟩

theorem startLine_joinWith {written : List Text} (line : Text) (h : written.head? ≠ some []) :
    startLine options (Text.joinWith options.newline written) line =
      Text.joinWith options.newline (written ++ [line]) := by
  cases written with
  | nil => simp [startLine]
  | cons first written =>
    have hfirst : first ≠ [] := by simpa using h
    rw [startLine, if_neg (by simp [Text.joinWith_cons, hfirst]),
      Text.joinWith_concat _ _ (by simp)]

theorem foldl_startLine {written lines : List Text} (h : (written ++ lines).head? ≠ some []) :
    lines.foldl (startLine options) (Text.joinWith options.newline written) =
      Text.joinWith options.newline (written ++ lines) := by
  induction lines generalizing written with
  | nil => rw [List.foldl_nil, List.append_nil]
  | cons line lines ih =>
    have hwritten : written.head? ≠ some [] := by
      cases written with
      | nil => simp
      | cons first written => exact h
    rw [List.foldl_cons, startLine_joinWith line hwritten, ih (by simpa using h)]
    simp

theorem ne_nil_of_mem_segments {t line : Text} (h : line ∈ segments t) : line ≠ [] := by
  simpa using (List.mem_filter.1 h).2

theorem escapeText_ne_nil {t : Text} (h : t ≠ []) : escapeText flavor t ≠ [] := by
  obtain ⟨c, t, rfl⟩ := List.exists_cons_of_ne_nil h
  rw [escapeText, List.flatMap_cons]
  refine List.append_ne_nil_of_left_ne_nil ?_ _
  unfold escapeTextChar
  repeat' split
  all_goals simp

theorem startTag_ne_nil (e : Element) (closed : Bool) : startTag flavor e closed ≠ [] :=
  List.append_ne_nil_of_left_ne_nil (List.append_ne_nil_of_left_ne_nil (List.cons_ne_nil _ _) _) _

theorem commentText_ne_nil (t : Text) : commentText t ≠ [] :=
  List.append_ne_nil_of_left_ne_nil (List.append_ne_nil_of_left_ne_nil (by decide) _) _

theorem doctypeText_ne_nil (t : Text) : doctypeText t ≠ [] :=
  List.append_ne_nil_of_left_ne_nil (List.append_ne_nil_of_left_ne_nil (by decide) _) _

theorem instructionText_ne_nil (target data : Text) : instructionText flavor target data ≠ [] :=
  List.append_ne_nil_of_left_ne_nil (List.append_ne_nil_of_left_ne_nil (List.cons_ne_nil _ _) _) _

theorem head?_line_cons {t : Text} (depth : Nat) (lines : List Text) (h : t ≠ []) :
    (style.line depth t :: lines).head? ≠ some [] := by
  rw [List.head?_cons, ne_eq, Option.some.injEq]
  exact List.append_ne_nil_of_right_ne_nil _ h

theorem head?_map_line {parts : List Text} (depth : Nat) (h : ∀ t ∈ parts, t ≠ []) :
    (parts.map (style.line depth)).head? ≠ some [] := by
  cases parts with
  | nil => exact fun hnone => nomatch hnone
  | cons t parts => exact head?_line_cons depth _ (h t List.mem_cons_self)

theorem head?_styleLines (depth : Nat) (e : Element) (children : List Node) :
    (styleLines style depth (startTag flavor e false) e children).head? ≠ some [] := by
  have htag (t : Text) : startTag flavor e false ++ t ≠ [] :=
    List.append_ne_nil_of_left_ne_nil (startTag_ne_nil e false) t
  rw [styleLines]
  split
  · exact head?_line_cons depth _ (htag _)
  · split
    · exact head?_line_cons depth _ (htag _)
    · exact head?_line_cons depth _ (htag _)

theorem head?_elementLines (depth : Nat) (e : Element) (ts : List (Tree (Nat × Node))) :
    (elementLines flavor style depth e ts).1.head? ≠ some [] := by
  have htag (t : Text) : startTag flavor e false ++ t ≠ [] :=
    List.append_ne_nil_of_left_ne_nil (startTag_ne_nil e false) t
  rw [elementLines]
  split
  · exact head?_line_cons depth _ (startTag_ne_nil e false)
  · exact head?_line_cons depth _ (startTag_ne_nil e true)
  · refine head?_line_cons depth _ ?_
    rw [List.append_assoc, List.append_assoc]
    exact htag _
  · exact head?_styleLines depth e _
  · exact head?_line_cons depth _ (htag _)
  · refine head?_line_cons depth _ ?_
    rw [List.append_assoc]
    exact htag _
  · exact head?_line_cons depth _ (startTag_ne_nil e false)

theorem head?_entryLines (flavor : Flavor) (style : Style) (depth : Nat)
    (t : Tree (Nat × Node)) : (entryLines flavor style depth t).1.head? ≠ some [] := by
  obtain ⟨⟨h, value⟩, ts⟩ := t
  cases value with
  | document => exact fun hnone => nomatch hnone
  | element e => exact head?_elementLines depth e ts
  | doctype t => exact head?_line_cons depth _ (doctypeText_ne_nil t)
  | comment t => exact head?_line_cons depth _ (commentText_ne_nil t)
  | instruction target data => exact head?_line_cons depth _ (instructionText_ne_nil target data)
  | text t =>
    have hmap : (entryLines flavor style depth (.node (h, .text t) ts)).1 =
        ((segments t).map (escapeText flavor)).map (style.line depth) := by
      rw [List.map_map]
      rfl
    rw [hmap]
    refine head?_map_line depth ?_
    intro line hline
    obtain ⟨s, hs, rfl⟩ := List.mem_map.1 hline
    exact escapeText_ne_nil (ne_nil_of_mem_segments hs)
  | data t => exact head?_map_line depth fun _ => ne_nil_of_mem_segments
  | css t => exact head?_map_line depth fun _ => ne_nil_of_mem_segments

theorem head?_exitLines (style : Style) (depth : Nat) (t : Tree (Nat × Node)) :
    (exitLines style depth t).head? ≠ some [] := by
  unfold exitLines
  split
  · exact head?_line_cons depth _ (List.cons_ne_nil _ _)
  · exact fun hnone => nomatch hnone

theorem head?_append {first rest : List Text} (hfirst : first.head? ≠ some [])
    (hrest : rest.head? ≠ some []) : (first ++ rest).head? ≠ some [] := by
  cases first with
  | nil => exact hrest
  | cons line first => exact hfirst

/-- What is written step by step is the lines of the walk with a line ending between each two. -/
theorem written_foldl_step (edges : List (Edge (Nat × Node))) (skip : Option Nat)
    {written : List Text} (h : written.head? ≠ some []) :
    (edges.foldl (Progress.step flavor options)
        ⟨Text.joinWith options.newline written, skip⟩).written =
      Text.joinWith options.newline
        (written ++ walk flavor (Style.ofOptions options) skip edges) := by
  induction edges generalizing skip written with
  | nil => rw [List.foldl_nil, walk, List.append_nil]
  | cons edge edges ih =>
    rw [List.foldl_cons]
    cases skip with
    | some skip =>
      cases edge with
      | enter ancestors t => exact ih (some skip) h
      | leave ancestors t => exact ih (if t.value.1 = skip then none else some skip) h
    | none =>
      cases edge with
      | enter ancestors t =>
        have hentry := head?_append h
          (head?_entryLines flavor (Style.ofOptions options) (ancestors - 1) t)
        rw [Progress.step]
        dsimp only
        rw [foldl_startLine hentry, ih _ hentry, walk, List.append_assoc]
      | leave ancestors t =>
        have hexit := head?_append h
          (head?_exitLines (Style.ofOptions options) (ancestors - 1) t)
        rw [Progress.step]
        dsimp only
        rw [foldl_startLine hexit, ih _ hexit, walk, List.append_assoc]

/-! ## The whole document -/

theorem Document.serialize_eq (options : Options) (d : Document) :
    d.serialize options =
      Text.joinWith options.newline (entries d.flavor options 0 (d.tree.map Prod.snd)) := by
  rw [Document.serialize, d.lines_eq_linesOf, Text.joinWith_eq_drop, flatMap_linesOf,
    ← Text.joinWith_eq_drop]

/-- Going around a document and writing line by line, with the content of a node skipped that is
already written, gives the entries of the document's tree with a line ending between each two. -/
theorem Document.serialize_eq_joinWith_entries (options : Options) (d : Document) :
    (d.tree.edges.foldl (Progress.step d.flavor options) Progress.start).written =
        d.serialize options ∧
      d.serialize options =
        Text.joinWith options.newline
          (entries d.flavor options 0 (d.tree.map Prod.snd)) := by
  constructor
  · have hnil : ([] : List Text).head? ≠ some [] := fun hnone => nomatch hnone
    exact written_foldl_step d.tree.edges none hnil
  · exact d.serialize_eq options

example :
    entries .html ⟨['\t'], .crlf, true⟩ 0
        (.node .document
          [.node (.comment ['a']) [],
            .node (.element ⟨['p'], [(['b'], "\"c".toList)]⟩)
              [.node (.text " d & e\n\nf ".toList) [],
                .node (.element ⟨"br".toList, []⟩) [.node (.text ['g']) []],
                .node (.element ⟨['i'], []⟩) [.node (.text " h ".toList) []]],
            .node (.element ⟨"style".toList, []⟩) [.node (.css "\nj\r\nk \n".toList) []],
            .node (.element ⟨"pre".toList, []⟩)
              [.node (.text "\n l".toList) [], .node (.element ⟨['i'], []⟩) []],
            .node (.element ⟨"div".toList, []⟩) [.node (.text [' ']) []]]) =
      ["<!--a-->".toList, "<p b=\"&quot;c\">".toList, "\td &amp; e".toList, "\tf".toList,
        "\t<br>".toList, "\t<i>h</i>".toList, "</p>".toList, "<style>\r\nj\r\nk".toList,
        "</style>".toList, "<pre>\n\n l<i></i></pre>".toList, "<div></div>".toList] := by
  decide

end

end Markup

end PrettyPayload
