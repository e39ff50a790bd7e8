import PrettyPayload.Proofs.Markup.OfXml
import PrettyPayload.Proofs.Text.Trim
import PrettyPayload.Proofs.Xml.Prolog

/-!
# Document types found again

A document type is no node of XML, and it is looked up in the text of the prolog: its opening mark
first, then the closing bracket that is neither quoted nor inside square brackets. `Nest` is the
state of this second search, and a body is `Leveled` if the search goes on through all of it and
ends right behind it.

`Document.ofXml?_iff_leveled` says when the document has the document type of its source and has it
in its place: if the mark stands nowhere in front, exactly where the body is leveled. A document
type without an internal subset always is, and so is one that declares entities only. A quote or a
bracket in a comment of the subset can be in the way.
-/

namespace PrettyPayload

namespace Markup

open PrettyPayload.Tree Xml

/-! ## Definitions -/

/-- Where the search for the end of a document type stands: how many square brackets are open, and
which quote, if any. -/
structure Nest where
  depth : Nat
  quote : Option Char
  deriving DecidableEq, Repr

namespace Nest

def outside : Nest := ⟨0, none⟩

def next (n : Nest) (c : Char) : Nest :=
  match n.quote with
  | some q => ⟨n.depth, if c = q then none else some q⟩
  | none =>
    if c = '"' ∨ c = '\'' then ⟨n.depth, some c⟩
    else if c = '[' then ⟨n.depth + 1, none⟩
    else if c = ']' then ⟨n.depth - 1, none⟩
    else n

/-- The state behind a text; none if the search ends in it. -/
def after? (n : Nest) : Text → Option Nest
  | [] => some n
  | c :: t => if n = outside ∧ c = '>' then none else (n.next c).after? t

end Nest

/-- A body behind which the search for its end stands outside, and not before a closing bracket of
its own. -/
def Leveled (body : Text) : Prop := Nest.outside.after? body = some .outside

instance (body : Text) : Decidable (Leveled body) :=
  inferInstanceAs (Decidable (Nest.outside.after? body = some .outside))

namespace Document

/-- The top level of a document: its declaration, comments and instructions, the document type, more
comments and instructions, and the content. -/
def topLevel (t : Text) (before : List (Placed Xml.Node)) (doctype : Option Text)
    (behind : List (Placed Xml.Node)) (content : List (Tree Xml.Node)) : List (Tree Node) :=
  let leaf (remark : Placed Xml.Node) : Tree Xml.Node := .node remark.value []
  declarationNodes t ++ copiedAll Node.ofXml? .document (before.map leaf) ++
    (doctype.toList.map fun body => .node (.doctype body) []) ++
    copiedAll Node.ofXml? .document (behind.map leaf ++ content)

/-- The top level of a document as the source has it: the document type, if there is one, stands
between the comments and instructions in front of it and those that come later. -/
def sourceNodes (t : Text) (source : Source) : List (Tree Node) :=
  match source.doctype with
  | none => topLevel t source.remarks none [] source.content
  | some doctype =>
    topLevel t (source.remarks.filter (·.place < doctype.place))
      (some (Text.trim Text.isBlank doctype.value.body))
      (source.remarks.filter (doctype.place < ·.place)) source.content

end Document

variable {n m : Nest} {s t body : Text} {source : Source}

/-! ## The search for the end -/

theorem Nest.after?_append (n : Nest) (s t : Text) :
    n.after? (s ++ t) = (n.after? s).bind (·.after? t) := by
  induction s generalizing n with
  | nil => rfl
  | cons c s ih =>
    rw [List.cons_append, after?, after?]
    split
    · rfl
    · exact ih (n.next c)

theorem doctypeBody?_cons (n : Nest) (c : Char) (t : Text) :
    doctypeBody? n.depth n.quote (c :: t) =
      if n = .outside ∧ c = '>' then some []
      else (doctypeBody? (n.next c).depth (n.next c).quote t).map (c :: ·) := by
  obtain ⟨depth, quote⟩ := n
  cases quote with
  | some q =>
    rw [if_neg (by simp [Nest.outside]), doctypeBody?]
    rfl
  | none =>
    rw [doctypeBody?]
    dsimp only [Nest.next, Nest.outside]
    repeat' split
    all_goals first | rfl | simp_all

/-- A body is found if a closing bracket follows it and the search goes on through it. -/
theorem doctypeBody?_eq_some_iff :
    doctypeBody? n.depth n.quote t = some body ↔
      ∃ rest, t = body ++ '>' :: rest ∧ n.after? body = some .outside := by
  induction t generalizing n body with
  | nil =>
    simp [doctypeBody?]
  | cons c t ih =>
    rw [doctypeBody?_cons]
    by_cases hend : n = .outside ∧ c = '>'
    · obtain ⟨rfl, rfl⟩ := hend
      rw [if_pos ⟨rfl, rfl⟩, Option.some.injEq]
      constructor
      · rintro rfl
        exact ⟨t, rfl, rfl⟩
      · rintro ⟨rest, hsplit, hafter⟩
        cases body with
        | nil => rfl
        | cons d body =>
          obtain rfl : '>' = d := (List.cons.inj hsplit).1
          cases hafter
    · rw [if_neg hend, Option.map_eq_some_iff]
      constructor
      · rintro ⟨found, hfound, rfl⟩
        obtain ⟨rest, rfl, hafter⟩ := ih.1 hfound
        exact ⟨rest, rfl, by rw [Nest.after?, if_neg hend, hafter]⟩
      · rintro ⟨rest, hsplit, hafter⟩
        cases body with
        | nil =>
          obtain rfl := (List.cons.inj hsplit).1
          exact absurd ⟨Option.some.inj hafter, rfl⟩ hend
        | cons d body =>
          obtain ⟨rfl, rfl⟩ := List.cons.inj hsplit
          rw [Nest.after?, if_neg hend] at hafter
          exact ⟨body, ih.2 ⟨rest, rfl, hafter⟩, rfl⟩

/-- Trimmed, a part of a text up to a closing bracket is told apart from any other. -/
theorem eq_of_trim_eq {body' rest rest' : Text} (h : body ++ '>' :: rest = body' ++ '>' :: rest')
    (htrim : Text.trim Text.isBlank body = Text.trim Text.isBlank body') : body = body' := by
  have hblank : Text.isBlank '>' = false := by decide
  have hcount : body.count '>' = body'.count '>' := by
    rw [← Text.count_withoutBlanks hblank body, ← Text.withoutBlanks_trim, htrim,
      Text.withoutBlanks_trim, Text.count_withoutBlanks hblank]
  rcases List.append_eq_append_iff.1 h with ⟨a, rfl, ha⟩ | ⟨a, rfl, ha⟩
  · cases a with
    | nil => rw [List.append_nil]
    | cons c a =>
      obtain rfl := (List.cons.inj ha).1
      simp at hcount
  · cases a with
    | nil => rw [List.append_nil]
    | cons c a =>
      obtain rfl := (List.cons.inj ha).1
      simp at hcount

/-! ## Bodies that are found -/

theorem Nest.next_of_not_mem {c : Char} (hc : c ∉ guardedMarks) (depth : Nat) :
    next ⟨depth, none⟩ c = ⟨depth, none⟩ := by
  simp only [guardedMarks, List.mem_cons, not_or] at hc
  simp [next, hc]

/-- In a quoted literal, the search stays inside until the quote comes again. -/
theorem Nest.after?_literal {q : Char} {value : Text} (hvalue : q ∉ value) (depth : Nat) :
    after? ⟨depth, some q⟩ (value ++ [q]) = some ⟨depth, none⟩ := by
  induction value with
  | nil => simp [after?, next, outside]
  | cons c value ih =>
    rw [List.mem_cons, not_or] at hvalue
    have hnext : next ⟨depth, some q⟩ c = ⟨depth, some q⟩ := by
      simp [next, Ne.symm hvalue.1]
    rw [List.cons_append, after?, if_neg (by simp [outside]), hnext]
    exact ih hvalue.2

theorem Nest.after?_guarded (h : Guarded t) (depth : Nat) :
    after? ⟨depth, none⟩ t = some ⟨depth, none⟩ := by
  induction h with
  | nil => rfl
  | @plain c t hc ht ih =>
    have hend : c ≠ '>' := by
      rintro rfl
      exact hc (by decide)
    rw [after?, if_neg (fun h => hend h.2), next_of_not_mem hc, ih]
  | @literal q value t hq hvalue ht ih =>
    have hend : q ≠ '>' := by rcases hq with rfl | rfl <;> decide
    have hopen : next ⟨depth, none⟩ q = ⟨depth, some q⟩ := by
      rw [next, if_pos hq]
    rw [after?, if_neg (fun h => hend h.2), hopen, ← List.singleton_append, ← List.append_assoc,
      after?_append, after?_literal hvalue, Option.bind_some, ih]

theorem Nest.after?_entitySubset (h : EntitySubset t) (depth : Nat) :
    after? ⟨depth + 1, none⟩ t = some ⟨depth, none⟩ := by
  have hinside : ⟨depth + 1, none⟩ ≠ outside := by simp [outside]
  induction h with
  | close hs =>
    rw [after?, if_neg (fun h => hinside h.1)]
    exact after?_guarded (guarded_of_spaces hs) depth
  | @space c t hc ht ih =>
    have hguarded := after?_guarded (guarded_of_spaces (List.forall_mem_singleton.2 hc)) (depth + 1)
    rw [← List.singleton_append, after?_append, hguarded]
    exact ih
  | @entity e t he ht ih =>
    have hmark : Guarded "<!ENTITY".toList := guarded_of_forall (Text.forall_mem_of_all (by decide))
    rw [after?_append, after?_guarded hmark, Option.bind_some, after?_append, after?_guarded he,
      Option.bind_some, after?, if_neg (fun h => hinside h.1)]
    exact ih

theorem leveled_of_entities {head tail : Text} (hhead : Guarded head) (htail : SubsetOrNone tail)
    (hother : ∀ mark ∈ otherMarks, ¬mark <:+: head ++ tail) : Leveled (head ++ tail) := by
  rw [Leveled, Nest.after?_append]
  have hfront : Nest.outside.after? head = some .outside := Nest.after?_guarded hhead 0
  rw [hfront, Option.bind_some]
  rcases htail with rfl | ⟨inner, rfl, hinner⟩
  · rfl
  · refine Nest.after?_entitySubset (hinner fun mark hmark hwithin => hother mark hmark ?_) 0
    exact hwithin.trans ⟨head ++ ['['], [], by simp⟩

/-! ## Documents -/

namespace Document

theorem findDoctype?_append (hs : ¬"<!DOCTYPE".toList <:+: s) (t : Text) :
    findDoctype? (s ++ ("<!DOCTYPE".toList ++ t)) =
      (doctypeBody? 0 none t).map fun body => ⟨s.length, Text.trim Text.isBlank body⟩ := by
  have hbreak := Text.breakAt?_append_of_not_infix t (by decide) (by decide) hs
  simp only [findDoctype?, hbreak, Option.bind_eq_bind, Option.bind_some]
  cases doctypeBody? 0 none t <;> rfl

theorem splitAt_of_place {before behind : List (Placed Xml.Node)} {place : Nat}
    (hbefore : ∀ remark ∈ before, remark.place < place)
    (hbehind : ∀ remark ∈ behind, place < remark.place) :
    splitAt (some place) (before ++ behind) = (before, behind) := by
  have hall : ∀ remark ∈ before, decide (remark.place ≤ place) = true :=
    fun remark hremark => decide_eq_true (Nat.le_of_lt (hbefore remark hremark))
  rw [splitAt, List.span_eq_takeWhile_dropWhile, List.takeWhile_append_of_pos hall,
    List.dropWhile_append_of_pos hall]
  cases behind with
  | nil => simp
  | cons remark behind => simp [Nat.not_le.2 (hbehind remark List.mem_cons_self)]

theorem filter_place_append {before behind : List (Placed Xml.Node)} {place : Nat}
    (hbefore : ∀ remark ∈ before, remark.place < place)
    (hbehind : ∀ remark ∈ behind, place < remark.place) :
    (before ++ behind).filter (·.place < place) = before ∧
      (before ++ behind).filter (place < ·.place) = behind := by
  rw [List.filter_append, List.filter_append]
  constructor
  · have hnil : behind.filter (·.place < place) = [] := by
      rw [List.filter_eq_nil_iff]
      intro remark hremark
      simpa using Nat.le_of_lt (hbehind remark hremark)
    rw [hnil, List.filter_eq_self.2 (by simpa using hbefore), List.append_nil]
  · have hnil : before.filter (place < ·.place) = [] := by
      rw [List.filter_eq_nil_iff]
      intro remark hremark
      simpa using Nat.le_of_lt (hbefore remark hremark)
    rw [hnil, List.filter_eq_self.2 (by simpa using hbehind), List.nil_append]

theorem exists_topLevel (h : Source.parse? t = some source) :
    ∃ d, ofXml? t = some d ∧ d.flavor = .xml ∧ d.tree.map Prod.snd = .node .document
      (topLevel t
        (splitAt ((findDoctype? source.prolog).map Placed.place) source.remarks).1
        ((findDoctype? source.prolog).map Placed.value)
        (splitAt ((findDoctype? source.prolog).map Placed.place) source.remarks).2
        source.content) := by
  obtain ⟨d, hd, hflavor, htree⟩ := ofXml?_of_parse? h
  refine ⟨d, hd, hflavor, htree.trans ?_⟩
  have hleaves (remarks : List (Placed Xml.Node)) :
      copiedAll Node.ofXml? .document (remarks.map fun remark => .node remark.value []) =
        (remarks.flatMap fun remark => (Node.ofXml? .document remark.value).toList).map
          (Tree.node · []) := by
    have hvalues := copiedAll_leaves (remarks.map Placed.value)
    rw [List.map_map, List.flatMap_map] at hvalues
    exact hvalues
  rw [topNodes, topLevel, behindDoctype, hleaves, declarationNodes]
  cases xmlDeclaration? t <;> cases findDoctype? source.prolog <;> simp

theorem topLevel_inj {before behind : List (Placed Xml.Node)} {doctype doctype' : Option Text}
    {content : List (Tree Xml.Node)} :
    topLevel t before doctype behind content = topLevel t before doctype' behind content ↔
      doctype = doctype' := by
  refine ⟨fun h => ?_, fun h => by rw [h]⟩
  have hsame := List.append_cancel_left (List.append_cancel_right h)
  cases doctype with
  | none =>
    cases doctype' with
    | none => rfl
    | some body => cases hsame
  | some body =>
    cases doctype' with
    | none => cases hsame
    | some body' => simpa using hsame

theorem topLevel_none_ne (before behind : List (Placed Xml.Node)) (body : Text)
    (content : List (Tree Xml.Node)) :
    topLevel t (before ++ behind) none [] content ≠
      topLevel t before (some body) behind content := by
  intro h
  have hlength := congrArg List.length h
  simp only [topLevel, List.map_append, List.map_nil, List.nil_append, copiedAll_append,
    List.length_append, Option.toList_none, Option.toList_some, List.map_cons, List.length_cons,
    List.length_nil] at hlength
  omega

/-- The top level of a document is that of its source, if the mark of a document type stands in the
prolog only where a document type opens, exactly where the body of the document type is leveled; and
it is leveled where nothing but entities is declared in it. -/
theorem ofXml?_iff_leveled (h : Source.parse? t = some source)
    (hfront : ¬"<!DOCTYPE".toList <:+: source.front) :
    ∃ d, ofXml? t = some d ∧ d.flavor = .xml ∧
      (d.tree.map Prod.snd = .node .document (sourceNodes t source) ↔
        ∀ doctype, source.doctype = some doctype → Leveled doctype.value.body) ∧
      ∀ doctype, source.doctype = some doctype →
        (∀ mark ∈ otherMarks, ¬mark <:+: doctype.value.body) → Leveled doctype.value.body := by
  obtain ⟨d, hd, hflavor, htree⟩ := exists_topLevel h
  refine ⟨d, hd, hflavor, ?_, ?_⟩
  · rw [htree, Tree.node.injEq, and_iff_right rfl, sourceNodes]
    cases hdoctype : source.doctype with
    | none =>
      have hprolog : source.front = source.prolog := by rw [Source.front, hdoctype]
      have hnone : findDoctype? source.prolog = none := by
        rw [findDoctype?, Text.breakAt?_eq_none_iff.2 (hprolog ▸ hfront)]
        rfl
      simp [hnone, splitAt]
    | some doctype =>
      obtain ⟨⟨rest, hprolog⟩, hplace, ⟨before, behind, hremarks, hbefore, hbehind⟩, -⟩ :=
        Source.exists_prolog h hdoctype
      have hfound := findDoctype?_append hfront (doctype.value.body ++ '>' :: rest)
      rw [← hprolog, hplace] at hfound
      have hleveled : Leveled doctype.value.body ↔
          doctypeBody? 0 none (doctype.value.body ++ '>' :: rest) = some doctype.value.body :=
        ⟨fun hafter => doctypeBody?_eq_some_iff (n := .outside).2 ⟨rest, rfl, hafter⟩, fun hbody =>
          (doctypeBody?_eq_some_iff (n := .outside).1 hbody).elim fun _ hafter => hafter.2⟩
      simp only [Option.some.injEq, forall_eq']
      rw [hleveled, hfound, hremarks, (filter_place_append hbefore hbehind).1,
        (filter_place_append hbefore hbehind).2]
      cases hbody : doctypeBody? 0 none (doctype.value.body ++ '>' :: rest) with
      | none => exact iff_of_false (topLevel_none_ne before behind _ _) (by simp)
      | some body =>
        obtain ⟨rest', hsplit, -⟩ := doctypeBody?_eq_some_iff (n := .outside).1 hbody
        simp only [Option.map_some]
        rw [splitAt_of_place hbefore hbehind, topLevel_inj, Option.some.injEq, Option.some.injEq]
        exact ⟨fun htrim => (eq_of_trim_eq hsplit htrim.symm).symm, fun hsame => by rw [hsame]⟩
  · intro doctype hdoctype hother
    obtain ⟨-, -, -, head, tail, hbody, hhead, htail⟩ := Source.exists_prolog h hdoctype
    rw [hbody] at hother ⊢
    exact leveled_of_entities hhead htail hother

/-! ## Samples -/

def emptyRoot : List (Tree Xml.Node) := [.node (.element ⟨none, ['r']⟩ [] []) []]

def placedBody (doctype : Placed Doctype) : Nat × Text := (doctype.place, doctype.value.body)

theorem exists_parse?_of_emptyRoot {u t₁ : Text} {before behind : List (Placed Xml.Node)}
    {body : Option (Nat × Text)} (hbody : Source.body? t = some u)
    (hbefore : remarks? t.length u = some (before, t₁))
    (hpart : (Source.doctypePart? t.length t₁).map
      (fun found => (found.1.map placedBody, found.2)) = some (body, behind, "<r/>".toList)) :
    ∃ doctype : Option (Placed Doctype), doctype.map placedBody = body ∧
      Source.parse? t = some ⟨t.take (t.length - 4), before ++ behind, doctype, emptyRoot⟩ := by
  obtain ⟨⟨doctype, found⟩, hpart, hmap⟩ := Option.map_eq_some_iff.1 hpart
  obtain ⟨hdoctype, rfl⟩ := Prod.mk.inj hmap
  refine ⟨doctype, hdoctype, ?_⟩
  have helement : element? "<r/>".toList = some ([.startTag ⟨[], ['r']⟩ [] .empty], []) := by
    decide +kernel
  have hbuild (entities : Entities) : build entities nestingLimit true
      [.startTag ⟨[], ['r']⟩ [] .empty] .start = some ⟨[], emptyRoot, [], false, 0⟩ := by
    rw [build]
    change build entities nestingLimit true [] ⟨[], emptyRoot, [], false, 0⟩ = _
    rw [build]
  rw [Source.parse?_eq, hbody]
  simp only [Option.bind_some, hbefore, hpart, helement, hbuild,
    remarks?_of_startsRemark_eq_false (t := []) rfl]
  rfl

def sampleProlog : Text := "<!--a--><!DOCTYPE r [<!ENTITY c ']>'>]><?b?><r/>".toList

theorem ofXml?_iff_leveled_sampleProlog :
    ∃ (source : Source) (doctype : Placed Doctype) (d : Document),
      Source.parse? sampleProlog = some source ∧ source.doctype = some doctype ∧
        ¬"<!DOCTYPE".toList <:+: source.front ∧ ofXml? sampleProlog = some d ∧
        sourceNodes sampleProlog source = [.node (.comment ['a']) [],
          .node (.doctype "r [<!ENTITY c ']>'>]".toList) [], .node (.instruction ['b'] []) [],
          .node (.element ⟨['r'], []⟩) []] ∧
        d.tree.map Prod.snd = .node .document (sourceNodes sampleProlog source) := by
  have hbefore : remarks? sampleProlog.length sampleProlog = some ([⟨0, .comment ['a']⟩],
      "<!DOCTYPE r [<!ENTITY c ']>'>]><?b?><r/>".toList) := by decide +kernel
  have hpart : (Source.doctypePart? sampleProlog.length
      "<!DOCTYPE r [<!ENTITY c ']>'>]><?b?><r/>".toList).map
        (fun found => (found.1.map placedBody, found.2)) =
      some (some (8, " r [<!ENTITY c ']>'>]".toList), [⟨39, .instruction ['b'] []⟩],
        "<r/>".toList) := by decide +kernel
  obtain ⟨doctype, hdoctype, hparse⟩ := exists_parse?_of_emptyRoot rfl hbefore hpart
  obtain ⟨⟨place, doctype⟩, rfl, hplace⟩ := Option.map_eq_some_iff.1 hdoctype
  obtain ⟨rfl, hbody⟩ := Prod.mk.inj hplace
  dsimp only at hbody
  have hfront : ¬"<!DOCTYPE".toList <:+: "<!--a-->".toList := by
    rw [← Text.breakAt?_eq_none_iff]
    decide
  obtain ⟨d, hd, -, hiff, -⟩ := ofXml?_iff_leveled hparse hfront
  refine ⟨_, _, d, hparse, rfl, hfront, hd, ?_, hiff.2 fun doctype h => ?_⟩
  · rw [sourceNodes]
    dsimp only
    rw [hbody]
    rfl
  · obtain rfl := Option.some.inj h
    dsimp only
    rw [hbody]
    decide

/-- A mark in a comment is taken for a document type, and where there is an apostrophe in a comment
of the subset, the document type is not found. -/
theorem doctype_mistaken :
    (∃ (source : Source) (d : Document),
      Source.parse? "<!--<!DOCTYPE b>--><r/>".toList = some source ∧ source.doctype = none ∧
        ofXml? "<!--<!DOCTYPE b>--><r/>".toList = some d ∧
        d.tree.map Prod.snd = .node .document [.node (.comment "<!DOCTYPE b>".toList) [],
          .node (.doctype ['b']) [], .node (.element ⟨['r'], []⟩) []]) ∧
      ∃ (source : Source) (d : Document),
        Source.parse? "<!DOCTYPE r [<!--'-->]><r/>".toList = some source ∧
          source.doctype.isSome = true ∧ ofXml? "<!DOCTYPE r [<!--'-->]><r/>".toList = some d ∧
          d.tree.map Prod.snd = .node .document [.node (.comment ['\'']) [],
            .node (.element ⟨['r'], []⟩) []] := by
  constructor
  · have hbefore : remarks? 23 "<!--<!DOCTYPE b>--><r/>".toList =
        some ([⟨0, .comment "<!DOCTYPE b>".toList⟩], "<r/>".toList) := by decide +kernel
    have hpart : (Source.doctypePart? 23 "<r/>".toList).map
        (fun found => (found.1.map placedBody, found.2)) = some (none, [], "<r/>".toList) := by
      decide +kernel
    obtain ⟨doctype, hdoctype, hparse⟩ := exists_parse?_of_emptyRoot
      (t := "<!--<!DOCTYPE b>--><r/>".toList) rfl hbefore hpart
    obtain rfl := Option.map_eq_none_iff.1 hdoctype
    obtain ⟨d, hd, -, htree⟩ := exists_topLevel hparse
    exact ⟨_, d, hparse, rfl, hd, htree.trans rfl⟩
  · have hbefore : remarks? 27 "<!DOCTYPE r [<!--'-->]><r/>".toList =
        some ([], "<!DOCTYPE r [<!--'-->]><r/>".toList) := by decide +kernel
    have hpart : (Source.doctypePart? 27 "<!DOCTYPE r [<!--'-->]><r/>".toList).map
        (fun found => (found.1.map placedBody, found.2)) =
        some (some (0, " r [<!--'-->]".toList), [⟨13, .comment ['\'']⟩], "<r/>".toList) := by
      decide +kernel
    obtain ⟨doctype, hdoctype, hparse⟩ := exists_parse?_of_emptyRoot
      (t := "<!DOCTYPE r [<!--'-->]><r/>".toList) rfl hbefore hpart
    obtain ⟨d, hd, -, htree⟩ := exists_topLevel hparse
    refine ⟨_, d, hparse, ?_, hd, htree.trans rfl⟩
    rw [← Option.isSome_map, hdoctype]
    rfl

end Document

end Markup

end PrettyPayload
