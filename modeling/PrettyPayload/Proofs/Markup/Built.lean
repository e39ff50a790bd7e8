import PrettyPayload.Proofs.Markup.Tokens

/-!
# Trees built from written content

The builder makes of the tokens of written trees the same trees again, but for their texts: those
that stood side by side are one text, and empty ones are gone.
-/

namespace PrettyPayload

open PrettyPayload.Tree

/-! ## Adding nodes -/

namespace Xml

namespace Builder

variable {b : Builder}

/-- The children found so far at the current place, latest first. -/
def children (b : Builder) : List (Tree Node) :=
  match b.opened with
  | [] => b.outside
  | e :: _ => e.children

def addAll (ts : List (Tree Node)) (b : Builder) : Builder := b.mapChildren (ts.reverse ++ ·)

/-- No namespace is bound and no tag is unfinished. -/
structure Steady (b : Builder) : Prop where
  scope : b.scope = []
  pending : b.pending = []
  textEnded : b.textEnded = false

/-- Besides, a text would be a node of its own. -/
structure Ready (b : Builder) : Prop extends Steady b where
  children : ∀ t, b.children.head? = some t → t.value.isText = false

theorem addAll_nil (b : Builder) : b.addAll [] = b := by
  obtain ⟨opened, outside, pending, textEnded, followed⟩ := b
  cases opened <;> rfl

theorem addAll_append (ts us : List (Tree Node)) (b : Builder) :
    b.addAll (ts ++ us) = (b.addAll ts).addAll us := by
  obtain ⟨opened, outside, pending, textEnded, followed⟩ := b
  cases opened <;> simp [addAll, mapChildren]

theorem children_addAll (ts : List (Tree Node)) (b : Builder) :
    (b.addAll ts).children = ts.reverse ++ b.children := by
  obtain ⟨opened, outside, pending, textEnded, followed⟩ := b
  cases opened <;> rfl

theorem steady_addAll (ts : List (Tree Node)) (h : b.Steady) : (b.addAll ts).Steady := by
  obtain ⟨opened, outside, pending, textEnded, followed⟩ := b
  cases opened with
  | nil => exact ⟨rfl, h.pending, h.textEnded⟩
  | cons e opened => exact ⟨h.scope, h.pending, h.textEnded⟩

theorem ready_addAll {t : Tree Node} (h : b.Steady) (ht : t.value.isText = false) :
    (b.addAll [t]).Ready := by
  refine ⟨steady_addAll [t] h, ?_⟩
  rw [children_addAll]
  intro u hu
  exact Option.some.inj hu ▸ ht

/-- Characters at a place without a text before it are a text of their own. -/
theorem addText_of_ready (h : b.Ready) (t : Text) :
    b.addText t = b.addAll [.node (.text t) []] := by
  have hchildren := h.children
  have htextEnded := h.textEnded
  obtain ⟨opened, outside, pending, textEnded, followed⟩ := b
  obtain rfl : textEnded = false := htextEnded
  cases opened with
  | nil =>
    simp only [addText, addAll, mapChildren]
    split
    next s rest => cases hchildren _ rfl
    next => rfl
  | cons e opened =>
    obtain ⟨written, name, attributes, scope, found⟩ := e
    simp only [addText, addAll, mapChildren]
    split
    next s rest => cases hchildren _ rfl
    next => rfl

end Builder

end Xml

/-! ## Joined texts -/

namespace Markup

open Xml

def textNodes (pending : Text) : List (Tree Node) :=
  match settled pending with
  | [] => []
  | t => [.node (.text t) []]

mutual

def merge : Tree Node → Tree Node
  | .node v ts => .node v (mergeAfter [] ts)

/-- Several trees behind pending characters, with the texts beside each other joined. -/
def mergeAfter (pending : Text) : List (Tree Node) → List (Tree Node)
  | [] => textNodes pending
  | t :: ts =>
    match t.value with
    | .text s => mergeAfter (pending ++ s) ts
    | _ => textNodes pending ++ merge t :: mergeAfter [] ts

end

theorem mergeAfter_of_isText_eq_false {t : Tree Node} {ts : List (Tree Node)} {pending : Text}
    (h : t.value.isText = false) :
    mergeAfter pending (t :: ts) = textNodes pending ++ merge t :: mergeAfter [] ts := by
  rw [mergeAfter]
  split
  next hv =>
    rw [hv] at h
    cases h
  next => rfl

variable {b : Builder} {e : Element} {more : List Token}

/-! ## Steps -/

theorem build_flush (h : b.Ready) (pending : Text) :
    build [] nestingLimit true (flush pending ++ more) b =
      build [] nestingLimit true more (b.addAll (mapAll Node.toXml (textNodes pending))) := by
  unfold flush textNodes
  cases settled pending with
  | nil => exact congrArg (build [] nestingLimit true more) (Builder.addAll_nil b).symm
  | cons c t =>
    rw [List.singleton_append, build, Builder.addText_of_ready h]
    rfl

theorem mapM_map_eq_some {α β γ : Type} {f : β → Option γ} {g : α → γ} {k : α → β} {xs : List α}
    (h : ∀ x ∈ xs, f (k x) = some (g x)) : (xs.map k).mapM f = some (xs.map g) := by
  induction xs with
  | nil => rfl
  | cons x xs ih =>
    rw [List.forall_mem_cons] at h
    rw [List.map_cons, List.mapM_cons, h.1, ih h.2]
    rfl

theorem declared?_of_ordinary {own : Scope} {attributes : List (Name × Text)}
    (h : ∀ a ∈ attributes, a.1.isDeclaration = false) : declared? own attributes = some own := by
  induction attributes with
  | nil => rfl
  | cons a attributes ih =>
    obtain ⟨name, v⟩ := a
    rw [List.forall_mem_cons] at h
    simp only [Name.isDeclaration, Bool.or_eq_false_iff, decide_eq_false_iff_not] at h
    rw [declared?, if_neg h.1.1, if_neg h.1.2]
    exact ih (by simpa [Name.isDeclaration] using h.2)

theorem ofWritten_of_isAttributeName {written : Text} (h : IsAttributeName written) :
    (Name.ofWritten written).isDeclaration = false ∧
      Scope.attributeSpace? [] (Name.ofWritten written).qualifier =
        some (expandedName written).space ∧
      (Name.ofWritten written).localName = (expandedName written).localName := by
  obtain ⟨l, hl, hxmlns, rfl | rfl⟩ := h
  · have hdrop : Text.dropPrefix? "xml:".toList written = none := by
      rw [Text.dropPrefix?_eq_none_iff]
      rintro ⟨u, rfl⟩
      exact not_mem_of_isName hl (List.mem_append_left u (by decide))
    rw [ofWritten_of_isName hl, expandedName, hdrop]
    refine ⟨?_, rfl, rfl⟩
    simp only [Name.isDeclaration, hxmlns, decide_false, Bool.or_false]
    rfl
  · rw [ofWritten_xml_append, expandedName, Text.dropPrefix?_append]
    refine ⟨?_, rfl, rfl⟩
    simp only [Name.isDeclaration, hxmlns, decide_false, Bool.or_false]
    rfl

theorem resolve?_of_writable (h : (Node.element e).Writable) (hb : b.scope = []) :
    b.resolve? (e.attributes.map fun a => (Name.ofWritten a.1, a.2)) =
      some ([], e.attributes.map fun a => (expandedName a.1, a.2)) := by
  obtain ⟨-, hattributes, hnodup⟩ := h
  have hordinary : ∀ a ∈ e.attributes.map (fun a => (Name.ofWritten a.1, a.2)),
      a.1.isDeclaration = false := by
    rw [List.forall_mem_map]
    exact fun a ha => (ofWritten_of_isAttributeName (hattributes a ha).1).1
  have hfilter : (e.attributes.map (fun a => (Name.ofWritten a.1, a.2))).filter
      (fun a => !a.1.isDeclaration) = e.attributes.map (fun a => (Name.ofWritten a.1, a.2)) :=
    List.filter_eq_self.2 fun a ha => by rw [hordinary a ha]; rfl
  have hresolved : resolved? [] (e.attributes.map fun a => (Name.ofWritten a.1, a.2)) =
      some (e.attributes.map fun a => (expandedName a.1, a.2)) := by
    rw [resolved?]
    dsimp only
    rw [hfilter, mapM_map_eq_some (g := fun a => (expandedName a.1, a.2))]
    · rw [Option.bind_eq_bind, Option.bind_some, List.map_map]
      exact if_pos hnodup
    · intro a ha
      obtain ⟨-, hspace, hlocal⟩ := ofWritten_of_isAttributeName (hattributes a ha).1
      simp only [hspace, hlocal]
      rfl
  rw [Builder.resolve?, declared?_of_ordinary hordinary, hb]
  simp only [Option.bind_eq_bind, Option.bind_some, Scope.extend, hresolved]
  rfl

theorem expandAttributes_readAttributes (e : Element) (followed : Nat) :
    expandAttributes [] nestingLimit followed e.readAttributes =
      some (e.attributes.map (fun a => (Name.ofWritten a.1, a.2)), followed) := by
  have hsplit : e.readAttributes =
      (e.attributes.map fun a => (Name.ofWritten a.1, a.2)).map
        fun a => (a.1, escapeAttribute .xml a.2) := by
    rw [List.map_map]
    rfl
  rw [hsplit, expandAttributes_escapeAttribute]

def Element.opened (e : Element) (children : List (Tree Xml.Node)) : OpenElement :=
  ⟨e.readName, ⟨none, e.name⟩, e.attributes.map fun a => (expandedName a.1, a.2), [], children⟩

theorem lookup?_readName (h : (Node.element e).Writable) :
    Scope.lookup? [] e.readName.qualifier = some none ∧ e.readName.localName = e.name := by
  rw [Element.readName, ofWritten_of_isName h.1]
  exact ⟨rfl, rfl⟩

theorem build_of_startTag? {name : Name} {written attributes : List (Name × Text)}
    {tagEnd : TagEnd} {seen : Bool} {next : Builder}
    (hexpand : expandAttributes [] nestingLimit b.followed written =
      some (attributes, b.followed))
    (h : b.startTag? name attributes tagEnd = some next) :
    build [] nestingLimit seen (.startTag name written tagEnd :: more) b =
      build [] nestingLimit true more next := by
  rw [build, hexpand]
  change (b.startTag? name attributes tagEnd).bind _ = _
  rw [h]
  rfl

theorem build_of_endTag? {name : Name} {next : Builder} (h : b.endTag? name = some next) :
    build [] nestingLimit true (.endTag name :: more) b = build [] nestingLimit true more next := by
  rw [build, if_pos rfl, h]
  rfl

theorem build_startTag_content (h : (Node.element e).Writable) (hb : b.Steady) :
    build [] nestingLimit true (.startTag e.readName e.readAttributes .content :: more) b =
      build [] nestingLimit true more { b with opened := e.opened [] :: b.opened } := by
  have hresolve := resolve?_of_writable h hb.scope
  have hpending := hb.pending
  obtain ⟨hlookup, hlocal⟩ := lookup?_readName h
  obtain ⟨opened, outside, pending, textEnded, followed⟩ := b
  obtain rfl : pending = [] := hpending
  refine build_of_startTag? (expandAttributes_readAttributes e followed) ?_
  simp only [Option.bind_eq_bind, Option.bind_some, Builder.startTag?, List.nil_append, hresolve,
    hlookup, hlocal, reduceCtorEq, if_false, Option.pure_def]
  rfl

theorem build_startTag_empty (h : (Node.element e).Writable) (hb : b.Steady) :
    build [] nestingLimit true (.startTag e.readName e.readAttributes .empty :: more) b =
      build [] nestingLimit true more
        (b.addAll [.node (Node.toXml (.element e)) []]) := by
  have hresolve := resolve?_of_writable h hb.scope
  have hpending := hb.pending
  obtain ⟨hlookup, hlocal⟩ := lookup?_readName h
  obtain ⟨opened, outside, pending, textEnded, followed⟩ := b
  obtain rfl : pending = [] := hpending
  refine build_of_startTag? (expandAttributes_readAttributes e followed) ?_
  simp only [Option.bind_eq_bind, Option.bind_some, Builder.startTag?, List.nil_append, hresolve,
    hlookup, hlocal, if_true, Option.pure_def]
  rfl

theorem build_endTag (hb : b.pending = []) (children : List (Tree Xml.Node)) :
    build [] nestingLimit true (.endTag e.readName :: more)
        { b with opened := e.opened children :: b.opened } =
      build [] nestingLimit true more
        (b.addAll [.node (Node.toXml (.element e)) children.reverse]) := by
  obtain ⟨opened, outside, pending, textEnded, followed⟩ := b
  obtain rfl : pending = [] := hb
  refine build_of_endTag? ?_
  simp only [Builder.endTag?, Builder.resolve?, Element.opened, if_true]
  rfl

/-! ## Trees -/

mutual

theorem build_tokensOf (more : List Token) :
    (t : Tree Node) → t.Each WritableAt → t.value.isText = false → (b : Builder) → b.Steady →
      build [] nestingLimit true (tokensOf t ++ more) b =
        build [] nestingLimit true more (b.addAll [(merge t).map Node.toXml])
  | .node v ts, h, ht, b, hb => by
    cases v with
    | text t => cases ht
    | element e =>
      cases ts with
      | nil =>
        rw [tokensOf, List.isEmpty_nil, if_pos rfl, List.singleton_append,
          build_startTag_empty h.1.node hb]
        rfl
      | cons t ts =>
        have hopened : Builder.Ready { b with opened := e.opened [] :: b.opened } :=
          ⟨⟨rfl, hb.pending, hb.textEnded⟩, fun u hu => nomatch hu⟩
        rw [tokensOf, List.isEmpty_cons, if_neg Bool.false_ne_true, List.cons_append,
          List.append_assoc, build_startTag_content h.1.node hb,
          build_tokensAfter _ [] (t :: ts) h.2 _ hopened]
        have hchildren : Builder.addAll (mapAll Node.toXml (mergeAfter [] (t :: ts)))
            { b with opened := e.opened [] :: b.opened } =
            { b with
              opened :=
                e.opened (mapAll Node.toXml (mergeAfter [] (t :: ts))).reverse :: b.opened } := by
          simp [Builder.addAll, Builder.mapChildren, Element.opened]
        rw [hchildren, List.singleton_append, build_endTag hb.pending, List.reverse_reverse]
        rfl
    | comment t =>
      obtain rfl := h.1.leaf rfl
      rw [tokensOf, List.singleton_append, build]
      rfl
    | instruction target content =>
      obtain rfl := h.1.leaf rfl
      rw [tokensOf, List.singleton_append, build]
      rfl
    | document => exact absurd h.1.node id
    | doctype t => exact absurd h.1.node id
    | data t => exact absurd h.1.node id
    | css t => exact absurd h.1.node id

/-- The tokens of several trees build these trees behind the text that is pending. -/
theorem build_tokensAfter (more : List Token) (pending : Text) :
    (ts : List (Tree Node)) → EachOfAll WritableAt ts → (b : Builder) → b.Ready →
      build [] nestingLimit true (tokensAfter pending ts ++ more) b =
        build [] nestingLimit true more (b.addAll (mapAll Node.toXml (mergeAfter pending ts)))
  | [], _, b, hb => by rw [tokensAfter, build_flush hb, mergeAfter]
  | .node v us :: ts, h, b, hb => by
    cases hv : v.isText with
    | true =>
      obtain ⟨t, rfl⟩ := exists_of_isText hv
      exact build_tokensAfter more (pending ++ t) ts h.2 b hb
    | false =>
      have hsteady := Builder.steady_addAll (mapAll Node.toXml (textNodes pending)) hb.toSteady
      have hnext : ((merge (.node v us)).map Node.toXml).value.isText = false := by
        rw [value_map, isText_toXml]
        exact hv
      rw [tokensAfter_of_isText_eq_false (t := .node v us) hv,
        mergeAfter_of_isText_eq_false (t := .node v us) hv, List.append_assoc, List.append_assoc,
        build_flush hb, build_tokensOf _ (.node v us) h.1 hv _ hsteady,
        build_tokensAfter more [] ts h.2 _ (Builder.ready_addAll hsteady hnext),
        ← Builder.addAll_append, ← Builder.addAll_append]
      simp [mapAll_eq_map]

end

/-! ## Joined texts are writable -/

@[simp] theorem value_merge (t : Tree Node) : (merge t).value = t.value := by
  obtain ⟨v, ts⟩ := t
  rfl

theorem writableAt_textNodes {pending : Text} (h : ∀ c ∈ pending, isAllowed c = true) :
    EachOfAll WritableAt (textNodes pending) := by
  unfold textNodes
  split
  next => trivial
  next =>
    refine ⟨⟨⟨?_, fun _ => rfl⟩, trivial⟩, trivial⟩
    refine allowed_of_settle ?_
    intro a ha
    obtain ⟨c, hc, rfl⟩ := List.mem_map.1 ha
    exact h c hc

mutual

theorem writableAt_merge : (t : Tree Node) → t.Each WritableAt → (merge t).Each WritableAt
  | .node v ts, h => by
    refine ⟨⟨h.1.node, ?_⟩, writableAt_mergeAfter [] nofun ts h.2⟩
    intro hleaf
    rw [h.1.leaf hleaf]
    rfl

theorem writableAt_mergeAfter (pending : Text) (hpending : ∀ c ∈ pending, isAllowed c = true) :
    (ts : List (Tree Node)) → EachOfAll WritableAt ts →
      EachOfAll WritableAt (mergeAfter pending ts)
  | [], _ => writableAt_textNodes hpending
  | .node v us :: ts, h => by
    cases hv : v.isText with
    | true =>
      obtain ⟨t, rfl⟩ := exists_of_isText hv
      exact writableAt_mergeAfter (pending ++ t)
        (List.forall_mem_append.2 ⟨hpending, h.1.1.node⟩) ts h.2
    | false =>
      rw [mergeAfter_of_isText_eq_false (t := .node v us) hv]
      refine eachOfAll_iff.2 (List.forall_mem_append.2
        ⟨eachOfAll_iff.1 (writableAt_textNodes hpending), List.forall_mem_cons.2 ⟨?_, ?_⟩⟩)
      · exact writableAt_merge (.node v us) h.1
      · exact eachOfAll_iff.1 (writableAt_mergeAfter [] nofun ts h.2)

end

end Markup

end PrettyPayload
