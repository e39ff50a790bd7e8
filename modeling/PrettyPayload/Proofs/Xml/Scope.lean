import Mathlib.Data.List.Nodup
import PrettyPayload.Proofs.Xml.Sound

/-!
# Scopes of elements

The bindings that hold at an element are its own and those around it that it does not replace.
`ScopedIn` says of a tree that every element in it stands in such a scope, and that its names and
those of its attributes are known there; `scopedAll_of_parse?` says that the elements of every
document that is read do so, entities or not.

A scope may bind one qualifier twice, since the default namespace of a tag may be declared by
several attributes, and it may bind the qualifier of declarations. `Scope.Regular` excludes both.
-/

namespace PrettyPayload

namespace Xml

open PrettyPayload.Tree

/-! ## Definitions -/

/-- What a binding is made of: its qualifier is a name other than `xml`, whose namespace is bound to
no other. -/
structure Binding.Sound (b : Binding) : Prop where
  name : ∀ qualifier, b.qualifier = some qualifier →
    isName qualifier = true ∧ qualifier ≠ "xml".toList
  space : b.space ≠ xmlSpace

namespace Scope

def key (qualifier : Text) : Option Text := if qualifier = [] then none else some qualifier

def spaceOf? (scope : Scope) (qualifier : Text) : Option Text :=
  (scope.find? fun b => b.qualifier = key qualifier).map Binding.space

/-- A scope as the rules for namespaces allow it: no qualifier is bound twice, and the one that
marks declarations is not bound. -/
structure Regular (scope : Scope) : Prop where
  distinct : (scope.map Binding.qualifier).Nodup
  unreserved : ∀ b ∈ scope, b.qualifier ≠ some "xmlns".toList

def Sound (scope : Scope) : Prop := ∀ b ∈ scope, b.Sound

end Scope

/-- An attribute that is known in a scope and declares no namespace. -/
structure KnownAttribute (scope : Scope) (a : ExpandedName) : Prop where
  name : isName a.localName = true
  ordinary : a.localName ≠ "xmlns".toList
  known : ∃ qualifier, scope.attributeSpace? qualifier = some a.space

/-- An element whose scope extends the one around it, and whose names are known in its scope. -/
structure Scoped (outer : Scope) (name : ExpandedName) (attributes : List (ExpandedName × Text))
    (scope : Scope) : Prop where
  extension : ∃ own : Scope, scope = own.extend outer
  sound : scope.Sound
  localName : isName name.localName = true
  known : ∃ qualifier, scope.lookup? qualifier = some name.space
  nodup : (attributes.map Prod.fst).Nodup
  knownAttributes : ∀ a ∈ attributes, KnownAttribute scope a.1

mutual

/-- Every element of a tree stands in a scope that extends the one around it; only elements have
children. -/
def ScopedIn (outer : Scope) : Tree Node → Prop
  | .node (.element name attributes scope) ts =>
    Scoped outer name attributes scope ∧ ScopedAllIn scope ts
  | .node .document _ => False
  | .node _ ts => ts = []

def ScopedAllIn (outer : Scope) : List (Tree Node) → Prop
  | [] => True
  | t :: ts => ScopedIn outer t ∧ ScopedAllIn outer ts

end

def Token.Named : Token → Prop
  | .startTag name attributes _ =>
    isName name.localName = true ∧ ∀ a ∈ attributes, isName a.1.localName = true
  | _ => True

structure OpenElement.ScopedIn (outer : Scope) (e : OpenElement) : Prop where
  node : Scoped outer e.name e.attributes e.scope
  children : ScopedAllIn e.scope e.children

namespace Builder

/-- The bindings that hold inside some open elements, given innermost first. -/
def scopeWithin : List OpenElement → Scope
  | [] => []
  | e :: _ => e.scope

def OpenedScoped : List OpenElement → Prop
  | [] => True
  | e :: opened => e.ScopedIn (scopeWithin opened) ∧ OpenedScoped opened

/-- What has been read so far stands in its scopes. -/
structure Scoped (b : Builder) : Prop where
  opened : OpenedScoped b.opened
  outside : ScopedAllIn [] b.outside
  pending : ∀ a ∈ b.pending, isName a.1.localName = true

end Builder

theorem scopedAllIn_iff {outer : Scope} {ts : List (Tree Node)} :
    ScopedAllIn outer ts ↔ ∀ t ∈ ts, ScopedIn outer t := by
  induction ts with
  | nil => simp [ScopedAllIn]
  | cons t ts ih => rw [ScopedAllIn, ih, List.forall_mem_cons]

theorem scopedIn_of_isRemark {outer : Scope} {v : Node} (h : v.isRemark = true) :
    ScopedIn outer (.node v []) := by
  cases v with
  | comment => rfl
  | instruction => rfl
  | _ => cases h

/-! ## Scopes -/

namespace Scope

theorem lookup?_eq (scope : Scope) (qualifier : Text) :
    scope.lookup? qualifier =
      ((scope.spaceOf? qualifier).map some).or
        (if qualifier = [] then some none else none) := by
  unfold lookup? spaceOf?
  dsimp only
  rw [← key]
  cases scope.find? fun b => b.qualifier = key qualifier <;> rfl

/-- What `extend` adds to the bindings of an element: those around it, as far as their qualifiers
are still free. -/
theorem mem_foldl_extend {own inherited : Scope} {b : Binding}
    (h : b ∈ inherited.foldl
      (fun scope b => if scope.binds b.qualifier then scope else scope ++ [b]) own) :
    b ∈ own ∨ b ∈ inherited := by
  induction inherited generalizing own with
  | nil => exact Or.inl h
  | cons c inherited ih =>
    rw [List.foldl_cons] at h
    rcases ih h with h | h
    · split at h
      next => exact Or.inl h
      next =>
        rcases List.mem_append.1 h with h | h
        · exact Or.inl h
        · exact Or.inr (List.mem_singleton.1 h ▸ List.mem_cons_self)
    · exact Or.inr (List.mem_cons_of_mem c h)

theorem mem_extend {own inherited : Scope} {b : Binding} (h : b ∈ own.extend inherited) :
    b ∈ own ∨ b ∈ inherited := by
  unfold extend at h
  split at h
  next => exact Or.inr h
  next => exact mem_foldl_extend h

theorem binds_iff {scope : Scope} {qualifier : Option Text} :
    scope.binds qualifier = true ↔ ∃ b ∈ scope, b.qualifier = qualifier := by
  simp [binds]

theorem binds_foldl_extend {own inherited : Scope} {qualifier : Option Text}
    (h : own.binds qualifier = true ∨ inherited.binds qualifier = true) :
    Scope.binds (inherited.foldl
      (fun scope b => if scope.binds b.qualifier then scope else scope ++ [b]) own)
      qualifier = true := by
  induction inherited generalizing own with
  | nil =>
    rcases h with h | h
    · exact h
    · cases h
  | cons c inherited ih =>
    rw [List.foldl_cons]
    refine ih ?_
    simp only [binds_iff, List.mem_cons, exists_eq_or_imp] at h ⊢
    rcases h with ⟨b, hb, hq⟩ | hc | h
    · refine Or.inl ⟨b, ?_, hq⟩
      split
      next => exact hb
      next => exact List.mem_append_left _ hb
    · left
      split
      next hbinds =>
        obtain ⟨b, hb, hq⟩ := hbinds
        exact ⟨b, hb, hq.trans hc⟩
      next => exact ⟨c, List.mem_append_right _ (List.mem_singleton_self c), hc⟩
    · exact Or.inr h

/-- What is bound around an element is bound in it. -/
theorem binds_extend {own inherited : Scope} {qualifier : Option Text}
    (h : inherited.binds qualifier = true) : (own.extend inherited).binds qualifier = true := by
  unfold extend
  split
  next => exact h
  next => exact binds_foldl_extend (Or.inr h)

theorem Regular.eq_of_mem {scope : Scope} (h : scope.Regular) {b c : Binding} (hb : b ∈ scope)
    (hc : c ∈ scope) (heq : b.qualifier = c.qualifier) : b = c :=
  List.inj_on_of_nodup_map h.distinct hb hc heq

theorem Regular.find?_eq {scope : Scope} (h : scope.Regular) {b : Binding} (hb : b ∈ scope) :
    scope.find? (fun c => c.qualifier = b.qualifier) = some b := by
  cases hfind : scope.find? fun c => c.qualifier = b.qualifier with
  | none =>
    have := List.find?_eq_none.1 hfind b hb
    simp at this
  | some c =>
    have hc : c.qualifier = b.qualifier := by simpa using List.find?_some hfind
    rw [h.eq_of_mem (List.mem_of_find?_eq_some hfind) hb hc]

end Scope

/-! ## Attributes -/

theorem sound_of_declared? {own scope : Scope} {attributes : List (Name × Text)} (hown : own.Sound)
    (hnames : ∀ a ∈ attributes, isName a.1.localName = true)
    (h : declared? own attributes = some scope) : scope.Sound := by
  have hconcat : ∀ {own : Scope} {b : Binding}, own.Sound → b.Sound → Scope.Sound (own ++ [b]) :=
    fun hown hb => List.forall_mem_append.2 ⟨hown, List.forall_mem_singleton.2 hb⟩
  induction attributes generalizing own with
  | nil => exact Option.some.inj h ▸ hown
  | cons a attributes ih =>
    obtain ⟨name, value⟩ := a
    rw [List.forall_mem_cons] at hnames
    rw [declared?] at h
    split at h
    next =>
      split at h
      next => cases h
      next hallowed =>
        split at h
        next => exact ih hown hnames.2 h
        next hspace =>
          refine ih (hconcat hown ⟨?_, hspace⟩) hnames.2 h
          intro qualifier hqualifier
          obtain rfl := Option.some.inj hqualifier
          refine ⟨hnames.1, ?_⟩
          intro hxml
          exact hallowed (Or.inr (Or.inl (iff_of_true hxml hspace)))
    next =>
      split at h
      next =>
        split at h
        next => cases h
        next hallowed =>
          refine ih (hconcat hown ⟨?_, fun hspace => hallowed (Or.inr hspace)⟩) hnames.2 h
          intro qualifier hqualifier
          cases hqualifier
      next => exact ih hown hnames.2 h

theorem known_of_resolved? {scope : Scope} {attributes : List (Name × Text)}
    {resolved : List (ExpandedName × Text)}
    (hnames : ∀ a ∈ attributes, isName a.1.localName = true)
    (h : resolved? scope attributes = some resolved) :
    (∀ a ∈ resolved, KnownAttribute scope a.1) ∧ (resolved.map Prod.fst).Nodup := by
  simp only [resolved?, Option.bind_eq_bind, Option.bind_eq_some_iff] at h
  obtain ⟨found, hfound, h⟩ := h
  split at h
  next hnodup =>
    obtain rfl := Option.some.inj h
    refine ⟨?_, hnodup⟩
    intro a ha
    obtain ⟨⟨name, value⟩, hmem, hname⟩ := exists_of_mapM_eq_some hfound a ha
    obtain ⟨space, hspace, ha⟩ := Option.bind_eq_some_iff.1 hname
    obtain rfl := Option.some.inj ha
    obtain ⟨hin, hordinary⟩ := List.mem_filter.1 hmem
    simp only [Name.isDeclaration, Bool.not_eq_true', Bool.or_eq_false_iff,
      decide_eq_false_iff_not] at hordinary
    exact ⟨hnames _ hin, hordinary.2, ⟨name.qualifier, hspace⟩⟩
  next => cases h

theorem names_of_expandAttributes {entities : Entities} {levels followed followed' : Nat}
    {written attributes : List (Name × Text)}
    (h : expandAttributes entities levels followed written = some (attributes, followed')) :
    attributes.map Prod.fst = written.map Prod.fst := by
  induction written generalizing attributes followed followed' with
  | nil =>
    obtain ⟨rfl, -⟩ := Prod.mk.inj (Option.some.inj h)
    rfl
  | cons a written ih =>
    obtain ⟨name, value⟩ := a
    simp only [expandAttributes, Option.bind_eq_bind, Option.bind_eq_some_iff, Option.pure_def,
      Option.some.injEq, Prod.exists, Prod.mk.injEq] at h
    obtain ⟨pieces, -, value, followed₁, -, more, followed₂, hmore, rfl, -⟩ := h
    rw [List.map_cons, List.map_cons, ih hmore]

/-! ## Steps of the builder -/

namespace Builder

variable {b b' : Builder}

theorem sound_scopeWithin {opened : List OpenElement} (h : OpenedScoped opened) :
    (scopeWithin opened).Sound := by
  cases opened with
  | nil => exact List.forall_mem_nil _
  | cons e opened => exact h.1.node.sound

theorem scope_eq (b : Builder) : b.scope = scopeWithin b.opened := by
  unfold scope scopeWithin
  cases b.opened <;> rfl

/-- A change of the children at the current place that keeps them in their scope. -/
theorem scoped_mapChildren {f : List (Tree Node) → List (Tree Node)} (h : b.Scoped)
    (hf : ∀ outer children, ScopedAllIn outer children → ScopedAllIn outer (f children)) :
    (b.mapChildren f).Scoped := by
  unfold mapChildren
  split
  next hnil => exact ⟨h.opened, hf _ _ h.outside, h.pending⟩
  next e opened hcons =>
    have hopened := h.opened
    rw [hcons] at hopened
    exact ⟨⟨⟨hopened.1.node, hf _ _ hopened.1.children⟩, hopened.2⟩, h.outside, h.pending⟩

theorem scoped_add {t : Tree Node} (h : b.Scoped) (ht : ScopedIn (scopeWithin b.opened) t) :
    (b.add t).Scoped := by
  unfold add mapChildren
  split
  next hnil =>
    rw [hnil] at ht
    exact ⟨h.opened, ⟨ht, h.outside⟩, h.pending⟩
  next e opened hcons =>
    have hopened := h.opened
    rw [hcons] at hopened ht
    exact ⟨⟨⟨hopened.1.node, ht, hopened.1.children⟩, hopened.2⟩, h.outside, h.pending⟩

theorem scoped_addText {t : Text} (h : b.Scoped) : (b.addText t).Scoped := by
  unfold addText
  refine scoped_mapChildren ⟨h.opened, h.outside, h.pending⟩ ?_
  intro outer children hchildren
  split
  next => exact ⟨rfl, hchildren.2⟩
  next => exact ⟨rfl, hchildren⟩

theorem scoped_of_resolve? {attributes : List (Name × Text)} {scope : Scope} {name : Name}
    {resolved : List (ExpandedName × Text)} {space : Option Text} (h : b.Scoped)
    (hname : isName name.localName = true)
    (hnames : ∀ a ∈ attributes, isName a.1.localName = true)
    (hresolve : b.resolve? attributes = some (scope, resolved))
    (hspace : scope.lookup? name.qualifier = some space) :
    Xml.Scoped (scopeWithin b.opened) ⟨space, name.localName⟩ resolved scope := by
  simp only [resolve?, Option.bind_eq_bind, Option.bind_eq_some_iff, Option.pure_def,
    Option.some.injEq, Prod.mk.injEq] at hresolve
  obtain ⟨own, hown, found, hfound, rfl, rfl⟩ := hresolve
  rw [scope_eq] at hfound hspace ⊢
  obtain ⟨hknown, hnodup⟩ := known_of_resolved? hnames hfound
  refine ⟨⟨own, rfl⟩, ?_, hname, ⟨name.qualifier, hspace⟩, hnodup, hknown⟩
  intro c hc
  rcases Scope.mem_extend hc with hc | hc
  · exact sound_of_declared? (List.forall_mem_nil _) hnames hown c hc
  · exact sound_scopeWithin h.opened c hc

theorem scoped_startTag? {name : Name} {attributes : List (Name × Text)} {tagEnd : TagEnd}
    (h : b.Scoped) (hname : isName name.localName = true)
    (hnames : ∀ a ∈ attributes, isName a.1.localName = true)
    (hb : b.startTag? name attributes tagEnd = some b') : b'.Scoped := by
  have hall : ∀ a ∈ b.pending ++ attributes, isName a.1.localName = true :=
    List.forall_mem_append.2 ⟨h.pending, hnames⟩
  cases tagEnd with
  | missing =>
    simp only [startTag?] at hb
    split at hb
    next =>
      obtain rfl := Option.some.inj hb
      exact ⟨h.opened, h.outside, hall⟩
    next => cases hb
  | empty =>
    simp only [startTag?, Option.bind_eq_bind, Option.bind_eq_some_iff, Prod.exists, if_true,
      Option.pure_def, Option.some.injEq] at hb
    obtain ⟨scope, resolved, hresolve, space, hspace, rfl⟩ := hb
    have hscoped := scoped_of_resolve? h hname hall hresolve hspace
    exact scoped_add ⟨h.opened, h.outside, List.forall_mem_nil _⟩ ⟨hscoped, trivial⟩
  | content =>
    simp only [startTag?, Option.bind_eq_bind, Option.bind_eq_some_iff, Prod.exists, reduceCtorEq,
      if_false, Option.pure_def, Option.some.injEq] at hb
    obtain ⟨scope, resolved, hresolve, space, hspace, rfl⟩ := hb
    have hscoped := scoped_of_resolve? h hname hall hresolve hspace
    exact ⟨⟨⟨hscoped, trivial⟩, h.opened⟩, h.outside, List.forall_mem_nil _⟩

theorem scoped_endTag? {name : Name} (h : b.Scoped) (hb : b.endTag? name = some b') :
    b'.Scoped := by
  simp only [endTag?, Option.bind_eq_bind, Option.bind_eq_some_iff] at hb
  obtain ⟨-, -, hb⟩ := hb
  split at hb
  next => cases hb
  next e opened hcons =>
    have hopened := h.opened
    rw [hcons] at hopened
    split at hb
    next =>
      obtain rfl := Option.some.inj hb
      refine scoped_add ⟨hopened.2, h.outside, List.forall_mem_nil _⟩ ⟨hopened.1.node, ?_⟩
      rw [scopedAllIn_iff]
      exact fun t ht => scopedAllIn_iff.1 hopened.1.children t (List.mem_reverse.1 ht)
    next => cases hb

theorem scoped_followed (h : b.Scoped) (followed : Nat) :
    Builder.Scoped { b with followed } :=
  ⟨h.opened, h.outside, h.pending⟩

end Builder

/-! ## Tokens -/

section Tokens

variable {t rest : Text} {token : Token} {tokens : List Token}

theorem Token.named_of_isTextual (h : token.IsTextual) : token.Named := by
  cases token with
  | startTag => cases h
  | _ => trivial

theorem named_of_markup? (h : markup? t = some (token, rest)) : token.Named := by
  unfold markup? at h
  split at h
  next =>
    split at h
    next =>
      obtain ⟨⟨comment, r⟩, -, he⟩ := Option.map_eq_some_iff.1 h
      obtain ⟨rfl, -⟩ := Prod.mk.inj he
      trivial
    next =>
      obtain ⟨v, -, hdata⟩ := Option.bind_eq_some_iff.1 h
      exact Token.named_of_isTextual (plainData?_eq_some hdata).2.1
  next =>
    obtain ⟨⟨⟨target, data⟩, r⟩, -, he⟩ := Option.map_eq_some_iff.1 h
    obtain ⟨rfl, -⟩ := Prod.mk.inj he
    trivial
  next =>
    obtain ⟨⟨name, rfl⟩, -⟩ := endTag?_eq_some h
    trivial
  next =>
    obtain ⟨name, attributes, tagEnd, rfl, hlexed, -⟩ := startTag?_eq_some h
    exact ⟨hlexed.1, fun a ha => (hlexed.2 a ha).1⟩

theorem named_of_content? {inEntity : Bool} {level : Nat}
    (h : content? inEntity level t = some (tokens, rest)) : ∀ token ∈ tokens, token.Named := by
  have hnamed : ∀ {c u tokens rest}, next? inEntity c u = some (tokens, rest) →
      ∀ token ∈ tokens, token.Named := by
    intro c u tokens rest hnext
    unfold next? at hnext
    split at hnext
    next =>
      obtain ⟨⟨token, r⟩, hmarkup, he⟩ := Option.map_eq_some_iff.1 hnext
      obtain ⟨rfl, -⟩ := Prod.mk.inj he
      exact List.forall_mem_singleton.2 (named_of_markup? hmarkup)
    next =>
      exact fun token ht => Token.named_of_isTextual ((text?_eq_some hnext).1 token ht).2
  fun_induction content? inEntity level t generalizing tokens rest with
  | case1 =>
    obtain ⟨rfl, -⟩ := Prod.mk.inj (Option.some.inj h)
    exact List.forall_mem_nil _
  | case2 => cases h
  | case3 level c u found r hnext hlevel =>
    obtain ⟨rfl, -⟩ := Prod.mk.inj (Option.some.inj h)
    exact hnamed hnext
  | case4 level c u found r hnext next hlevel ih =>
    obtain ⟨⟨more, r'⟩, hmore, hmap⟩ := Option.map_eq_some_iff.1 h
    obtain ⟨rfl, -⟩ := Prod.mk.inj hmap
    exact List.forall_mem_append.2 ⟨hnamed hnext, ih hmore⟩

theorem named_of_element? (h : element? t = some (tokens, rest)) :
    ∀ token ∈ tokens, token.Named := by
  simp only [element?, Option.bind_eq_bind, Option.bind_eq_some_iff, Prod.exists] at h
  obtain ⟨t₁, -, tag, t₂, htag, h⟩ := h
  obtain ⟨name, attributes, tagEnd, rfl, hlexed, -⟩ := startTag?_eq_some htag
  have hnamed : Token.Named (.startTag name attributes tagEnd) :=
    ⟨hlexed.1, fun a ha => (hlexed.2 a ha).1⟩
  split at h
  next =>
    obtain ⟨⟨more, r⟩, hmore, hmap⟩ := Option.map_eq_some_iff.1 h
    obtain ⟨rfl, -⟩ := Prod.mk.inj hmap
    exact List.forall_mem_cons.2 ⟨hnamed, named_of_content? hmore⟩
  next =>
    obtain ⟨rfl, -⟩ := Prod.mk.inj (Option.some.inj h)
    exact List.forall_mem_singleton.2 hnamed

/-- What is built from tokens stands in its scopes. The induction is on the entities that may still
be nested, and for each number of them on the tokens, since an entity is read in its place. -/
theorem scoped_build {entities : Entities} {levels : Nat} {tagSeen : Bool} {b b' : Builder}
    (hnamed : ∀ token ∈ tokens, token.Named) (h : b.Scoped)
    (hb : build entities levels tagSeen tokens b = some b') : b'.Scoped := by
  induction levels using Nat.strongRecOn generalizing tokens tagSeen b b' with
  | ind levels ihLevels =>
    induction tokens generalizing tagSeen b with
    | nil =>
      rw [build] at hb
      exact Option.some.inj hb ▸ h
    | cons token tokens ih =>
      rw [List.forall_mem_cons] at hnamed
      cases token with
      | startTag name attributes tagEnd =>
        simp only [build, Option.bind_eq_bind, Option.bind_eq_some_iff, Prod.exists] at hb
        obtain ⟨expanded, followed, hexpand, b₁, hb₁, hb⟩ := hb
        have hnames : ∀ a ∈ expanded, isName a.1.localName = true := by
          intro a ha
          have hmem : a.1 ∈ attributes.map Prod.fst :=
            names_of_expandAttributes hexpand ▸ List.mem_map_of_mem ha
          obtain ⟨w, hw, hwa⟩ := List.mem_map.1 hmem
          exact hwa ▸ hnamed.1.2 w hw
        exact ih hnamed.2 (Builder.scoped_startTag? (Builder.scoped_followed h followed)
          hnamed.1.1 hnames hb₁) hb
      | endTag name =>
        rw [build] at hb
        split at hb
        next =>
          obtain ⟨b₁, hb₁, hb⟩ := Option.bind_eq_some_iff.1 hb
          exact ih hnamed.2 (Builder.scoped_endTag? h hb₁) hb
        next => cases hb
      | characters t =>
        rw [build] at hb
        exact ih hnamed.2 (Builder.scoped_addText h) hb
      | comment t =>
        rw [build] at hb
        exact ih hnamed.2 (Builder.scoped_add h (scopedIn_of_isRemark rfl)) hb
      | instruction target data =>
        rw [build] at hb
        exact ih hnamed.2 (Builder.scoped_add h (scopedIn_of_isRemark rfl)) hb
      | entity name =>
        cases levels with
        | zero =>
          rw [build] at hb
          cases hb
        | succ deeper =>
          simp only [build, Option.bind_eq_bind, Option.bind_eq_some_iff, Prod.exists] at hb
          obtain ⟨t, -, inside, r, hinside, followed, -, b₁, hb₁, hb⟩ := hb
          have hscoped := ihLevels deeper (Nat.lt_succ_self deeper) (named_of_content? hinside)
            (Builder.scoped_followed h followed) hb₁
          exact ih hnamed.2 (Builder.scoped_followed hscoped _) hb

end Tokens

/-! ## Documents -/

section Documents

variable {t rest : Text} {stop : Nat}

theorem isRemark_of_remark? {v : Node} (h : remark? t = some (v, rest)) : v.isRemark = true := by
  unfold remark? at h
  split at h
  next =>
    obtain ⟨_, -, he⟩ := Option.map_eq_some_iff.1 h
    exact (Prod.mk.inj he).1 ▸ rfl
  next =>
    obtain ⟨_, -, he⟩ := Option.map_eq_some_iff.1 h
    exact (Prod.mk.inj he).1 ▸ rfl

theorem isRemark_of_remarks? {remarks : List (Placed Node)}
    (h : remarks? stop t = some (remarks, rest)) :
    ∀ remark ∈ remarks, remark.value.isRemark = true := by
  fun_induction remarks? stop t generalizing remarks with
  | case1 => cases h
  | case2 t _ r v hremark ih =>
    obtain ⟨⟨more, r'⟩, hmore, hmap⟩ := Option.map_eq_some_iff.1 h
    obtain ⟨rfl, rfl⟩ := Prod.mk.inj hmap
    exact List.forall_mem_cons.2 ⟨isRemark_of_remark? hremark, ih hmore⟩
  | case3 =>
    obtain ⟨rfl, -⟩ := Prod.mk.inj (Option.some.inj h)
    exact List.forall_mem_nil _

theorem isRemark_of_subset? {entities : Entities} {remarks : List (Placed Node)}
    (h : subset? stop t = some (entities, remarks, rest)) :
    ∀ remark ∈ remarks, remark.value.isRemark = true := by
  fun_induction subset? stop t generalizing entities remarks rest with
  | case1 =>
    rename_i ih
    simp only [Option.bind_eq_bind, Option.bind_eq_some_iff, Prod.exists] at h
    obtain ⟨declared, r, -, h⟩ := h
    split at h
    next hlt =>
      simp only [Option.bind_eq_some_iff, Option.pure_def, Option.some.injEq, Prod.exists,
        Prod.mk.injEq] at h
      obtain ⟨more, found, r', hmore, -, rfl, -⟩ := h
      exact ih r hlt hmore
    next => cases h
  | case2 =>
    rename_i ih
    simp only [Option.bind_eq_bind, Option.bind_eq_some_iff, Prod.exists] at h
    obtain ⟨v, r, hremark, h⟩ := h
    split at h
    next hlt =>
      simp only [Option.bind_eq_some_iff, Option.pure_def, Option.some.injEq, Prod.exists,
        Prod.mk.injEq] at h
      obtain ⟨more, found, r', hmore, -, rfl, -⟩ := h
      exact List.forall_mem_cons.2 ⟨isRemark_of_remark? hremark, ih r hlt hmore⟩
    next => cases h
  | case3 =>
    rename_i ih
    simp only [Option.bind_eq_bind, Option.bind_eq_some_iff, Prod.exists] at h
    obtain ⟨_, r, -, h⟩ := h
    split at h
    next hlt => exact ih r hlt h
    next => cases h
  | case4 =>
    simp only [Option.bind_eq_bind, Option.bind_eq_some_iff, Option.pure_def, Option.some.injEq,
      Prod.mk.injEq] at h
    obtain ⟨r, -, r', -, -, rfl, -⟩ := h
    exact List.forall_mem_nil _

theorem isRemark_of_doctype? {doctype : Doctype} (h : doctype? stop t = some (doctype, rest)) :
    ∀ remark ∈ doctype.remarks, remark.value.isRemark = true := by
  simp only [doctype?, Option.bind_eq_bind, Option.bind_eq_some_iff, Prod.exists] at h
  obtain ⟨_, -, _, _, -, u, -, h⟩ := h
  split at h
  next =>
    obtain ⟨rfl, -⟩ := Prod.mk.inj (Option.some.inj h)
    exact List.forall_mem_nil _
  next =>
    simp only [Option.bind_eq_some_iff, Option.pure_def, Option.some.injEq, Prod.exists,
      Prod.mk.injEq] at h
    obtain ⟨entities, remarks, r, hsubset, rfl, -⟩ := h
    exact isRemark_of_subset? hsubset
  next => cases h

theorem isRemark_of_doctypePart? {doctype : Option (Placed Doctype)}
    {remarks : List (Placed Node)}
    (h : Source.doctypePart? stop t = some (doctype, remarks, rest)) :
    ∀ remark ∈ remarks, remark.value.isRemark = true := by
  unfold Source.doctypePart? at h
  split at h
  next =>
    obtain ⟨-, h⟩ := Prod.mk.inj (Option.some.inj h)
    exact (Prod.mk.inj h).1 ▸ List.forall_mem_nil _
  next =>
    simp only [Option.bind_eq_bind, Option.bind_eq_some_iff, Option.pure_def, Option.some.injEq,
      Prod.exists, Prod.mk.injEq] at h
    obtain ⟨found, r, hfound, behind, r', hbehind, -, rfl, -⟩ := h
    exact List.forall_mem_append.2 ⟨isRemark_of_doctype? hfound, isRemark_of_remarks? hbehind⟩

theorem scoped_foldl_add {b : Builder} {after : List (Placed Node)} (h : b.Scoped)
    (hafter : ∀ remark ∈ after, remark.value.isRemark = true) :
    (after.foldl (fun b remark => b.add (.node remark.value [])) b).Scoped := by
  induction after generalizing b with
  | nil => exact h
  | cons remark after ih =>
    rw [List.forall_mem_cons] at hafter
    exact ih (Builder.scoped_add h (scopedIn_of_isRemark hafter.1)) hafter.2

/-- What is read before the root element are comments and instructions, and from the root element on
every element stands in its scope. -/
theorem Source.scoped_of_parse? {source : Source} (h : parse? t = some source) :
    (∀ remark ∈ source.remarks, remark.value.isRemark = true) ∧
      ScopedAllIn [] source.content := by
  rw [parse?_eq] at h
  simp only [Option.bind_eq_some_iff, Prod.exists] at h
  obtain ⟨u, -, before, t₁, hbefore, doctype, behind, t₂, hpart, tokens, t₃, hfound, after, t₄,
    hafter, b, hb, content, hcontent, h⟩ := h
  have hstart : Builder.start.Scoped := ⟨trivial, trivial, List.forall_mem_nil _⟩
  have hscoped := scoped_foldl_add (scoped_build (named_of_element? hfound) hstart hb)
    (isRemark_of_remarks? hafter)
  split at h
  next =>
    obtain rfl := Option.some.inj h
    refine ⟨List.forall_mem_append.2
      ⟨isRemark_of_remarks? hbefore, isRemark_of_doctypePart? hpart⟩, ?_⟩
    unfold Builder.finish? at hcontent
    split at hcontent
    next =>
      obtain rfl := Option.some.inj hcontent
      rw [scopedAllIn_iff]
      exact fun t ht => scopedAllIn_iff.1 hscoped.outside t (List.mem_reverse.1 ht)
    next => cases hcontent
  next => cases h

end Documents

end Xml

end PrettyPayload
