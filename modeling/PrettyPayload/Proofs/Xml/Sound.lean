import PrettyPayload.Proofs.Tree
import PrettyPayload.Proofs.Xml.Declaration
import PrettyPayload.Xml.Document

/-!
# What reading XML gives

The nodes that are read from a text without entities are sound: names and values are proper, only
elements have children, and no two texts stand side by side. While tokens are read, the builder
stays inside the root element as many levels deep as the lexer counts, and it leaves the element
with the last token.
-/

namespace PrettyPayload

namespace Xml

open PrettyPayload.Tree

/-! ## Definitions -/

def Node.isText : Node → Bool
  | .text _ => true
  | _ => false

def Node.isElement : Node → Bool
  | .element .. => true
  | _ => false

def SoundAttribute (scope : Scope) (a : ExpandedName × Text) : Prop :=
  isName a.1.localName = true ∧ a.1.localName ≠ "xmlns".toList ∧
    (∃ qualifier, scope.attributeSpace? qualifier = some a.1.space) ∧
    ∀ c ∈ a.2, isAllowed c = true

def Node.Sound : Node → Prop
  | .document => False
  | .element name attributes scope =>
    isName name.localName = true ∧ (∃ qualifier, scope.lookup? qualifier = some name.space) ∧
      (∀ a ∈ attributes, SoundAttribute scope a) ∧ (attributes.map Prod.fst).Nodup
  | .text t => ∀ c ∈ t, isAllowed c = true
  | .comment t => isComment t = true ∧ '\r' ∉ t
  | .instruction target data => isTarget target = true ∧ isData data = true ∧ '\r' ∉ data

structure SoundAt (v : Node) (children : List (Tree Node)) : Prop where
  node : v.Sound
  leaf : v.isElement = false → children = []
  apart : Apart Node.isText children

/-- Sound trees that can stand side by side. -/
def SoundForest (ts : List (Tree Node)) : Prop := EachOfAll SoundAt ts ∧ Apart Node.isText ts

structure OpenElement.Sound (e : OpenElement) : Prop where
  node : (Node.element e.name e.attributes e.scope).Sound
  children : SoundForest e.children.reverse

namespace Builder

/-- The builder stands inside the root element, with as many elements open around the place. -/
structure Inside (level : Nat) (b : Builder) : Prop where
  length : b.opened.length = level + 1
  sound : ∀ e ∈ b.opened, e.Sound
  outside : b.outside = []
  pending : b.pending = []
  textEnded : b.textEnded = false

def Complete (b : Builder) : Prop :=
  b.opened = [] ∧ ∃ root : Tree Node, b.outside = [root] ∧ root.value.isElement = true ∧
    root.Each SoundAt

end Builder

/-! ## Attributes -/

theorem exists_of_mapM_eq_some {α β : Type} {f : α → Option β} {xs : List α} {ys : List β}
    (h : xs.mapM f = some ys) : ∀ y ∈ ys, ∃ x ∈ xs, f x = some y := by
  induction xs generalizing ys with
  | nil =>
    obtain rfl := Option.some.inj h
    exact nofun
  | cons x xs ih =>
    simp only [List.mapM_cons, Option.bind_eq_bind, Option.bind_eq_some_iff, Option.pure_def,
      Option.some.injEq] at h
    obtain ⟨y, hy, ys, hys, rfl⟩ := h
    refine List.forall_mem_cons.2 ⟨⟨x, List.mem_cons_self, hy⟩, ?_⟩
    intro z hz
    obtain ⟨x', hx', hfx⟩ := ih hys z hz
    exact ⟨x', List.mem_cons_of_mem x hx', hfx⟩

theorem sound_of_resolved? {scope : Scope} {attributes : List (Name × Text)}
    {resolved : List (ExpandedName × Text)} (h : resolved? scope attributes = some resolved)
    (hattributes : ∀ a ∈ attributes, Lexed a) :
    (∀ a ∈ resolved, SoundAttribute scope a) ∧ (resolved.map Prod.fst).Nodup := by
  simp only [resolved?, Option.bind_eq_bind, Option.bind_eq_some_iff] at h
  obtain ⟨found, hfound, h⟩ := h
  split at h
  next hnodup =>
    obtain rfl := Option.some.inj h
    refine ⟨?_, hnodup⟩
    intro a ha
    obtain ⟨⟨name, value⟩, hmem, hname⟩ := exists_of_mapM_eq_some hfound a ha
    obtain ⟨space, hspace, ha⟩ := Option.bind_eq_some_iff.1 hname
    obtain rfl := Option.some.inj ha
    obtain ⟨hin, hordinary⟩ := List.mem_filter.1 hmem
    simp only [Name.isDeclaration, Bool.not_eq_true', Bool.or_eq_false_iff,
      decide_eq_false_iff_not] at hordinary
    exact ⟨(hattributes _ hin).1, hordinary.2, ⟨name.qualifier, hspace⟩, (hattributes _ hin).2⟩
  next => cases h

/-! ## Steps of the builder -/

namespace Builder

variable {level : Nat} {b b' : Builder}

theorem exists_opened_of_inside (h : b.Inside level) :
    ∃ e opened, b.opened = e :: opened ∧ e.Sound ∧ ∀ e ∈ opened, e.Sound := by
  have hlength := h.length
  have hsound := h.sound
  cases hb : b.opened with
  | nil =>
    rw [hb] at hlength
    cases hlength
  | cons e opened =>
    rw [hb, List.forall_mem_cons] at hsound
    exact ⟨e, opened, rfl, hsound⟩

theorem soundForest_concat {ts : List (Tree Node)} {t : Tree Node} (h : SoundForest ts)
    (ht : t.Each SoundAt)
    (hapart : t.value.isText = true → ∀ u, ts.getLast? = some u → u.value.isText = false) :
    SoundForest (ts ++ [t]) := by
  refine ⟨eachOfAll_iff.2 ?_, apart_concat.2 ⟨h.2, hapart⟩⟩
  rw [List.forall_mem_append]
  exact ⟨eachOfAll_iff.1 h.1, List.forall_mem_cons.2 ⟨ht, nofun⟩⟩

/-- A change of the children at the current place that keeps them sound keeps the builder inside. -/
theorem inside_mapChildren {f : List (Tree Node) → List (Tree Node)} (h : b.Inside level)
    (hf : ∀ children, SoundForest children.reverse → SoundForest (f children).reverse) :
    (b.mapChildren f).Inside level := by
  obtain ⟨e, opened, hb, he, hopened⟩ := exists_opened_of_inside h
  have hlength := h.length
  rw [hb] at hlength
  unfold mapChildren
  rw [hb]
  exact ⟨hlength, List.forall_mem_cons.2 ⟨⟨he.node, hf _ he.children⟩, hopened⟩, h.outside,
    h.pending, h.textEnded⟩

theorem inside_add {t : Tree Node} (h : b.Inside level) (ht : t.Each SoundAt)
    (htext : t.value.isText = false) : (b.add t).Inside level := by
  refine inside_mapChildren h ?_
  intro children hchildren
  rw [List.reverse_cons]
  refine soundForest_concat hchildren ht ?_
  rw [htext]
  exact nofun

/-- Character data joins the text before it, so that no two texts stand side by side. -/
theorem inside_addText {t : Text} (h : b.Inside level) (ht : ∀ c ∈ t, isAllowed c = true) :
    (b.addText t).Inside level := by
  have htext : (Tree.node (Node.text t) []).Each SoundAt := ⟨⟨ht, fun _ => rfl, trivial⟩, trivial⟩
  unfold addText
  rw [h.textEnded]
  refine inside_mapChildren ⟨h.length, h.sound, h.outside, h.pending, rfl⟩ ?_
  intro found hfound
  split
  next s rest =>
    rw [List.reverse_cons] at hfound ⊢
    obtain ⟨heach, hapart⟩ := hfound
    rw [eachOfAll_iff, List.forall_mem_append] at heach
    rw [apart_concat] at hapart
    have hs := (heach.2 _ List.mem_cons_self).1.node
    refine soundForest_concat ⟨eachOfAll_iff.2 heach.1, hapart.1⟩ ⟨⟨?_, fun _ => rfl, trivial⟩,
      trivial⟩ fun _ => hapart.2 rfl
    intro c hc
    rcases List.mem_append.1 hc with hc | hc
    · exact hs c hc
    · exact ht c hc
  next found _ _ hhead =>
    rw [List.reverse_cons]
    refine soundForest_concat hfound htext ?_
    intro _ u hu
    rw [List.getLast?_reverse] at hu
    cases found with
    | nil => cases hu
    | cons v found =>
      obtain rfl := Option.some.inj hu
      obtain ⟨w, ts⟩ := v
      cases w with
      | text s =>
        have hv := eachOfAll_iff.1 hfound.1 _ (List.mem_reverse.2 List.mem_cons_self)
        obtain rfl := hv.1.leaf rfl
        exact absurd rfl (hhead s found rfl)
      | _ => rfl

theorem inside_followed (h : b.Inside level) (followed : Nat) :
    Builder.Inside level { b with followed } :=
  ⟨h.length, h.sound, h.outside, h.pending, h.textEnded⟩

def InsideAfter (level : Nat) (b : Builder) : TagEnd → Prop
  | .content => b.Inside (level + 1)
  | .empty => b.Inside level
  | .missing => b.opened ≠ []

theorem sound_of_resolve? {name : Name} {attributes : List (Name × Text)} {scope : Scope}
    {resolved : List (ExpandedName × Text)} {space : Option Text}
    (hname : isName name.localName = true) (hattributes : ∀ a ∈ attributes, Lexed a)
    (hresolve : b.resolve? attributes = some (scope, resolved))
    (hspace : scope.lookup? name.qualifier = some space) :
    (Node.element ⟨space, name.localName⟩ resolved scope).Sound := by
  simp only [resolve?, Option.bind_eq_bind, Option.bind_eq_some_iff, Option.pure_def,
    Option.some.injEq, Prod.mk.injEq] at hresolve
  obtain ⟨own, -, found, hfound, rfl, rfl⟩ := hresolve
  obtain ⟨hsound, hnodup⟩ := sound_of_resolved? hfound hattributes
  exact ⟨hname, ⟨name.qualifier, hspace⟩, hsound, hnodup⟩

/-- A start tag opens an element, adds one without children, or is left unfinished. -/
theorem insideAfter_startTag? {name : Name} {attributes : List (Name × Text)} {tagEnd : TagEnd}
    (h : b.Inside level) (hname : isName name.localName = true)
    (hattributes : ∀ a ∈ attributes, Lexed a)
    (hb : b.startTag? name attributes tagEnd = some b') : b'.InsideAfter level tagEnd := by
  cases tagEnd with
  | missing =>
    simp only [startTag?] at hb
    split at hb
    next =>
      obtain rfl := Option.some.inj hb
      obtain ⟨e, opened, hopened, -⟩ := exists_opened_of_inside h
      exact fun hnil => List.cons_ne_nil e opened (hopened.symm.trans hnil)
    next => cases hb
  | empty =>
    simp only [startTag?, h.pending, List.nil_append, Option.bind_eq_bind,
      Option.bind_eq_some_iff, Prod.exists, if_true, Option.pure_def, Option.some.injEq] at hb
    obtain ⟨scope, resolved, hresolve, space, hspace, rfl⟩ := hb
    refine inside_add ⟨h.length, h.sound, h.outside, rfl, h.textEnded⟩ ?_ rfl
    exact ⟨⟨sound_of_resolve? hname hattributes hresolve hspace, fun _ => rfl, trivial⟩, trivial⟩
  | content =>
    simp only [startTag?, h.pending, List.nil_append, Option.bind_eq_bind,
      Option.bind_eq_some_iff, Prod.exists, reduceCtorEq, if_false, Option.pure_def,
      Option.some.injEq] at hb
    obtain ⟨scope, resolved, hresolve, space, hspace, rfl⟩ := hb
    refine ⟨congrArg (· + 1) h.length, ?_, h.outside, rfl, h.textEnded⟩
    exact List.forall_mem_cons.2
      ⟨⟨sound_of_resolve? hname hattributes hresolve hspace, trivial, trivial⟩, h.sound⟩

theorem endTag?_eq_some {name : Name} (h : b.Inside level) (hb : b.endTag? name = some b') :
    ∃ (opened : List OpenElement) (closed : Tree Node), opened.length = level ∧
      (∀ e ∈ opened, e.Sound) ∧ closed.Each SoundAt ∧ closed.value.isElement = true ∧
      b' = Builder.add closed { b with opened, pending := [] } := by
  obtain ⟨e, opened, hopened, he, hsound⟩ := exists_opened_of_inside h
  have hlength := h.length
  rw [hopened] at hlength
  simp only [endTag?, hopened, Option.bind_eq_bind, Option.bind_eq_some_iff] at hb
  obtain ⟨-, -, hb⟩ := hb
  split at hb
  next =>
    refine ⟨opened, _, Nat.succ.inj hlength, hsound, ?_, rfl, (Option.some.inj hb).symm⟩
    exact ⟨⟨he.node, nofun, he.children.2⟩, he.children.1⟩
  next => cases hb

theorem inside_endTag? {name : Name} (h : b.Inside (level + 1))
    (hb : b.endTag? name = some b') : b'.Inside level := by
  obtain ⟨opened, closed, hlength, hsound, heach, helement, rfl⟩ := endTag?_eq_some h hb
  refine inside_add ⟨hlength, hsound, h.outside, rfl, h.textEnded⟩ heach ?_
  cases hvalue : closed.value with
  | text t =>
    rw [hvalue] at helement
    cases helement
  | _ => rfl

theorem complete_endTag? {name : Name} (h : b.Inside 0) (hb : b.endTag? name = some b') :
    b'.Complete := by
  obtain ⟨opened, closed, hlength, -, heach, helement, rfl⟩ := endTag?_eq_some h hb
  obtain rfl := List.eq_nil_of_length_eq_zero hlength
  exact ⟨rfl, closed, by rw [add, mapChildren, h.outside], helement, heach⟩

end Builder

/-! ## What is built from tokens -/

theorem build_append (entities : Entities) (levels : Nat) (tokens more : List Token)
    (b : Builder) :
    build entities levels true (tokens ++ more) b =
      (build entities levels true tokens b).bind (build entities levels true more) := by
  induction tokens generalizing b with
  | nil =>
    rw [List.nil_append, build]
    rfl
  | cons token tokens ih =>
    cases token with
    | startTag name attributes tagEnd =>
      simp only [List.cons_append, build, ih, Option.bind_eq_bind, Option.bind_assoc]
    | endTag name =>
      simp only [List.cons_append, build, ih, Option.bind_eq_bind, Option.bind_assoc, if_true]
    | entity name =>
      cases levels with
      | zero => simp only [List.cons_append, build, Option.bind_none]
      | succ levels =>
        simp only [List.cons_append, build, ih, Option.bind_eq_bind, Option.bind_assoc]
    | _ => simp only [List.cons_append, build, ih]

theorem build_entity (levels : Nat) (name : Text) (tokens : List Token) (b : Builder) :
    build [] levels true (.entity name :: tokens) b = none := by
  cases levels with
  | zero => rw [build]
  | succ levels =>
    rw [build]
    rfl

section Reading

variable {level : Nat} {b b' : Builder} {t rest : Text} {token : Token} {tokens : List Token}

/-- Parts of a text change only the text at the current place. -/
theorem inside_build_textual (htokens : ∀ token ∈ tokens, token.Lexed ∧ token.IsTextual)
    (h : b.Inside level) (hb : build [] nestingLimit true tokens b = some b') :
    levelAfter? level tokens = some level ∧ b'.Inside level := by
  induction tokens generalizing b with
  | nil =>
    rw [build] at hb
    obtain rfl := Option.some.inj hb
    exact ⟨rfl, h⟩
  | cons token tokens ih =>
    rw [List.forall_mem_cons] at htokens
    obtain ⟨⟨hlexed, htextual⟩, htokens⟩ := htokens
    cases token with
    | characters t =>
      rw [build] at hb
      exact ih htokens (Builder.inside_addText h hlexed) hb
    | entity name =>
      rw [build_entity] at hb
      cases hb
    | _ => cases htextual

/-- Where the builder stands when some tokens have been read: it has read the root element, or as
many elements are open as the lexer counts, or a tag without an end has come, and nothing more
can. -/
def Builder.Keeps (after : Option Nat) (rest : Text) (b : Builder) : Prop :=
  match after with
  | none => b.Complete
  | some level => b.Inside level ∨ b.opened ≠ [] ∧ rest = []

theorem lexed_of_expandAttributes {levels followed followed' : Nat}
    {written attributes : List (Name × Text)}
    (h : expandAttributes [] levels followed written = some (attributes, followed'))
    (hwritten : ∀ a ∈ written, Lexed a) : ∀ a ∈ attributes, Lexed a := by
  obtain ⟨hnames, hvalues⟩ := allowed_of_expandAttributes h fun a ha => (hwritten a ha).2
  intro a ha
  have hname : a.1 ∈ written.map Prod.fst := hnames ▸ List.mem_map_of_mem ha
  obtain ⟨w, hw, hwa⟩ := List.mem_map.1 hname
  exact ⟨hwa ▸ (hwritten w hw).1, hvalues a ha⟩

theorem keeps_build_token (hlexed : token.Lexed)
    (hmissing : ∀ name attributes, token = .startTag name attributes .missing → rest = [])
    (h : b.Inside level) (hb : build [] nestingLimit true [token] b = some b') :
    b'.Keeps (token.levelAfter? level) rest := by
  cases token with
  | startTag name attributes tagEnd =>
    simp only [build, Option.bind_eq_bind, Option.bind_eq_some_iff, Prod.exists,
      Option.some.injEq] at hb
    obtain ⟨expanded, followed, hexpand, b₁, hb₁, rfl⟩ := hb
    have hafter := Builder.insideAfter_startTag? (Builder.inside_followed h followed) hlexed.1
      (lexed_of_expandAttributes hexpand hlexed.2) hb₁
    cases tagEnd with
    | content => exact Or.inl hafter
    | empty => exact Or.inl hafter
    | missing => exact Or.inr ⟨hafter, hmissing name attributes rfl⟩
  | endTag name =>
    simp only [build, if_true, Option.bind_eq_bind, Option.bind_eq_some_iff,
      Option.some.injEq] at hb
    obtain ⟨b₁, hb₁, rfl⟩ := hb
    cases level with
    | zero => exact Builder.complete_endTag? h hb₁
    | succ level => exact Or.inl (Builder.inside_endTag? h hb₁)
  | characters t =>
    rw [build, build] at hb
    obtain rfl := Option.some.inj hb
    exact Or.inl (Builder.inside_addText h hlexed)
  | entity name =>
    rw [build_entity] at hb
    cases hb
  | comment t =>
    rw [build, build] at hb
    obtain rfl := Option.some.inj hb
    exact Or.inl (Builder.inside_add h ⟨⟨hlexed, fun _ => rfl, trivial⟩, trivial⟩ rfl)
  | instruction target data =>
    rw [build, build] at hb
    obtain rfl := Option.some.inj hb
    exact Or.inl (Builder.inside_add h ⟨⟨hlexed, fun _ => rfl, trivial⟩, trivial⟩ rfl)

/-- A step of the lexer moves the builder as far as it is counted. -/
theorem keeps_build_next? {c : Char} (ht : '\r' ∉ c :: t)
    (hnext : next? false c t = some (tokens, rest)) (h : b.Inside level)
    (hb : build [] nestingLimit true tokens b = some b') :
    b'.Keeps (levelAfter? level tokens) rest ∧ rest <:+ c :: t := by
  unfold next? at hnext
  split at hnext
  next =>
    obtain ⟨⟨token, r⟩, hmarkup, hmap⟩ := Option.map_eq_some_iff.1 hnext
    obtain ⟨rfl, rfl⟩ := Prod.mk.inj hmap
    obtain ⟨hlexed, hmissing, hsuffix⟩ :=
      markup?_eq_some (fun hmem => ht (List.mem_cons_of_mem c hmem)) hmarkup
    have hlevel : levelAfter? level [token] = token.levelAfter? level := by
      simp [levelAfter?]
    rw [hlevel]
    exact ⟨keeps_build_token hlexed hmissing h hb, hsuffix.trans (List.suffix_cons c t)⟩
  next =>
    obtain ⟨htokens, hsuffix⟩ := text?_eq_some hnext
    obtain ⟨hlevel, hinside⟩ := inside_build_textual htokens h hb
    rw [hlevel]
    exact ⟨Or.inl hinside, hsuffix⟩

/-- Content that has been read to its end tag completes the root element; without one, an element
stays open. -/
theorem complete_of_content? (ht : '\r' ∉ t)
    (hcontent : content? false level t = some (tokens, rest)) (h : b.Inside level)
    (hb : build [] nestingLimit true tokens b = some b') :
    (b'.opened ≠ [] ∨ b'.Complete) ∧ rest <:+ t := by
  have hopened : ∀ {b : Builder} {level : Nat}, b.Inside level → b.opened ≠ [] := by
    intro b level h
    obtain ⟨e, opened, hopened, -⟩ := Builder.exists_opened_of_inside h
    exact fun hnil => List.cons_ne_nil e opened (hopened.symm.trans hnil)
  fun_induction content? false level t generalizing b tokens rest with
  | case1 =>
    obtain ⟨rfl, rfl⟩ := Prod.mk.inj (Option.some.inj hcontent)
    rw [build] at hb
    obtain rfl := Option.some.inj hb
    exact ⟨Or.inl (hopened h), List.suffix_refl []⟩
  | case2 => cases hcontent
  | case3 level c u found r hnext hlevel =>
    obtain ⟨rfl, rfl⟩ := Prod.mk.inj (Option.some.inj hcontent)
    obtain ⟨hkeeps, hsuffix⟩ := keeps_build_next? ht hnext h hb
    rw [hlevel] at hkeeps
    exact ⟨Or.inr hkeeps, hsuffix⟩
  | case4 level c u found r hnext next hlevel ih =>
    obtain ⟨⟨more, r'⟩, hmore, hmap⟩ := Option.map_eq_some_iff.1 hcontent
    obtain ⟨rfl, rfl⟩ := Prod.mk.inj hmap
    rw [build_append] at hb
    obtain ⟨b₁, hb₁, hb⟩ := Option.bind_eq_some_iff.1 hb
    obtain ⟨hkeeps, hsuffix⟩ := keeps_build_next? ht hnext h hb₁
    rw [hlevel] at hkeeps
    rcases hkeeps with hinside | ⟨hb₁, rfl⟩
    · obtain ⟨hresult, hbehind⟩ := ih (fun hmem => ht (hsuffix.subset hmem)) hmore hinside hb
      exact ⟨hresult, hbehind.trans hsuffix⟩
    · rw [content?] at hmore
      obtain ⟨rfl, rfl⟩ := Prod.mk.inj (Option.some.inj hmore)
      rw [build] at hb
      obtain rfl := Option.some.inj hb
      exact ⟨Or.inl hb₁, List.nil_suffix⟩

end Reading

/-! ## Remarks -/

def Node.isRemark : Node → Bool
  | .comment _ => true
  | .instruction .. => true
  | _ => false

def Node.body : Node → Text
  | .comment t => t
  | .instruction _ data => data
  | _ => []

section Remarks

variable {t rest : Text} {v : Node} {stop : Nat}

theorem remark?_eq_some (ht : '\r' ∉ t) (h : remark? t = some (v, rest)) :
    v.Sound ∧ v.isRemark = true ∧ ∃ before, t = before ++ rest ∧ v.body <:+: before := by
  unfold remark? at h
  split at h
  next u hu =>
    obtain ⟨⟨comment, r⟩, hcomment, hmap⟩ := Option.map_eq_some_iff.1 h
    obtain ⟨rfl, rfl⟩ := Prod.mk.inj hmap
    obtain ⟨hsplit, hcomment⟩ := comment?_eq_some hcomment
    have htext : t = ("<!--".toList ++ comment ++ "-->".toList) ++ r := by
      rw [Text.dropPrefix?_eq_some_iff.1 hu, hsplit]
      simp only [List.append_assoc]
    refine ⟨⟨hcomment, ?_⟩, rfl, _, htext, List.infix_append _ _ _⟩
    intro hmem
    rw [htext] at ht
    exact ht (by simp [hmem])
  next =>
    obtain ⟨⟨⟨target, data⟩, r⟩, hinstruction, hmap⟩ := Option.map_eq_some_iff.1 h
    obtain ⟨rfl, rfl⟩ := Prod.mk.inj hmap
    obtain ⟨htarget, hdata, s, hsplit⟩ := instruction?_eq_some hinstruction
    have htext : t = (("<?".toList ++ (target ++ s)) ++ data ++ "?>".toList) ++ r := by
      rw [hsplit]
      simp only [List.append_assoc]
    refine ⟨⟨htarget, hdata, ?_⟩, rfl, _, htext, List.infix_append _ _ _⟩
    intro hmem
    rw [htext] at ht
    exact ht (by simp [hmem])

theorem remarks?_of_startsRemark_eq_false (h : startsRemark (skipSpaces t) = false) :
    remarks? stop t = some ([], skipSpaces t) := by
  rw [remarks?]
  simp only [h, Bool.false_eq_true, if_false]

theorem remarks?_of_startsRemark (h : startsRemark (skipSpaces t) = true) :
    remarks? stop t = (remark? (skipSpaces t)).bind fun found =>
      (remarks? stop found.2).map fun more =>
        (⟨stop - (skipSpaces t).length, found.1⟩ :: more.1, more.2) := by
  rw [remarks?]
  simp only [h, if_true]
  split
  next hnone => rw [hnone, Option.bind_none]
  next hsome =>
    rw [hsome, Option.bind_some]

theorem remarks?_append_spaces {s : Text} (hs : ∀ c ∈ s, isSpace c = true) :
    remarks? stop (s ++ t) = remarks? stop t := by
  have hskip := skipSpaces_append hs t
  cases h : startsRemark (skipSpaces t) with
  | true => rw [remarks?_of_startsRemark h, remarks?_of_startsRemark (by rw [hskip, h]), hskip]
  | false =>
    rw [remarks?_of_startsRemark_eq_false h,
      remarks?_of_startsRemark_eq_false (by rw [hskip, h]), hskip]

/-- The comments and instructions that were read are sound, and they stand before the rest. -/
theorem remarks?_eq_some {remarks : List (Placed Node)} (ht : '\r' ∉ t)
    (h : remarks? stop t = some (remarks, rest)) :
    ∃ before, t = before ++ rest ∧ ∀ remark ∈ remarks,
      remark.value.Sound ∧ remark.value.isRemark = true ∧ remark.value.body <:+: before := by
  fun_induction remarks? stop t generalizing remarks with
  | case1 => cases h
  | case2 t _ r v hremark ih =>
    obtain ⟨⟨more, r'⟩, hmore, hmap⟩ := Option.map_eq_some_iff.1 h
    obtain ⟨rfl, rfl⟩ := Prod.mk.inj hmap
    obtain ⟨s, hs⟩ := suffix_of_skipSpaces t
    have hskip : '\r' ∉ skipSpaces t := fun hmem => ht (hs ▸ List.mem_append_right s hmem)
    obtain ⟨hsound, hv, before, hbefore, hbody⟩ := remark?_eq_some hskip hremark
    have hr : '\r' ∉ r := fun hmem => hskip (hbefore ▸ List.mem_append_right before hmem)
    obtain ⟨between, hbetween, hall⟩ := ih hr hmore
    refine ⟨s ++ before ++ between, ?_, List.forall_mem_cons.2 ⟨⟨hsound, hv, ?_⟩, ?_⟩⟩
    · rw [← hs, hbefore, hbetween]
      simp only [List.append_assoc]
    · exact List.infix_append_of_infix_left (List.infix_append_of_infix_right hbody)
    · intro remark hremark
      obtain ⟨hsound, hv, hbody⟩ := hall remark hremark
      exact ⟨hsound, hv, List.infix_append_of_infix_right hbody⟩
  | case3 t _ =>
    obtain ⟨rfl, rfl⟩ := Prod.mk.inj (Option.some.inj h)
    obtain ⟨s, hs⟩ := suffix_of_skipSpaces t
    exact ⟨s, hs.symm, nofun⟩

end Remarks

/-! ## Documents -/

/-- A document without a document type as it is read: sound comments and instructions around a
sound root element, those before it written in the prolog. -/
structure Source.Sound (source : Source) : Prop where
  remarks : ∀ remark ∈ source.remarks, remark.value.Sound ∧ remark.value.isRemark = true ∧
    remark.value.body <:+: source.prolog
  content : ∃ (root : Tree Node) (after : List Node),
    source.content = root :: after.map (Tree.node · []) ∧ root.value.isElement = true ∧
      root.Each SoundAt ∧ ∀ v ∈ after, v.Sound ∧ v.isRemark = true

section Documents

variable {t rest : Text} {tokens : List Token} {b : Builder}

theorem built_of_element? (ht : '\r' ∉ t) (h : element? t = some (tokens, rest))
    (hb : build [] nestingLimit true tokens .start = some b) :
    (b.opened ≠ [] ∨ b.opened = [] ∧ b.outside = [] ∨ b.Complete) ∧ rest <:+ t := by
  simp only [element?, Option.bind_eq_bind, Option.bind_eq_some_iff, Prod.exists] at h
  obtain ⟨t₁, h₁, tag, t₂, h₂, h⟩ := h
  obtain ⟨name, attributes, tagEnd, rfl, hlexed, -, hsuffix⟩ := startTag?_eq_some h₂
  replace hsuffix := hsuffix.trans (suffix_of_dropPrefix? h₁)
  have hopen : ∀ {more}, build [] nestingLimit true (.startTag name attributes tagEnd :: more)
      .start = some b → ∃ (expanded : List (Name × Text)) (followed : Nat) (b₁ : Builder),
        (∀ a ∈ expanded, Lexed a) ∧
          Builder.startTag? name expanded tagEnd { Builder.start with followed } = some b₁ ∧
            build [] nestingLimit true more b₁ = some b := by
    intro more hmore
    simp only [build, Option.bind_eq_bind, Option.bind_eq_some_iff, Prod.exists] at hmore
    obtain ⟨expanded, followed, hexpand, b₁, hb₁, hmore⟩ := hmore
    exact ⟨expanded, followed, b₁, lexed_of_expandAttributes hexpand hlexed.2, hb₁, hmore⟩
  cases tagEnd with
  | content =>
    obtain ⟨⟨more, r⟩, hmore, hmap⟩ := Option.map_eq_some_iff.1 h
    obtain ⟨rfl, rfl⟩ := Prod.mk.inj hmap
    obtain ⟨expanded, followed, b₁, hexpanded, hb₁, hb⟩ := hopen hb
    simp only [Builder.startTag?, Builder.start, List.nil_append, Option.bind_eq_bind,
      Option.bind_eq_some_iff, Prod.exists, reduceCtorEq, if_false, Option.pure_def,
      Option.some.injEq] at hb₁
    obtain ⟨scope, resolved, hresolve, space, hspace, rfl⟩ := hb₁
    have hsound := Builder.sound_of_resolve? hlexed.1 hexpanded hresolve hspace
    have hcr : '\r' ∉ t₂ := fun hmem => ht (hsuffix.subset hmem)
    obtain ⟨hresult, hbehind⟩ := complete_of_content? hcr hmore
      ⟨rfl, List.forall_mem_cons.2 ⟨⟨hsound, trivial, trivial⟩, List.forall_mem_nil _⟩,
        rfl, rfl, rfl⟩ hb
    exact ⟨hresult.imp_right Or.inr, hbehind.trans hsuffix⟩
  | empty =>
    obtain ⟨rfl, rfl⟩ := Prod.mk.inj (Option.some.inj h)
    obtain ⟨expanded, followed, b₁, hexpanded, hb₁, hb⟩ := hopen hb
    simp only [Builder.startTag?, Builder.start, List.nil_append, Option.bind_eq_bind,
      Option.bind_eq_some_iff, Prod.exists, if_true, Option.pure_def, Option.some.injEq] at hb₁
    obtain ⟨scope, resolved, hresolve, space, hspace, rfl⟩ := hb₁
    have hsound := Builder.sound_of_resolve? hlexed.1 hexpanded hresolve hspace
    rw [build] at hb
    obtain rfl := Option.some.inj hb
    exact ⟨Or.inr (Or.inr ⟨rfl, _, rfl, rfl, ⟨hsound, fun _ => rfl, trivial⟩, trivial⟩), hsuffix⟩
  | missing =>
    obtain ⟨rfl, rfl⟩ := Prod.mk.inj (Option.some.inj h)
    obtain ⟨expanded, followed, b₁, -, hb₁, hb⟩ := hopen hb
    rw [build] at hb
    obtain rfl := Option.some.inj hb
    simp only [Builder.startTag?] at hb₁
    split at hb₁
    next =>
      obtain rfl := Option.some.inj hb₁
      exact ⟨Or.inr (Or.inl ⟨rfl, rfl⟩), hsuffix⟩
    next => cases hb₁

theorem finish?_foldl_add_of_ne_nil (after : List (Placed Node)) (h : b.opened ≠ []) :
    (after.foldl (fun b remark => b.add (.node remark.value [])) b).finish? = none := by
  induction after generalizing b with
  | nil =>
    rw [List.foldl_nil, Builder.finish?, if_neg (by simpa using h)]
  | cons remark after ih =>
    refine ih ?_
    obtain ⟨e, opened, hb⟩ := List.exists_cons_of_ne_nil h
    simp [Builder.add, Builder.mapChildren, hb]

theorem finish?_foldl_add (after : List (Placed Node)) (h : b.opened = []) :
    (after.foldl (fun b remark => b.add (.node remark.value [])) b).finish? =
      some (b.outside.reverse ++ (after.map Placed.value).map (Tree.node · [])) := by
  induction after generalizing b with
  | nil => rw [List.foldl_nil, Builder.finish?, h, List.map_nil, List.map_nil, List.append_nil]; rfl
  | cons remark after ih =>
    have hadd : (b.add (.node remark.value [])).opened = [] ∧
        (b.add (.node remark.value [])).outside = .node remark.value [] :: b.outside := by
      rw [Builder.add, Builder.mapChildren, h]
      exact ⟨rfl, rfl⟩
    rw [List.foldl_cons, ih hadd.1, hadd.2]
    simp

def Source.body? (t : Text) : Option Text :=
  if Text.startsWith "<?xml ".toList (dropMark t) then
    declaration? ((dropMark t).drop "<?xml".length)
  else some (dropMark t)

theorem Source.parse?_eq (t : Text) :
    parse? t = (body? t).bind fun u =>
      (remarks? t.length u).bind fun before =>
        (doctypePart? t.length before.2).bind fun doctype =>
          (element? doctype.2.2).bind fun found =>
            (remarks? t.length found.2).bind fun after =>
              (build (doctype.1.elim [] (·.value.entities)) nestingLimit true found.1
                  .start).bind fun b =>
                (after.1.foldl (fun b remark => b.add (.node remark.value [])) b).finish?.bind
                  fun content =>
                    if after.2 = [] ∧ content.any isElement then
                      some
                        { prolog := t.take (t.length - doctype.2.2.length)
                          remarks := before.1 ++ doctype.2.1
                          doctype := doctype.1
                          content }
                    else none := by
  simp only [parse?, body?, Option.bind_eq_bind]
  split <;> rfl

/-- The parts in which a document without a document type is read. -/
theorem Source.parse?_eq_some {source : Source} (h : parse? t = some source)
    (hdoctype : source.doctype = none) :
    ∃ u t₂ tokens t₃ after b, body? t = some u ∧
      remarks? t.length u = some (source.remarks, t₂) ∧ element? t₂ = some (tokens, t₃) ∧
      remarks? t.length t₃ = some (after, []) ∧
      build [] nestingLimit true tokens .start = some b ∧
      (after.foldl (fun b remark => b.add (.node remark.value [])) b).finish? =
        some source.content ∧
      source.content.any isElement = true ∧
      source.prolog = t.take (t.length - t₂.length) := by
  rw [parse?_eq] at h
  simp only [Option.bind_eq_some_iff, Prod.exists] at h
  obtain ⟨u, hu, before, t₁, hbefore, doctype, behind, t₂, hpart, tokens, t₃, hfound, after, t₄,
    hafter, b, hb, content, hcontent, h⟩ := h
  split at h
  next hend =>
    obtain rfl := Option.some.inj h
    obtain rfl : doctype = none := hdoctype
    have hnone : behind = [] ∧ t₂ = t₁ := by
      unfold doctypePart? at hpart
      split at hpart
      next =>
        obtain ⟨-, hrest⟩ := Prod.mk.inj (Option.some.inj hpart)
        obtain ⟨rfl, rfl⟩ := Prod.mk.inj hrest
        exact ⟨rfl, rfl⟩
      next =>
        simp only [Option.bind_eq_bind, Option.bind_eq_some_iff, Option.pure_def, Option.some.injEq,
          Prod.mk.injEq, reduceCtorEq, false_and, and_false, exists_false] at hpart
    obtain ⟨rfl, rfl⟩ := hnone
    obtain ⟨rfl, helement⟩ := hend
    refine ⟨u, t₂, tokens, t₃, after, b, hu, ?_, hfound, hafter, hb, hcontent, helement, rfl⟩
    rw [hbefore, List.append_nil]
  next => cases h

theorem suffix_of_body? {u : Text} (h : Source.body? t = some u) : u <:+ t := by
  have hmark : Source.dropMark t <:+ t := by
    unfold Source.dropMark
    split
    · exact List.suffix_cons _ _
    · exact List.suffix_refl _
  unfold Source.body? at h
  split at h
  next =>
    obtain ⟨s, w, s', hsplit, -⟩ := declaration?_eq_some h
    refine List.IsSuffix.trans ?_ ((List.drop_suffix "<?xml".length _).trans hmark)
    exact ⟨s ++ (w ++ (s' ++ "?>".toList)), by rw [hsplit]; simp⟩
  next =>
    obtain rfl := Option.some.inj h
    exact hmark

/-- A document that is read without a document type is sound. -/
theorem Source.sound_of_parse? {source : Source} (ht : '\r' ∉ t) (h : parse? t = some source)
    (hdoctype : source.doctype = none) : source.Sound := by
  obtain ⟨u, t₂, tokens, t₃, after, b, hu, hbefore, hfound, hafter, hb, hcontent, helement,
    hprolog⟩ := parse?_eq_some h hdoctype
  obtain ⟨front, hfront⟩ := suffix_of_body? hu
  have hcr : '\r' ∉ u := fun hmem => ht (hfront ▸ List.mem_append_right front hmem)
  obtain ⟨between, hbetween, hremarks⟩ := remarks?_eq_some hcr hbefore
  have hcr₂ : '\r' ∉ t₂ := fun hmem => hcr (hbetween ▸ List.mem_append_right between hmem)
  obtain ⟨hbuilt, hsuffix⟩ := built_of_element? hcr₂ hfound hb
  obtain ⟨_, -, hall⟩ := remarks?_eq_some (fun hmem => hcr₂ (hsuffix.subset hmem)) hafter
  have hinside : between <:+: source.prolog := by
    have hsplit : t = (front ++ between) ++ t₂ := by
      rw [← hfront, hbetween, List.append_assoc]
    rw [hprolog, hsplit, List.length_append, Nat.add_sub_cancel, List.take_left]
    exact (List.suffix_append front between).isInfix
  refine ⟨?_, ?_⟩
  · intro remark hremark
    obtain ⟨hsound, hv, hbody⟩ := hremarks remark hremark
    exact ⟨hsound, hv, hbody.trans hinside⟩
  · rcases hbuilt with hopened | ⟨hopened, houtside⟩ | ⟨hopened, root, houtside, hroot, heach⟩
    · rw [finish?_foldl_add_of_ne_nil after hopened] at hcontent
      cases hcontent
    · rw [finish?_foldl_add after hopened, houtside] at hcontent
      rw [← Option.some.inj hcontent, List.reverse_nil, List.nil_append, List.any_map,
        List.any_eq_true] at helement
      obtain ⟨v, hv, hroot⟩ := helement
      obtain ⟨remark, hremark, rfl⟩ := List.mem_map.1 hv
      have hisRemark := (hall remark hremark).2.1
      cases hvalue : remark.value with
      | element =>
        rw [hvalue] at hisRemark
        cases hisRemark
      | _ =>
        simp [hvalue, isElement] at hroot
    · rw [finish?_foldl_add after hopened, houtside] at hcontent
      refine ⟨root, after.map Placed.value, (Option.some.inj hcontent).symm, hroot, heach, ?_⟩
      intro v hv
      obtain ⟨remark, hremark, rfl⟩ := List.mem_map.1 hv
      exact ⟨(hall remark hremark).1, (hall remark hremark).2.1⟩

/-- A document without a document type is read from its parts. -/
theorem Source.parse?_of_parts {u t₂ t₃ : Text} {remarks after : List (Placed Node)}
    {root : Tree Node} (hbody : body? t = some u)
    (hremarks : remarks? t.length u = some (remarks, t₂))
    (hdoctype : Text.dropPrefix? "<!DOCTYPE".toList t₂ = none)
    (helement : element? t₂ = some (tokens, t₃)) (hafter : remarks? t.length t₃ = some (after, []))
    (hb : build [] nestingLimit true tokens .start = some b) (hopened : b.opened = [])
    (houtside : b.outside = [root]) (hroot : isElement root = true) :
    parse? t = some
      { prolog := t.take (t.length - t₂.length)
        remarks
        doctype := none
        content := root :: (after.map Placed.value).map (Tree.node · []) } := by
  have hpart : doctypePart? t.length t₂ = some (none, [], t₂) := by
    rw [doctypePart?, hdoctype]
  have hfinish := finish?_foldl_add after hopened
  rw [houtside, List.reverse_singleton, List.singleton_append] at hfinish
  rw [parse?_eq, hbody]
  simp only [Option.bind_some, hremarks, hpart, helement, hafter, Option.elim_none, hb, hfinish,
    List.append_nil]
  exact if_pos ⟨trivial, by rw [List.any_cons, hroot, Bool.true_or]⟩

end Documents

end Xml

end PrettyPayload
