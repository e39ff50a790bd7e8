import PrettyPayload.Markup.OfHtml
import PrettyPayload.Markup.Serializer
import PrettyPayload.Proofs.Html.Page.RawText
import PrettyPayload.Proofs.Html.RawText
import PrettyPayload.Proofs.Markup.OfXml

/-!
# Trees that nest as they are written

`written` writes a tree without any layout. Where a tree nests (`nests`), no tag that is written
closes anything but its own element when it is read, no text is changed, and no end tag is left out.
Only trees of a body nest. Doctypes, the parts of a page as a whole, tables and their parts, lists
of options, foreign content and templates have rules of their own, and a tree with one of them does
not nest.
-/

namespace PrettyPayload

namespace Html

open Markup PrettyPayload.Tree

/-! ## Definitions -/

/-- The line feed behind a start tag that reading takes away. -/
def leadFeed (e : Element) (ts : List (Tree Markup.Node)) : Text :=
  leadingLineFeed .html e (ts.map value)

mutual

/-- A tree as HTML. A node that cannot stand in a body is not written. -/
def written : Tree Markup.Node → Text
  | .node v ts =>
    match v with
    | .element e =>
      startTag .html e false ++ (leadFeed e ts ++ writtenAll ts) ++
        if isVoid .html e then [] else endTag e
    | .text t => escapeText .html t
    | .data t => t
    | .comment t => commentText t
    | _ => []

def writtenAll : List (Tree Markup.Node) → Text
  | [] => []
  | t :: ts => written t ++ writtenAll ts

end

mutual

def toHtml : Tree Markup.Node → Tree Node
  | .node v ts =>
    match v with
    | .element e =>
      .node (.element (htmlName (tagOf e).name) (tagOf e).attributes) (toHtmlAll ts)
    | .text t => .node (.text t) []
    | .data t => .node (.text t) []
    | .comment t => .node (.comment t) []
    | _ => .node .fragment []

/-- The trees of a page that several trees are read from. -/
def toHtmlAll : List (Tree Markup.Node) → List (Tree Node)
  | [] => []
  | t :: ts => toHtml t :: toHtmlAll ts

end

/-- A text of which reading changes no character, wherever it stands. -/
def IsSafeText (t : Text) : Prop := IsPlainText t ∧ '\uFEFF' ∉ t

instance (t : Text) : Decidable (IsSafeText t) := inferInstanceAs (Decidable (_ ∧ _))

/-- Whether an element may be opened in some others, innermost first, without closing any. -/
def fits (path : List String) (name : String) : Bool :=
  (modeOf path).isOfBody &&
    if (rawContent? name).isSome then admitsRaw path name else admits path name

def holdsRaw (content : Content) : List (Tree Markup.Node) → Bool
  | [] => true
  | [.node (.text t) []] =>
    match content with
    | .rcdata _ => t ≠ [] ∧ IsPlainText t
    | _ => false
  | [.node (.data t) []] =>
    match content with
    | .rawtext name => t ≠ [] ∧ IsRawText name.toList t
    | .script => t ≠ [] ∧ IsScriptText t
    | _ => false
  | _ => false

mutual

/-- Whether a tree nests in some open elements, innermost first. -/
def nests (path : List String) : Tree Markup.Node → Bool
  | .node v ts =>
    match v with
    | .element e =>
      IsTag e && fits path (tagOf e).name &&
        match rawContent? (tagOf e).name with
        | some content => holdsRaw content ts
        | none =>
          if roleOf? (tagOf e).name = some .void then ts.isEmpty
          else nestsAll ((tagOf e).name :: path) ts
    | .text t => ts.isEmpty && (modeOf path).isOfBody && t ≠ [] && IsSafeText t
    | .comment t => ts.isEmpty && (modeOf path).isOfBody && IsCommentText t
    | _ => false

/-- Whether several trees nest in some open elements. No two texts stand side by side. -/
def nestsAll (path : List String) : List (Tree Markup.Node) → Bool
  | [] => true
  | t :: ts =>
    nests path t && (!t.value.isText || !(ts.head?).any fun u => u.value.isText) &&
      nestsAll path ts

end

/-! ## Elements -/

variable {e : Element}

theorem endTag_eq_closing (e : Element) : endTag e = closing e.name := rfl

theorem toList_name (e : Element) : (tagOf e).name.toList = e.name := String.toList_ofList

theorem leadFeed_eq_nil (h : lineFeedElements.contains e.name = false)
    (ts : List (Tree Markup.Node)) : leadFeed e ts = [] := by
  rw [leadFeed, leadingLineFeed, h]
  simp

theorem holdsRaw_cases {raw : Content} {ts : List (Tree Markup.Node)}
    (h : holdsRaw raw ts = true) :
    ts = [] ∨ ∃ t, t ≠ [] ∧ IsPlainText t ∧
      ((∃ name, raw = .rcdata name) ∧ ts = [.node (.text t) []] ∨
        ((∃ name, raw = .rawtext name ∧ IsRawText name.toList t) ∨
          raw = .script ∧ IsScriptText t) ∧ ts = [.node (.data t) []]) := by
  unfold holdsRaw at h
  split at h
  next => exact Or.inl rfl
  next t =>
    split at h
    next name =>
      rw [decide_eq_true_eq] at h
      exact Or.inr ⟨t, h.1, h.2, Or.inl ⟨⟨name, rfl⟩, rfl⟩⟩
    next => cases h
  next t =>
    split at h
    next name =>
      rw [decide_eq_true_eq] at h
      exact Or.inr ⟨t, h.1, h.2.1, Or.inr ⟨Or.inl ⟨name, rfl, h.2⟩, rfl⟩⟩
    next =>
      rw [decide_eq_true_eq] at h
      exact Or.inr ⟨t, h.1, h.2.1, Or.inr ⟨Or.inr ⟨rfl, h.2⟩, rfl⟩⟩
    next => cases h
  next => cases h

/-- How the content of an element without markup is read depends on its name. -/
theorem rawContent?_cases {name : String} {raw : Content} (h : rawContent? name = some raw) :
    name = "script" ∧ raw = .script ∨ name ∈ rcdataTags ∧ raw = .rcdata name ∨
      name ∈ rawtextTags ∧ raw = .rawtext name := by
  unfold rawContent? at h
  split at h
  next hname => exact Or.inl ⟨hname, (Option.some.inj h).symm⟩
  next =>
    split at h
    next hname =>
      exact Or.inr (Or.inl ⟨List.contains_iff_mem.1 hname, (Option.some.inj h).symm⟩)
    next =>
      split at h
      next hname =>
        exact Or.inr (Or.inr ⟨List.contains_iff_mem.1 hname, (Option.some.inj h).symm⟩)
      next => cases h

/-- Only a text area starts with a line feed that is taken away. -/
theorem leadFeed_of_raw {raw : Content}
    (hraw : rawContent? (tagOf e).name = some raw) (ts : List (Tree Markup.Node))
    (hne : (tagOf e).name ≠ "textarea") : leadFeed e ts = [] := by
  have hlist : ∀ n ∈ "script" :: rcdataTags ++ rawtextTags, n ≠ "textarea" →
      lineFeedElements.contains n.toList = false := by decide
  refine leadFeed_eq_nil ?_ ts
  rw [← toList_name e]
  exact hlist _ (mem_of_rawContent? hraw) hne

/-- A line feed that is taken away is written like a text. -/
theorem leadFeed_cases (e : Element) (ts : List (Tree Markup.Node)) :
    leadFeed e ts = [] ∨ leadFeed e ts = ['\n'] := by
  rw [leadFeed, leadingLineFeed]
  split
  · exact Or.inr rfl
  · exact Or.inl rfl

theorem isVoid_of_void (h : roleOf? (tagOf e).name = some .void) :
    isVoid .html e = true := by
  have hlist : ∀ n ∈ voidTags, voidElements.contains n.toList = true := by decide
  rw [isVoid, ← toList_name e, hlist _ (mem_tags_of_roleOf? h (by decide))]
  rfl

theorem not_void_of_raw {name : String} {raw : Content} (h : rawContent? name = some raw) :
    roleOf? name ≠ some .void := by
  have hlist : ∀ n ∈ "script" :: rcdataTags ++ rawtextTags, roleOf? n ≠ some .void := by
    decide
  exact hlist name (mem_of_rawContent? h)

/-- An element that is written without an end tag has no content, or does not stand in a body. -/
theorem isVoid_eq_false (hvoid : roleOf? (tagOf e).name ≠ some .void)
    (hbody : (∃ r, roleOf? (tagOf e).name = some r) ∨ (rawContent? (tagOf e).name).isSome) :
    isVoid .html e = false := by
  have hlist : ∀ n ∈ voidElements, roleOf? (String.ofList n) = some .void ∨
      roleOf? (String.ofList n) = none ∧ (rawContent? (String.ofList n)).isSome = false := by
    decide
  rw [isVoid, Bool.and_eq_false_iff, Bool.eq_false_iff, Bool.eq_false_iff]
  refine Or.inr fun hmem => ?_
  rcases hlist e.name (List.contains_iff_mem.1 hmem) with hrole | ⟨hrole, hraw⟩
  · exact hvoid hrole
  · rcases hbody with ⟨r, hr⟩ | hraw'
    · cases hr.symm.trans hrole
    · exact absurd hraw' (hraw ▸ Bool.false_ne_true)

/-- An element that is open while its content is read. -/
theorem fits_iff {path : List String} {name : String} :
    fits path name = true ↔ (modeOf path).isOfBody = true ∧
      (if (rawContent? name).isSome then admitsRaw path name else admits path name) = true := by
  rw [fits, Bool.and_eq_true]

end Html

end PrettyPayload
