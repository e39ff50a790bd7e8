import PrettyPayload.Proofs.Html.Nested
import PrettyPayload.Proofs.Markup.Durable

/-!
# What lasts of a tree

A tree that nests has its content in its elements (`Formed`): texts and comments are leaves, text
without references is in preformatted and style elements only. Where besides the styles last and no
line feed is put behind the start tag of an element in preformatted content (`Durable`), the layout
of the tree can be read again.
-/

namespace PrettyPayload

namespace Markup

open Html
open PrettyPayload.Tree

variable {indent : Text} {e : Element} {path : List String} {ts : List (Tree Node)}

/-! ## Definitions -/

def Node.IsContent : Node → Prop
  | .element _ | .text _ | .data _ | .comment _ => True
  | _ => False

def Node.isData : Node → Bool
  | .data _ => true
  | _ => false

/-- A node and its children as they stand in a tree that nests. -/
structure Formed (v : Node) (ts : List (Tree Node)) : Prop where
  content : v.IsContent
  leaf : v.element? = none → ts = []
  apart : Apart Node.isText ts
  name : ∀ e, v = .element e → IsTagName e.name = true
  void : ∀ e, v = .element e → isVoid .html e = true → ts = []
  style : v.isStyle = true → ts = [] ∨ ∃ t, IsPlainText t ∧ ts = [.node (.data t) []]
  escaped : ∀ e, v = .element e → isPreformatted .html e = false → e.isStyle = false →
    ∀ t ∈ ts, t.value.isData = false

/-- No line feed is put behind the start tag of an element. -/
def Feedless (v : Node) (ts : List (Tree Node)) : Prop := ∀ e, v = .element e → leadFeed e ts = []

/-- The styles of a node last, and in preformatted content no line feed is added. -/
structure Durable (indent : Text) (v : Node) (ts : List (Tree Node)) : Prop where
  attributes : ∀ e, v = .element e → DurableAttribute e
  sheet : v.isStyle = true → ∃ sheet, DurableSheet indent (textOf (ts.map value)) sheet
  feedless : ∀ e, v = .element e → isPreformatted .html e = true → EachOfAll Feedless ts

theorem durable_leaf {v : Node} (h : v.element? = none) : Durable indent v ts where
  attributes e he := by cases (congrArg Node.element? he).symm.trans h
  sheet hstyle := by
    rw [Node.isStyle, h] at hstyle
    cases hstyle
  feedless e he := by cases (congrArg Node.element? he).symm.trans h

theorem durable_element (hattribute : DurableAttribute e)
    (hsheet : e.isStyle = true → ∃ sheet, DurableSheet indent (textOf (ts.map value)) sheet)
    (hfeedless : isPreformatted .html e = true → EachOfAll Feedless ts) :
    Durable indent (.element e) ts where
  attributes _ he := Node.element.inj he ▸ hattribute
  sheet := hsheet
  feedless _ he := Node.element.inj he ▸ hfeedless

theorem Durable.styleRead {v : Node} (h : Durable indent v ts) : StyleRead v ts where
  exists_sheet hstyle := (h.sheet hstyle).imp fun _ hsheet => hsheet.read
  exists_declarations e _ he hvalue := (h.attributes e he).exists_declarations hvalue

namespace Formed

variable {v : Node} (h : Formed v ts)
include h

theorem styleLeaf : StyleLeaf v ts := by
  intro hstyle
  rcases h.style hstyle with rfl | ⟨t, -, rfl⟩
  · trivial
  · exact ⟨⟨rfl, trivial⟩, trivial⟩

theorem plain (hstyle : v.isStyle = true) : IsPlainText (textOf (ts.map value)) := by
  rcases h.style hstyle with rfl | ⟨t, ht, rfl⟩
  · decide
  · have htext : textOf ([Tree.node (Node.data t) []].map value) = t := List.append_nil t
    rwa [htext]

end Formed

/-! ## Trees that nest -/

theorem isStyle_iff (h : IsTagName e.name = true) :
    e.isStyle = true ↔ (tagOf e).name = "style" := by
  have hlower : Text.lower e.name = e.name := lower_eq_self fun c hc => (mem_isTagName h c hc).2.1
  have hstyle : Text.lower "style".toList = "style".toList := by decide
  rw [Element.isStyle, Text.equalsIgnoringCase, hlower, hstyle, decide_eq_true_eq, ← toList_name e,
    String.toList_inj, eq_comm]

theorem rawContent?_of_isStyle (h : IsTagName e.name = true) (hstyle : e.isStyle = true) :
    rawContent? (tagOf e).name = some (.rawtext "style") := by
  rw [(isStyle_iff h).1 hstyle]
  decide

theorem isStyle_of_rawContent?_eq_none (he : IsTagName e.name = true)
    (h : rawContent? (tagOf e).name = none) : e.isStyle = false := by
  rw [Bool.eq_false_iff]
  intro hstyle
  cases h.symm.trans (rawContent?_of_isStyle he hstyle)

/-- Content without references is that of preformatted elements and styles. -/
theorem isPreformatted_or_isStyle {raw : Content} (he : IsTagName e.name = true)
    (hraw : rawContent? (tagOf e).name = some raw) :
    isPreformatted .html e = true ∨ e.isStyle = true ∨ ∃ name, raw = .rcdata name := by
  have hlist : ∀ n ∈ "script" :: rawtextTags,
      preformattedElements.contains n.toList = true ∨ n = "style" := by decide
  have hpre : isPreformatted .html e = preformattedElements.contains (tagOf e).name.toList := by
    rw [toList_name]
    rfl
  have hother : (tagOf e).name ∈ "script" :: rawtextTags →
      isPreformatted .html e = true ∨ e.isStyle = true := by
    intro hmem
    rw [hpre, isStyle_iff he]
    exact hlist _ hmem
  rcases rawContent?_cases hraw with ⟨hname, -⟩ | ⟨-, hkind⟩ | ⟨hname, -⟩
  · exact (hother (hname ▸ List.mem_cons_self)).imp_right Or.inl
  · exact Or.inr (Or.inr ⟨_, hkind⟩)
  · exact (hother (List.mem_cons_of_mem _ hname)).imp_right Or.inl

theorem apart_of_nestsAll (h : nestsAll path ts = true) : Apart Node.isText ts := by
  induction ts with
  | nil => trivial
  | cons t ts ih =>
    rw [nestsAll, Bool.and_eq_true, Bool.and_eq_true] at h
    refine ⟨fun htext u hu => ?_, ih h.2⟩
    have hapart := h.1.2
    rw [htext, hu] at hapart
    simpa using hapart

theorem nests_of_mem (h : nestsAll path ts = true) : ∀ t ∈ ts, nests path t = true := by
  induction ts with
  | nil => nofun
  | cons t ts ih =>
    rw [nestsAll, Bool.and_eq_true, Bool.and_eq_true] at h
    exact List.forall_mem_cons.2 ⟨h.1.1, ih h.2⟩

/-- Text without references is no markup. -/
theorem isData_of_nests {t : Tree Node} (h : nests path t = true) : t.value.isData = false := by
  obtain ⟨v, ts⟩ := t
  cases v with
  | data t => cases h
  | _ => rfl

theorem formed_nil {v : Node} (hcontent : v.IsContent)
    (hname : ∀ e, v = .element e → IsTagName e.name = true) : Formed v [] where
  content := hcontent
  leaf _ := rfl
  apart := trivial
  name := hname
  void _ _ _ := rfl
  style _ := Or.inl rfl
  escaped _ _ _ _ := nofun

theorem formed_element_nil (he : IsTagName e.name = true) : Formed (.element e) [] :=
  formed_nil trivial fun _ heq => Node.element.inj heq ▸ he

theorem formed_leaf {v : Node} (hcontent : v.IsContent) (helement : v.element? = none) :
    Formed v [] :=
  formed_nil hcontent fun e heq => by cases (congrArg Node.element? heq).symm.trans helement

theorem formed_singleton {v : Node} (he : IsTagName e.name = true) (hvoid : isVoid .html e = false)
    (hcontent : v.IsContent) (helement : v.element? = none)
    (hstyle : e.isStyle = true → ∃ t, IsPlainText t ∧ v = .data t)
    (hescaped : isPreformatted .html e = false → e.isStyle = false → v.isData = false) :
    (Tree.node (.element e) [.node v []]).Each Formed := by
  refine ⟨⟨trivial, nofun, ⟨fun _ u hu => ?_, trivial⟩, ?_, ?_, fun hs => ?_, ?_⟩,
    ⟨formed_leaf hcontent helement, trivial⟩, trivial⟩
  · cases hu
  · rintro _ ⟨rfl⟩
    exact he
  · rintro _ ⟨rfl⟩ hv
    cases hvoid.symm.trans hv
  · obtain ⟨t, ht, rfl⟩ := hstyle hs
    exact Or.inr ⟨t, ht, rfl⟩
  · rintro _ ⟨rfl⟩ hpre hs u hu
    obtain rfl := List.mem_singleton.1 hu
    exact hescaped hpre hs

theorem formed_of_holdsRaw {raw : Content} (he : IsTagName e.name = true)
    (hraw : rawContent? (tagOf e).name = some raw) (h : holdsRaw raw ts = true) :
    (Tree.node (.element e) ts).Each Formed := by
  have hvoid := isVoid_eq_false (not_void_of_raw hraw) (Or.inr (by rw [hraw]; rfl))
  rcases holdsRaw_cases h with rfl | ⟨t, -, ht, ⟨⟨name, rfl⟩, rfl⟩ | ⟨hkind, rfl⟩⟩
  · exact ⟨formed_element_nil he, trivial⟩
  · refine formed_singleton he hvoid trivial rfl (fun hstyle => ?_) fun _ _ => rfl
    cases hraw.symm.trans (rawContent?_of_isStyle he hstyle)
  · refine formed_singleton he hvoid trivial rfl (fun _ => ⟨t, ht, rfl⟩) fun hpre hstyle => ?_
    rcases isPreformatted_or_isStyle he hraw with hpre' | hstyle' | ⟨name, rfl⟩
    · cases hpre.symm.trans hpre'
    · cases hstyle.symm.trans hstyle'
    · rcases hkind with ⟨_, hkind, -⟩ | ⟨hkind, -⟩ <;> cases hkind

mutual

theorem formed_of_nests : (t : Tree Node) → {path : List String} → nests path t = true →
    t.Each Formed
  | .node v ts, path, h => by
    cases v with
    | text t =>
      simp only [nests, Bool.and_eq_true, List.isEmpty_iff] at h
      obtain rfl := h.1.1.1
      exact ⟨formed_leaf trivial rfl, trivial⟩
    | comment t =>
      simp only [nests, Bool.and_eq_true, List.isEmpty_iff] at h
      obtain rfl := h.1.1
      exact ⟨formed_leaf trivial rfl, trivial⟩
    | element e =>
      rw [nests, Bool.and_eq_true, Bool.and_eq_true, decide_eq_true_eq, fits_iff] at h
      obtain ⟨⟨he, -, hfits⟩, hts⟩ := h
      cases hraw : rawContent? (tagOf e).name with
      | some raw =>
        rw [hraw] at hts
        exact formed_of_holdsRaw he.name hraw hts
      | none =>
        rw [hraw] at hts hfits
        have hstyle := isStyle_of_rawContent?_eq_none he.name hraw
        dsimp only at hts
        split at hts
        next =>
          obtain rfl := List.isEmpty_iff.1 hts
          exact ⟨formed_element_nil he.name, trivial⟩
        next hvoid =>
          have hadmits : admits path (tagOf e).name = true := hfits
          have hrole := exists_role_of_admits hadmits
          refine ⟨⟨trivial, nofun, apart_of_nestsAll hts, ?_, ?_, ?_, ?_⟩,
            formedAll_of_nestsAll ts hts⟩
          · rintro _ ⟨rfl⟩
            exact he.name
          · rintro _ ⟨rfl⟩ hv
            cases (isVoid_eq_false hvoid (Or.inl hrole)).symm.trans hv
          · intro hv
            cases hstyle.symm.trans hv
          · exact fun _ _ _ _ u hu => isData_of_nests (nests_of_mem hts u hu)
    | _ => cases h

theorem formedAll_of_nestsAll : (ts : List (Tree Node)) → {path : List String} →
    nestsAll path ts = true → EachOfAll Formed ts
  | [], _, _ => trivial
  | t :: ts, path, h => by
    rw [nestsAll, Bool.and_eq_true, Bool.and_eq_true] at h
    exact ⟨formed_of_nests t h.1.1, formedAll_of_nestsAll ts h.2⟩

end

end Markup

end PrettyPayload
