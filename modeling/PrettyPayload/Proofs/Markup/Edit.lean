import Mathlib.Logic.Relation
import PrettyPayload.Proofs.Markup.Copy
import PrettyPayload.Proofs.Markup.Segments
import PrettyPayload.Proofs.Markup.Serializer

/-!
# White space that is laid out anew

Where content is laid out, blank texts are not written, and of any other text only its segments are.
So a document may be edited there without a change to what is written: blank texts come and go, and
a text may be replaced by another one with the same segments. An edit changes the children of one
node and leaves the node itself alone, so what a node is written like depends on its children in
three respects only (`entries_congr`), and each edit respects them.
-/

namespace PrettyPayload

namespace Markup

open PrettyPayload.Tree

variable {flavor : Flavor} {options : Options} {ancestors : Nat} {value : Node}
  {before behind ts us : List (Tree Node)} {t u : Text}

/-! ## Edits -/

def IsLaidOut (flavor : Flavor) : Node → Prop
  | .element e =>
    isVoid flavor e = false ∧ isPreformatted flavor e = false ∧
      ¬(flavor = .html ∧ e.isStyle = true)
  | _ => True

/-- An edit of white space somewhere in a tree, with nothing above that keeps its content as it
is. -/
inductive Edit (flavor : Flavor) : Tree Node → Tree Node → Prop
  /-- A blank text comes. -/
  | insert {value : Node} (before behind : List (Tree Node)) {t : Text} (ts : List (Tree Node))
      (hvalue : IsLaidOut flavor value) (hblank : t.all Text.isAsciiBlank = true) :
      Edit flavor (.node value (before ++ behind))
        (.node value (before ++ .node (.text t) ts :: behind))
  /-- A blank text goes. -/
  | erase {value : Node} (before behind : List (Tree Node)) {t : Text} (ts : List (Tree Node))
      (hvalue : IsLaidOut flavor value) (hblank : t.all Text.isAsciiBlank = true) :
      Edit flavor (.node value (before ++ .node (.text t) ts :: behind))
        (.node value (before ++ behind))
  /-- The lines of a text are trimmed or indented in another way. -/
  | replace {value : Node} (before behind : List (Tree Node)) {t u : Text} (ts : List (Tree Node))
      (hvalue : IsLaidOut flavor value) (hsegments : segments t = segments u) :
      Edit flavor (.node value (before ++ .node (.text t) ts :: behind))
        (.node value (before ++ .node (.text u) ts :: behind))
  /-- A child is edited. -/
  | within {value : Node} (before behind : List (Tree Node)) {s t : Tree Node}
      (hvalue : IsLaidOut flavor value) (hedit : Edit flavor s t) :
      Edit flavor (.node value (before ++ s :: behind)) (.node value (before ++ t :: behind))

theorem Edit.value_eq {s t : Tree Node} (h : Edit flavor s t) : s.value = t.value := by
  cases h <;> rfl

/-! ## What counts of the children of a node -/

theorem isBlankNode_text : isBlankNode (.text t) = true ↔ segments t = [] :=
  segments_eq_nil_iff.symm

theorem entriesOfAll_insert (before behind : List (Tree Node)) (t : Tree Node) :
    entriesOfAll flavor options ancestors (before ++ t :: behind) =
      entriesOfAll flavor options ancestors before ++
        (entries flavor options ancestors t ++ entriesOfAll flavor options ancestors behind) := by
  rw [entriesOfAll_append, entriesOfAll]

theorem entries_text (ancestors : Nat) (t : Text) (ts : List (Tree Node)) :
    entries flavor options ancestors (.node (.text t) ts) =
      (segments t).map fun line =>
        Text.times (ancestors - 1) options.indent ++ escapeText flavor line := by
  rw [entries]

theorem filter_insert_blank (before behind : List Node) {node : Node}
    (h : isBlankNode node = true) :
    (before ++ node :: behind).filter (fun node => !isBlankNode node) =
      (before ++ behind).filter fun node => !isBlankNode node := by
  simp [h]

/-- A text among other nodes is no single line, whatever it is. -/
theorem singleSegment?_replace (before behind : List Node) (h : segments t = segments u) :
    singleSegment? (before ++ .text t :: behind) =
      singleSegment? (before ++ .text u :: behind) := by
  have hpair (node next : Node) (nodes : List Node) :
      singleSegment? (node :: next :: nodes) = none := by
    rw [singleSegment?]
    intro s hs
    cases hs
  cases before with
  | nil =>
    cases behind with
    | nil => simp only [List.nil_append, singleSegment?, h]
    | cons node nodes => simp only [List.nil_append, hpair]
  | cons node before =>
    cases before with
    | nil => simp only [List.cons_append, List.nil_append, hpair]
    | cons next before => simp only [List.cons_append, hpair]

theorem onlyLine?_replace (before behind : List Node) (h : segments t = segments u) :
    onlyLine? options (before ++ .text t :: behind) =
      onlyLine? options (before ++ .text u :: behind) := by
  have hfilter (s : Text) (hs : ¬segments s = []) :
      (before ++ .text s :: behind).filter (fun node => !isBlankNode node) =
        (before.filter fun node => !isBlankNode node) ++
          .text s :: behind.filter fun node => !isBlankNode node := by
    simp [mt isBlankNode_text.1 hs]
  rw [onlyLine?_eq_singleSegment?, onlyLine?_eq_singleSegment?]
  by_cases hblank : segments t = []
  · rw [filter_insert_blank before behind (isBlankNode_text.2 hblank),
      filter_insert_blank before behind (isBlankNode_text.2 (h ▸ hblank))]
  · rw [hfilter t hblank, hfilter u (h ▸ hblank), singleSegment?_replace _ _ h]

/-- A node that lays its content out is written like another one with the same entries below it,
unless they are told apart by a blank content or by a single line. -/
theorem entries_congr (hvalue : IsLaidOut flavor value)
    (hentries : ∀ ancestors, entriesOfAll flavor options ancestors ts =
      entriesOfAll flavor options ancestors us)
    (hblank : (ts.map Tree.value).all isBlankNode = (us.map Tree.value).all isBlankNode)
    (hline : onlyLine? options (ts.map Tree.value) = onlyLine? options (us.map Tree.value)) :
    entries flavor options ancestors (.node value ts) =
      entries flavor options ancestors (.node value us) := by
  cases value with
  | document => rw [entries, entries, hentries]
  | element e =>
    obtain ⟨hvoid, hpreformatted, hstyle⟩ := hvalue
    simp only [entries, hvoid, hpreformatted, if_neg hstyle, Bool.false_eq_true, if_false, hblank,
      hline, hentries]
  | _ => rw [entries, entries]

/-! ## Edits keep the entries -/

theorem entries_insert (hvalue : IsLaidOut flavor value) (hblank : t.all Text.isAsciiBlank = true) :
    entries flavor options ancestors (.node value (before ++ .node (.text t) ts :: behind)) =
      entries flavor options ancestors (.node value (before ++ behind)) := by
  have hnode : isBlankNode (.text t) = true := hblank
  have hmap : (before ++ node (.text t) ts :: behind).map Tree.value =
      before.map Tree.value ++ .text t :: behind.map Tree.value := List.map_append
  refine entries_congr hvalue (fun ancestors => ?_) ?_ ?_
  · rw [entriesOfAll_insert, entries_text, segments_eq_nil_iff.2 hblank, List.map_nil,
      List.nil_append, entriesOfAll_append]
  · rw [hmap, List.map_append, List.all_append, List.all_append, List.all_cons, hnode,
      Bool.true_and]
  · rw [hmap, List.map_append, onlyLine?_eq_singleSegment?, onlyLine?_eq_singleSegment?,
      filter_insert_blank _ _ hnode]

theorem entries_replace (hvalue : IsLaidOut flavor value) (hsegments : segments t = segments u) :
    entries flavor options ancestors (.node value (before ++ .node (.text t) ts :: behind)) =
      entries flavor options ancestors (.node value (before ++ .node (.text u) ts :: behind)) := by
  have hmap (t : Text) : (before ++ node (.text t) ts :: behind).map Tree.value =
      before.map Tree.value ++ .text t :: behind.map Tree.value := List.map_append
  have hnode : isBlankNode (.text t) = isBlankNode (.text u) := by
    rw [Bool.eq_iff_iff, isBlankNode_text, isBlankNode_text, hsegments]
  refine entries_congr hvalue (fun ancestors => ?_) ?_ ?_
  · rw [entriesOfAll_insert, entriesOfAll_insert, entries_text, entries_text, hsegments]
  · rw [hmap, hmap, List.all_append, List.all_append, List.all_cons, List.all_cons, hnode]
  · rw [hmap, hmap, onlyLine?_replace _ _ hsegments]

theorem Edit.entries_eq {s t : Tree Node} (h : Edit flavor s t) :
    ∀ ancestors, entries flavor options ancestors s = entries flavor options ancestors t := by
  induction h with
  | insert before behind ts hvalue hblank => exact fun _ => (entries_insert hvalue hblank).symm
  | erase before behind ts hvalue hblank => exact fun _ => entries_insert hvalue hblank
  | replace before behind ts hvalue hsegments => exact fun _ => entries_replace hvalue hsegments
  | within before behind hvalue hedit ih =>
    intro ancestors
    refine entries_congr hvalue (fun ancestors => ?_) ?_ ?_
    · rw [entriesOfAll_insert, entriesOfAll_insert, ih]
    · simp only [List.map_append, List.map_cons, hedit.value_eq]
    · simp only [List.map_append, List.map_cons, hedit.value_eq]

namespace Document

/-- However often the white space of a document is edited where it is laid out, the document is
written in the same way. -/
theorem serialize_eq_of_edits {d e : Document} (hflavor : e.flavor = d.flavor)
    (h : Relation.ReflTransGen (Edit d.flavor) (d.tree.map Prod.snd) (e.tree.map Prod.snd))
    (options : Options) : e.serialize options = d.serialize options := by
  have hentries : ∀ t, Relation.ReflTransGen (Edit d.flavor) (d.tree.map Prod.snd) t →
      entries d.flavor options 0 t = entries d.flavor options 0 (d.tree.map Prod.snd) := by
    intro t ht
    induction ht with
    | refl => rfl
    | tail _ hedit ih => exact (hedit.entries_eq 0).symm.trans ih
  rw [e.serialize_eq, d.serialize_eq, hflavor, hentries _ h]

/-- A list with a single item, some nodes in front of the list, the text of the item and some nodes
behind it. -/
def sampleList (gap : List (Tree Node)) (line : Text) (behind : List (Tree Node)) : Tree Node :=
  .node .document (gap ++ [.node (.element ⟨"ul".toList, []⟩)
    [.node (.element ⟨"li".toList, []⟩) (.node (.text line) [] :: behind)]])

/-- A line feed comes in front of the list, the text of the item loses its indent, and a tab behind
it goes. -/
theorem serialize_eq_of_edits_sampleList :
    (ofTrees .html (sampleList [.node (.text ['\n']) []] ['a'] []).children).serialize .standard =
      (ofTrees .html (sampleList [] "\n  a\n".toList [.node (.text ['\t']) []]).children).serialize
        .standard := by
  refine serialize_eq_of_edits ?_ ?_ .standard
  · rw [flavor_ofTrees, flavor_ofTrees]
  rw [flavor_ofTrees, tree_ofTrees, tree_ofTrees]
  have hul : IsLaidOut .html (.element ⟨"ul".toList, []⟩) := ⟨by decide, by decide, by decide⟩
  have hli : IsLaidOut .html (.element ⟨"li".toList, []⟩) := ⟨by decide, by decide, by decide⟩
  let feed : Tree Node := .node (.text ['\n']) []
  let tab : Tree Node := .node (.text ['\t']) []
  have hfeed : Edit .html (sampleList [] "\n  a\n".toList [tab])
      (sampleList [feed] "\n  a\n".toList [tab]) :=
    .insert [] _ [] trivial (by decide)
  have hline : Edit .html (sampleList [feed] "\n  a\n".toList [tab])
      (sampleList [feed] ['a'] [tab]) :=
    .within [feed] [] trivial (.within [] [] hul (.replace [] [tab] [] hli (by decide)))
  have htab : Edit .html (sampleList [feed] ['a'] [tab]) (sampleList [feed] ['a'] []) :=
    .within [feed] [] trivial
      (.within [] [] hul (.erase [.node (.text ['a']) []] [] [] hli (by decide)))
  exact ((Relation.ReflTransGen.single hfeed).tail hline).tail htab

end Document

end Markup

end PrettyPayload
