import PrettyPayload.Proofs.Html.Returnless
import PrettyPayload.Proofs.Markup.RelaidNests

/-!
# The content of a page read again

A page starts with its first line and not with a line ending, so the layout in front of its first
node has no line feed. `relaidPage` is the content of a page that is read from what was written of
a page: it is written like that one, and it is laid out like that one again.
-/

namespace PrettyPayload

namespace Markup

open Html
open PrettyPayload.Tree

variable {options : Options} {path : List String} {pending : Text} {ts us : List (Tree Node)}

/-! ## Definitions -/

def dropFeed : List (Tree Node) → List (Tree Node)
  | .node (.text (_ :: t)) _ :: ts => textTrees t ++ ts
  | ts => ts

def relaidPage (options : Options) (ts : List (Tree Node)) : List (Tree Node) :=
  dropFeed (relaidAfter options 0 [] [] ts)

/-- Trees that start with a text that starts with a line feed, if there are any. -/
def StartsWithFeed (ts : List (Tree Node)) : Prop :=
  ts = [] ∨ ∃ t us, ts = .node (.text ('\n' :: t)) [] :: us

/-! ## The first line feed -/

theorem startsWithFeed_textTrees (h : pending = [] ∨ pending.head? = some '\n') :
    StartsWithFeed (textTrees pending) := by
  rcases h with rfl | h
  · exact Or.inl rfl
  · obtain ⟨t, rfl⟩ := List.head?_eq_some_iff.1 h
    exact Or.inr ⟨t, [], rfl⟩

theorem head?_lineGap_append (hfeed : options.newline = ['\n']) (depth : Nat) (t : Text) :
    (lineGap options depth ++ t).head? = some '\n' := by
  rw [lineGap, hfeed]
  rfl

theorem startsWithFeed_relaidAfter (hfeed : options.newline = ['\n']) (depth : Nat)
    (h : pending = [] ∨ pending.head? = some '\n') :
    StartsWithFeed (relaidAfter options depth [] pending ts) := by
  induction ts generalizing pending with
  | nil =>
    rw [relaidAfter, List.append_nil]
    exact startsWithFeed_textTrees h
  | cons t ts ih =>
    cases ht : t.value.isText with
    | true =>
      obtain ⟨s, hs⟩ := exists_of_isText ht
      rw [relaidAfter, hs]
      refine ih ?_
      rcases h with rfl | h
      · rw [List.nil_append, spreadText]
        cases segments s with
        | nil => exact Or.inl rfl
        | cons line lines =>
          rw [List.flatMap_cons, List.append_assoc]
          exact Or.inr (head?_lineGap_append hfeed depth _)
      · obtain ⟨u, rfl⟩ := List.head?_eq_some_iff.1 h
        exact Or.inr rfl
    | false =>
      rw [relaidAfter_of_isText_eq_false ht]
      have hhead : (pending ++ lineGap options depth).head? = some '\n' := by
        rcases h with rfl | h
        · exact List.append_nil (lineGap options depth) ▸ head?_lineGap_append hfeed depth []
        · obtain ⟨u, rfl⟩ := List.head?_eq_some_iff.1 h
          rfl
      obtain ⟨u, hu⟩ := List.head?_eq_some_iff.1 hhead
      rw [hu]
      exact Or.inr ⟨u, _, rfl⟩

theorem startsWithFeed_page (hfeed : options.newline = ['\n']) (ts : List (Tree Node)) :
    StartsWithFeed (relaidAfter options 0 [] [] ts) :=
  startsWithFeed_relaidAfter hfeed 0 (Or.inl rfl)

theorem writtenAll_dropFeed (h : StartsWithFeed ts) :
    writtenAll (dropFeed ts) = (writtenAll ts).drop 1 := by
  rcases h with rfl | ⟨t, us, rfl⟩
  · rfl
  · rw [dropFeed, writtenAll_append, writtenAll_textTrees]
    rfl

theorem nestsAll_dropFeed (h : StartsWithFeed ts) (hmode : (modeOf path).isOfBody = true)
    (hts : nestsAll path ts = true) : nestsAll path (dropFeed ts) = true := by
  rcases h with rfl | ⟨t, us, rfl⟩
  · rfl
  · rw [nestsAll, Bool.and_eq_true, Bool.and_eq_true] at hts
    obtain ⟨⟨ht, hapart⟩, hus⟩ := hts
    have hsafe := List.forall_mem_cons.1 (isSafeText_iff.1 (isSafeText_of_nests ht))
    exact nestsAll_textTrees_append hmode (isSafeText_iff.2 hsafe.2) hus
      (by simpa [Node.isText] using hapart)

theorem entriesOfAll_dropFeed (h : StartsWithFeed ts) :
    entriesOfAll .html options 1 (restyledAll options.indent 1 (dropFeed ts)) =
      entriesOfAll .html options 1 (restyledAll options.indent 1 ts) := by
  rcases h with rfl | ⟨t, us, rfl⟩
  · rfl
  · have hsegments : segments ('\n' :: t) = segments t := segments_append_lineFeed [] t
    have hfirst := entries_restyled_text options 0 ('\n' :: t)
    rw [dropFeed, restyledAll_append, entriesOfAll_append, entriesOfAll_textTrees, restyledAll,
      entriesOfAll, hfirst, hsegments]

theorem styleRead_dropFeed (h : StartsWithFeed ts) (hts : EachOfAll StyleRead ts) :
    EachOfAll StyleRead (dropFeed ts) := by
  rcases h with rfl | ⟨t, us, rfl⟩
  · trivial
  · rw [dropFeed, eachOfAll_iff, List.forall_mem_append]
    exact ⟨eachOfAll_iff.1 (styleRead_textTrees t), eachOfAll_iff.1 hts.2⟩

/-! ## Pages -/

/-- The content of a page that is read again is written like what it is read from. -/
theorem writtenAll_relaidPage (hindent : PlainIndent options) (hfeed : options.newline = ['\n'])
    (hnests : nestsAll path ts = true) (h : EachOfAll (Durable options.indent) ts) :
    writtenAll (relaidPage options ts) =
      Text.joinWith ['\n'] (entriesOfAll .html options 1 (restyledAll options.indent 1 ts)) := by
  have hentries := flatMap_entriesOfAll_restyledAll hindent hfeed 0 [] [] ts
    (formedAll_of_nestsAll ts hnests) h fun t ht => isData_of_nests (nests_of_mem hnests t ht)
  rw [escapeText_nil, List.nil_append, List.append_nil, hfeed] at hentries
  rw [relaidPage, writtenAll_dropFeed (startsWithFeed_page hfeed ts), hentries,
    Text.joinWith_eq_drop]
  rfl

theorem nestsAll_relaidPage (hindent : PlainIndent options) (hfeed : options.newline = ['\n'])
    (hmode : (modeOf path).isOfBody = true) (hnests : nestsAll path ts = true)
    (h : EachOfAll (Durable options.indent) ts) : nestsAll path (relaidPage options ts) = true :=
  nestsAll_dropFeed (startsWithFeed_page hfeed ts) hmode
    (nestsAll_relaidAfter hindent hfeed 0 ts hmode hnests (formedAll_of_nestsAll ts hnests) h
      (by decide) [] (by decide))

/-- Read again, a page is laid out as before. -/
theorem entriesOfAll_relaidPage (hindent : PlainIndent options) (hnests : nestsAll path ts = true)
    (h : EachOfAll (Durable options.indent) ts) :
    entriesOfAll .html options 1
        (restyledAll options.indent 1 (relaidPage options.withLineFeeds ts)) =
      entriesOfAll .html options 1 (restyledAll options.indent 1 ts) := by
  rw [relaidPage, entriesOfAll_dropFeed (startsWithFeed_page rfl ts)]
  exact entriesOfAll_restyledAll_relaidAfter hindent 0 (fun t => by rw [List.append_nil]) [] ts
    (formedAll_of_nestsAll ts hnests) h

theorem styleRead_relaidPage (hindent : PlainIndent options) (hfeed : options.newline = ['\n'])
    (hnests : nestsAll path ts = true) (h : EachOfAll (Durable options.indent) ts) :
    EachOfAll StyleRead (relaidPage options ts) :=
  styleRead_dropFeed (startsWithFeed_page hfeed ts)
    (styleReadAll_relaidAfter hindent 0 [] [] ts (formedAll_of_nestsAll ts hnests) h)

end Markup

end PrettyPayload
