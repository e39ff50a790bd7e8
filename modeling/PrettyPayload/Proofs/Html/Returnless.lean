import PrettyPayload.Proofs.Html.Nested
import PrettyPayload.Proofs.Html.Escape
import PrettyPayload.Proofs.Markup.Returnless

/-!
# Carriage returns in written pages

Nothing that is read from a text without carriage returns has any, unless a reference brings it in,
and trees that nest have none at all. So what is written of them is the same without carriage
returns. The line ending is between lines and in stylesheets alone, and without carriage returns it
is a line feed.
-/

namespace PrettyPayload

namespace Html

open Markup PrettyPayload.Tree

variable {t : Text} {e : Element}

/-! ## Trees that nest -/

/-- Escaping brings in the characters of references alone. -/
theorem return_not_mem_flatMap {escape : Char → Text} (hescape : ∀ c, Writes (escape c) c)
    (h : '\r' ∉ t) : '\r' ∉ t.flatMap escape := by
  intro hmem
  have hreferences : ∀ entry ∈ writtenReferences, '\r' ∉ entry.1 := by decide
  rcases mem_of_mem_flatMap hescape hmem with ⟨entry, hentry, hmem⟩ | ⟨hmem, -⟩
  · exact hreferences entry hentry hmem
  · exact h hmem

theorem return_not_mem_startTag (he : IsTag e) : '\r' ∉ startTag .html e false := by
  have hname : '\r' ∉ e.name := fun hmem =>
    absurd (mem_isTagName he.name _ hmem).1 (by decide)
  refine List.not_mem_append (List.not_mem_append (s := '<' :: e.name) ?_ ?_) (by decide)
  · exact List.not_mem_append (s := ['<']) (by decide) hname
  · intro hmem
    obtain ⟨⟨name, v⟩, ha, hmem⟩ := List.mem_flatMap.1 hmem
    obtain ⟨hkey, hvalue⟩ := he.attributes _ ha
    have hkey' : '\r' ∉ ' ' :: name := by
      refine List.not_mem_append (s := [' ']) (by decide) fun hmem => ?_
      exact absurd (mem_isAttributeName hkey _ hmem).1 (by decide)
    dsimp only [attributeText] at hmem
    split at hmem
    next => exact hkey' hmem
    next =>
      refine List.not_mem_append (List.not_mem_append (List.not_mem_append hkey' (by decide)) ?_)
        (by decide) hmem
      exact return_not_mem_flatMap writes_escapeAttributeChar hvalue.1

theorem return_not_mem_endTag (he : IsTag e) : '\r' ∉ endTag e := by
  refine List.not_mem_append (s := '<' :: '/' :: e.name) ?_ (by decide)
  refine List.not_mem_append (s := ['<', '/']) (by decide) fun hmem => ?_
  exact absurd (mem_isTagName he.name _ hmem).1 (by decide)

theorem return_not_mem_of_holdsRaw {raw : Content} {ts : List (Tree Markup.Node)}
    (h : holdsRaw raw ts = true) : '\r' ∉ writtenAll ts := by
  rcases holdsRaw_cases h with rfl | ⟨t, -, ht, ⟨-, rfl⟩ | ⟨-, rfl⟩⟩
  · exact List.not_mem_nil
  · rw [writtenAll, writtenAll, List.append_nil]
    exact return_not_mem_flatMap writes_escapeTextChar ht.1
  · rw [writtenAll, writtenAll, List.append_nil]
    exact ht.1

mutual

theorem return_not_mem_written : (t : Tree Markup.Node) → {path : List String} →
    nests path t = true → '\r' ∉ written t
  | .node v ts, path, h => by
    cases v with
    | element e =>
      rw [nests, Bool.and_eq_true, Bool.and_eq_true, decide_eq_true_eq] at h
      obtain ⟨⟨he, -⟩, hts⟩ := h
      have hcontent : '\r' ∉ writtenAll ts := by
        split at hts
        next => exact return_not_mem_of_holdsRaw hts
        next =>
          split at hts
          next =>
            obtain rfl := List.isEmpty_iff.1 hts
            exact List.not_mem_nil
          next => exact return_not_mem_writtenAll ts hts
      have hlead : '\r' ∉ leadFeed e ts := by
        rcases leadFeed_cases e ts with hlead | hlead <;> rw [hlead] <;> decide
      rw [written]
      refine List.not_mem_append (List.not_mem_append (return_not_mem_startTag he)
        (List.not_mem_append hlead hcontent)) ?_
      split
      · exact List.not_mem_nil
      · exact return_not_mem_endTag he
    | text t =>
      simp only [nests, Bool.and_eq_true, decide_eq_true_eq] at h
      exact return_not_mem_flatMap writes_escapeTextChar h.2.1.1
    | comment t =>
      simp only [nests, Bool.and_eq_true, decide_eq_true_eq] at h
      exact List.not_mem_append (List.not_mem_append (by decide) h.2.1.1) (by decide)
    | _ => cases h

theorem return_not_mem_writtenAll : (ts : List (Tree Markup.Node)) → {path : List String} →
    nestsAll path ts = true → '\r' ∉ writtenAll ts
  | [], _, _ => List.not_mem_nil
  | t :: ts, path, h => by
    rw [nestsAll, Bool.and_eq_true, Bool.and_eq_true] at h
    exact List.not_mem_append (return_not_mem_written t h.1.1) (return_not_mem_writtenAll ts h.2)

end

end Html

namespace Markup

open PrettyPayload.Tree

/-! ## Line endings -/

theorem withoutReturns_replaceChar (options : Options) (t : Text) :
    Text.withoutReturns (Text.replaceChar '\n' options.newline t) = Text.withoutReturns t := by
  induction t with
  | nil => rfl
  | cons c t ih =>
    by_cases hc : c = '\n'
    · rw [hc, Text.replaceChar_cons_self, withoutReturns_append, ih, withoutReturns_newline]
      rfl
    · rw [Text.replaceChar_cons_of_ne _ hc, ← List.singleton_append, withoutReturns_append, ih,
        ← withoutReturns_append, List.singleton_append]

mutual

theorem withoutReturns_entries (flavor : Flavor) (options : Options) (ancestors : Nat) :
    (t : Tree Node) →
      (entries flavor options ancestors t).map Text.withoutReturns =
        (entries flavor options.withLineFeeds ancestors t).map Text.withoutReturns
  | .node v ts => by
    have ih := withoutReturns_entriesOfAll flavor options (ancestors + 1) ts
    cases v with
    | document => exact ih
    | element e =>
      have honly (vs : List Node) : onlyLine? options.withLineFeeds vs = onlyLine? options vs := rfl
      have hindent : options.withLineFeeds.indent = options.indent := rfl
      simp only [entries, honly, hindent]
      split
      next => rfl
      next =>
        split
        next => rfl
        next =>
          split
          next =>
            split
            next => rfl
            next => simp only [List.map_cons, withoutReturns_append, withoutReturns_replaceChar]
          next =>
            split
            next => rfl
            next =>
              split
              next => rfl
              next => simp only [List.map_cons, List.map_append, List.cons_append, ih]
    | _ => rfl

theorem withoutReturns_entriesOfAll (flavor : Flavor) (options : Options) (ancestors : Nat) :
    (ts : List (Tree Node)) →
      (entriesOfAll flavor options ancestors ts).map Text.withoutReturns =
        (entriesOfAll flavor options.withLineFeeds ancestors ts).map Text.withoutReturns
  | [] => rfl
  | t :: ts => by
    rw [entriesOfAll, List.map_append, withoutReturns_entries, withoutReturns_entriesOfAll,
      ← List.map_append, entriesOfAll]

end

end Markup

end PrettyPayload
