import PrettyPayload.Proofs.Markup.Spread

/-!
# Carriage returns in written documents

What is written of a document that was read without carriage returns has none of its own: in texts
and comments there are none, and in attribute values they are written by reference. So the line
endings can be made line feeds by leaving carriage returns out.
-/

namespace PrettyPayload

def Options.withLineFeeds (options : Options) : Options := { options with lineEnding := .lf }

namespace Markup

open PrettyPayload.Tree Xml

variable {options : Options} {t : Text}

/-! ## Parts -/

theorem not_mem_escapeText (h : '\r' ∉ t) : '\r' ∉ escapeText .xml t := by
  intro hmem
  obtain ⟨c, hc, hmem⟩ := List.mem_flatMap.1 hmem
  unfold escapeTextChar at hmem
  repeat' split at hmem
  · exact absurd hmem (by decide)
  · exact absurd hmem (by decide)
  · exact absurd hmem (by decide)
  · exact absurd hmem (by decide)
  · exact h (List.mem_singleton.1 hmem ▸ hc)

theorem not_mem_escapeAttribute (t : Text) : '\r' ∉ escapeAttribute .xml t := by
  intro hmem
  obtain ⟨c, -, hmem⟩ := List.mem_flatMap.1 hmem
  simp only [escapeAttributeChar] at hmem
  repeat' split at hmem
  case isFalse.isFalse.isFalse.isFalse.isFalse.isFalse hreturn =>
    exact hreturn (List.mem_singleton.1 hmem).symm
  all_goals exact absurd hmem (by decide)

theorem not_mem_of_isNameChar (h : ∀ c ∈ t, isNameChar c = true) : '\r' ∉ t :=
  fun hmem => absurd (h _ hmem) (by decide)

theorem not_mem_of_isAttributeName (h : IsAttributeName t) : '\r' ∉ t := by
  obtain ⟨l, hl, -, rfl | rfl⟩ := h
  · exact not_mem_of_isNameChar (isNameChar_of_isName hl)
  · exact List.not_mem_append (by decide) (not_mem_of_isNameChar (isNameChar_of_isName hl))

theorem not_mem_startTag {e : Element} (h : (Node.element e).Writable) (closed : Bool) :
    '\r' ∉ startTag .xml e closed := by
  obtain ⟨hname, hattributes, -⟩ := h
  refine List.not_mem_append (List.not_mem_append ?_ ?_) ?_
  · exact List.not_mem_append (s := ['<']) (by decide)
      (not_mem_of_isNameChar (isNameChar_of_isName hname))
  · intro hmem
    obtain ⟨⟨name, v⟩, ha, hmem⟩ := List.mem_flatMap.1 hmem
    have hattribute : attributeText .xml name v =
        ' ' :: (name ++ (['=', '"'] ++ (escapeAttribute .xml v ++ ['"']))) := by
      simp [attributeText]
    simp only [hattribute] at hmem
    refine List.not_mem_append (s := [' ']) (by decide) (List.not_mem_append ?_ ?_) hmem
    · exact not_mem_of_isAttributeName (hattributes _ ha).1
    · exact List.not_mem_append (by decide)
        (List.not_mem_append (not_mem_escapeAttribute v) (by decide))
  · cases closed <;> decide

theorem not_mem_endTag {e : Element} (h : (Node.element e).Writable) : '\r' ∉ endTag e :=
  List.not_mem_append (s := '<' :: '/' :: e.name)
    (List.not_mem_append (s := ['<', '/']) (by decide)
      (not_mem_of_isNameChar (isNameChar_of_isName h.1))) (by decide)

theorem not_mem_instructionText {target content : Text} (htarget : '\r' ∉ target)
    (hcontent : '\r' ∉ content) : '\r' ∉ instructionText .xml target content := by
  refine List.not_mem_append (List.not_mem_append
    (List.not_mem_append (s := ['<', '?']) (by decide) htarget) ?_) (by decide)
  split
  · exact List.not_mem_nil
  · exact List.not_mem_append (s := [' ']) (by decide) hcontent

theorem not_mem_times (hindent : PlainIndent options) (depth : Nat) :
    '\r' ∉ Text.times depth options.indent := by
  refine fun hmem => Text.forall_mem_times (p := (· ≠ '\r')) depth ?_ _ hmem rfl
  intro c hc
  rcases hindent c hc with rfl | rfl <;> decide

/-! ## Trees -/

mutual

/-- A tree without carriage returns is written without them where nothing is indented. -/
theorem not_mem_verbatim : (t : Tree Node) → t.Each AsRead → '\r' ∉ verbatim .xml t
  | .node v ts, h => by
    have ih := not_mem_verbatimAll ts h.2
    cases v with
    | element e =>
      rw [verbatim]
      split
      · exact not_mem_startTag h.1.node true
      · exact List.not_mem_append (List.not_mem_append (not_mem_startTag h.1.node false) ih)
          (not_mem_endTag h.1.node)
    | text t => exact List.not_mem_append (not_mem_escapeText (h.1.returnless t rfl)) ih
    | comment t =>
      exact List.not_mem_append (List.not_mem_append
        (List.not_mem_append (by decide) h.1.node.2) (by decide)) ih
    | instruction target content =>
      obtain ⟨htarget, -, hcontent, -⟩ := h.1.node
      exact List.not_mem_append (not_mem_instructionText
        (not_mem_of_isNameChar (isNameChar_of_isTarget htarget)) hcontent) ih
    | document => exact absurd h.1.node id
    | doctype t => exact absurd h.1.node id
    | data t => exact absurd h.1.node id
    | css t => exact absurd h.1.node id

theorem not_mem_verbatimAll :
    (ts : List (Tree Node)) → EachOfAll AsRead ts → '\r' ∉ verbatimAll .xml ts
  | [], _ => List.not_mem_nil
  | t :: ts, h => List.not_mem_append (not_mem_verbatim t h.1) (not_mem_verbatimAll ts h.2)

end

mutual

/-- The entries of a tree without carriage returns have none. -/
theorem not_mem_entries (hindent : PlainIndent options) (ancestors : Nat) :
    (t : Tree Node) → t.Each AsRead → ∀ line ∈ entries .xml options ancestors t, '\r' ∉ line
  | .node v ts, h => by
    have ih := not_mem_entriesOfAll hindent (ancestors + 1) ts h.2
    have hindented := not_mem_times hindent (ancestors - 1)
    cases v with
    | element e =>
      have hstart := not_mem_startTag h.1.node
      have hend := not_mem_endTag h.1.node
      rw [entries_element]
      dsimp only
      split
      next =>
        refine List.forall_mem_singleton.2 (List.not_mem_append hindented ?_)
        exact List.not_mem_append
          (List.not_mem_append (hstart false) (not_mem_verbatimAll ts h.2)) hend
      next =>
        split
        next => exact List.forall_mem_singleton.2 (List.not_mem_append hindented (hstart true))
        next =>
          split
          next line honly =>
            have hline : '\r' ∉ line := by
              intro hmem
              obtain ⟨t, us, hu, hmem⟩ := mem_of_mem_onlyLine honly hmem
              exact (eachOfAll_iff.1 h.2 _ hu).1.returnless t rfl hmem
            refine List.forall_mem_singleton.2 (List.not_mem_append hindented ?_)
            exact List.not_mem_append
              (List.not_mem_append (hstart false) (not_mem_escapeText hline)) hend
          next =>
            refine List.forall_mem_cons.2 ⟨List.not_mem_append hindented (hstart false), ?_⟩
            refine List.forall_mem_append.2 ⟨ih, ?_⟩
            exact List.forall_mem_singleton.2 (List.not_mem_append hindented hend)
    | text t =>
      refine List.forall_mem_map.2 ?_
      intro line hline
      refine List.not_mem_append hindented (not_mem_escapeText ?_)
      exact fun hmem => h.1.returnless t rfl (mem_of_mem_segments hline hmem)
    | comment t =>
      refine List.forall_mem_singleton.2 (List.not_mem_append hindented ?_)
      exact List.not_mem_append (List.not_mem_append (by decide) h.1.node.2) (by decide)
    | instruction target content =>
      obtain ⟨htarget, -, hcontent, -⟩ := h.1.node
      refine List.forall_mem_singleton.2 (List.not_mem_append hindented ?_)
      exact not_mem_instructionText
        (not_mem_of_isNameChar (isNameChar_of_isTarget htarget)) hcontent
    | document => exact absurd h.1.node id
    | doctype t => exact absurd h.1.node id
    | data t => exact absurd h.1.node id
    | css t => exact absurd h.1.node id

theorem not_mem_entriesOfAll (hindent : PlainIndent options) (ancestors : Nat) :
    (ts : List (Tree Node)) → EachOfAll AsRead ts →
      ∀ line ∈ entriesOfAll .xml options ancestors ts, '\r' ∉ line
  | [], _ => nofun
  | t :: ts, h => List.forall_mem_append.2
    ⟨not_mem_entries hindent ancestors t h.1, not_mem_entriesOfAll hindent ancestors ts h.2⟩

end

/-! ## Line endings -/

mutual

theorem entries_withLineFeeds (options : Options) (ancestors : Nat) :
    (t : Tree Node) →
      entries .xml options.withLineFeeds ancestors t = entries .xml options ancestors t
  | .node v ts => by
    have ih := entriesOfAll_withLineFeeds options (ancestors + 1) ts
    cases v with
    | document => exact ih
    | element e =>
      rw [entries, entries, ih]
      rfl
    | _ => rfl

theorem entriesOfAll_withLineFeeds (options : Options) (ancestors : Nat) :
    (ts : List (Tree Node)) →
      entriesOfAll .xml options.withLineFeeds ancestors ts =
        entriesOfAll .xml options ancestors ts
  | [] => rfl
  | t :: ts => by
    rw [entriesOfAll, entries_withLineFeeds, entriesOfAll_withLineFeeds, entriesOfAll]

end

theorem withoutReturns_append (s t : Text) :
    Text.withoutReturns (s ++ t) = Text.withoutReturns s ++ Text.withoutReturns t :=
  List.filter_append s t

theorem withoutReturns_newline (options : Options) :
    Text.withoutReturns options.newline = ['\n'] := by
  unfold Options.newline
  cases options.lineEnding <;> rfl

theorem withoutReturns_eq_self (h : '\r' ∉ t) : Text.withoutReturns t = t :=
  List.filter_eq_self.2 fun c hc => by simpa using fun heq : c = '\r' => h (heq ▸ hc)

/-- Without carriage returns, the line endings between pieces are line feeds. -/
theorem withoutReturns_joinWith_map (options : Options) (pieces : List Text) :
    Text.withoutReturns (Text.joinWith options.newline pieces) =
      Text.joinWith ['\n'] (pieces.map Text.withoutReturns) := by
  induction pieces with
  | nil => rfl
  | cons piece pieces ih =>
    cases pieces with
    | nil => rw [Text.joinWith_singleton, List.map_singleton, Text.joinWith_singleton]
    | cons next pieces =>
      rw [Text.joinWith_cons_cons, List.map_cons, List.map_cons, Text.joinWith_cons_cons,
        ← List.map_cons, ← ih, withoutReturns_append, withoutReturns_append,
        withoutReturns_newline]

/-- Where there are no others, the line endings between lines become line feeds. -/
theorem withoutReturns_joinWith (options : Options) {lines : List Text}
    (h : ∀ line ∈ lines, '\r' ∉ line) :
    Text.withoutReturns (Text.joinWith options.newline lines) = Text.joinWith ['\n'] lines := by
  have hlines : lines.map Text.withoutReturns = lines :=
    (List.map_congr_left fun line hline => withoutReturns_eq_self (h line hline)).trans
      (List.map_id _)
  rw [withoutReturns_joinWith_map, hlines]

end Markup

end PrettyPayload
