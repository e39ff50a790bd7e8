import PrettyPayload.Proofs.Css.Reread

/-!
# Characters of a written stylesheet

Reading takes its texts from the source and adds spaces alone, and writing adds few characters more
(`framing`). So a stylesheet that was read from a source without carriage returns is written without
them, and line endings can be told from texts. The same goes for null characters.
-/

namespace PrettyPayload

namespace Css

variable {c : Char} {s t : Text} {top : Bool} {d : Declaration} {head : Head} {item : Item}
  {items : List Item}

/-- The characters that reading and writing put between texts. -/
def framing : Text := " @:;,!important\x7b\x7d".toList

/-! ## Scans -/

theorem mem_collapse (h : c ∈ collapse t) : c ∈ t ∨ c = ' ' := by
  have hemit : ∀ (k : Spot) (e : Char), c ∈ k.emit e → c = e ∨ c = ' ' := by
    intro k e hc
    unfold Spot.emit at hc
    split at hc
    · exact Or.inl (List.mem_singleton.1 hc)
    · split at hc
      · exact Or.inl (List.mem_singleton.1 hc)
      · split at hc
        · split at hc
          · cases hc
          · exact Or.inr (List.mem_singleton.1 hc)
        · exact Or.inl (List.mem_singleton.1 hc)
  have hfrom : ∀ (t : Text) (k : Spot), c ∈ collapseFrom k t → c ∈ t ∨ c = ' ' := by
    intro t
    induction t with
    | nil => exact fun k hc => absurd hc List.not_mem_nil
    | cons e t ih =>
      intro k hc
      rw [collapseFrom, List.mem_append] at hc
      rcases hc with hc | hc
      · exact (hemit k e hc).imp_left fun heq => List.mem_cons.2 (Or.inl heq)
      · exact (ih _ hc).imp_left (List.mem_cons_of_mem e)
  exact hfrom t _ (Text.mem_of_mem_trim h)

theorem mem_stripCommentsAfter {last : Option Char} {u : Text}
    (h : stripCommentsAfter last t = .ok u) (hc : c ∈ u) : c ∈ t ∨ c = ' ' := by
  have hcomment : ∀ {t rest : Text}, skipComment t = some rest → c ∈ rest ∨ c = ' ' →
      c ∈ '/' :: '*' :: t ∨ c = ' ' := fun hskip hc =>
    hc.imp_left fun hmem =>
      List.mem_cons_of_mem _ (List.mem_cons_of_mem _ ((skipComment_suffix hskip).subset hmem))
  have hread := stripping_of_stripComments h
  clear h
  induction hread with
  | nil last => exact Or.inl hc
  | space hskip _ _ ih =>
    rcases List.mem_cons.1 hc with hc | hc
    · exact Or.inr hc
    · exact hcomment hskip (ih hc)
  | comment hskip _ _ ih => exact hcomment hskip (ih hc)
  | @literal last quote t body rest u hq hliteral _ ih =>
    obtain rfl := takeLiteral_eq_some hliteral
    rcases List.mem_append.1 hc with hc | hc
    · exact Or.inl (List.mem_append_left rest hc)
    · exact (ih hc).imp_left fun hmem => List.mem_append_right (quote :: body) hmem
  | cons _ _ _ ih =>
    rcases List.mem_cons.1 hc with rfl | hc
    · exact Or.inl List.mem_cons_self
    · exact (ih hc).imp_left (List.mem_cons_of_mem _)

theorem mem_of_mem_splitAtTop {sep : Char} {part : Text} (h : part ∈ splitAtTop sep t)
    (hc : c ∈ part) : c ∈ t := by
  fun_induction splitAtTop sep t with
  | case1 t => exact List.mem_singleton.1 h ▸ hc
  | case2 t before stop after hcut ih =>
    rw [(breakAt_eq_some hcut).1]
    rcases List.mem_cons.1 h with rfl | h
    · exact List.mem_append_left _ hc
    · exact List.mem_append_right _ (List.mem_cons_of_mem _ (ih h))

/-! ## Texts without a character -/

theorem ne_of_not_mem_framing (hmark : c ∉ framing) :
    c ≠ ' ' ∧ c ≠ '@' ∧ c ≠ ':' ∧ c ≠ ';' ∧ c ≠ ',' ∧ c ≠ '{' ∧ c ≠ '}' ∧
      c ∉ " !important".toList := by
  have hsub : ' ' :: '@' :: ':' :: ';' :: ',' :: '{' :: '}' :: " !important".toList ⊆ framing := by
    decide
  have hnot : c ∉ ' ' :: '@' :: ':' :: ';' :: ',' :: '{' :: '}' :: " !important".toList :=
    fun hc => hmark (hsub hc)
  simpa only [List.mem_cons, not_or] using hnot

theorem not_mem_trim (h : c ∉ t) : c ∉ Text.trim Text.isBlank t := fun hc =>
  h (Text.mem_of_mem_trim hc)

theorem not_mem_splitAtName (h : c ∉ t) : c ∉ (splitAtName t).1 ∧ c ∉ (splitAtName t).2 :=
  ⟨fun hc => h ((List.takeWhile_sublist _).subset hc), fun hc =>
    h ((List.dropWhile_sublist _).subset (Text.mem_of_mem_trim hc))⟩

section

variable (hmark : c ∉ framing)
include hmark

theorem not_mem_collapse (h : c ∉ t) : c ∉ collapse t := fun hc =>
  (mem_collapse hc).elim h (ne_of_not_mem_framing hmark).1

theorem not_mem_stripComments {u : Text} (h : c ∉ t) (hu : stripComments t = .ok u) : c ∉ u :=
  fun hc => (mem_stripCommentsAfter hu hc).elim h (ne_of_not_mem_framing hmark).1

theorem not_mem_atText {name prelude : Text} (hname : c ∉ name) (h : c ∉ prelude) :
    c ∉ atText name prelude := by
  obtain ⟨hspace, hat, -⟩ := ne_of_not_mem_framing hmark
  unfold atText
  split <;> simp [hname, h, hspace, hat]

/-- A declaration is written without a character if it was read without. -/
theorem not_mem_declaration_text (h : c ∉ t) (hread : readDeclaration t = .ok d) : c ∉ d.text := by
  obtain ⟨hspace, -, hcolon, -, -, -, -, himportant⟩ := ne_of_not_mem_framing hmark
  obtain ⟨before, after, hcut, hproperty, -, hvalue⟩ := exists_of_readDeclaration hread
  have htrim := not_mem_trim h
  rw [(breakAt_eq_some hcut).1, List.mem_append, List.mem_cons, not_or, not_or] at htrim
  have hend : Text.trimEnd Text.isBlank (collapse after) = collapse after :=
    Text.trimEnd_eq_self fun _ hc => Text.getLast?_trimEnd hc
  obtain ⟨hfront, -⟩ := exists_of_splitImportant hend hvalue
  have hproperty' : c ∉ d.property := hproperty ▸ not_mem_collapse hmark htrim.1
  have hvalue' : c ∉ d.value := fun hc => not_mem_collapse hmark htrim.2.2 (hfront.subset hc)
  rw [Declaration.text, List.mem_append, List.mem_append, List.mem_cons, not_or, not_or, not_or]
  refine ⟨⟨hproperty', hcolon, ?_⟩, ?_⟩
  · split <;> simp [hvalue', hspace]
  · split
    · exact himportant
    · exact List.not_mem_nil

theorem not_mem_head_text {body : Text} (h : c ∉ t) (hread : readHead t body = .ok head) :
    c ∉ head.text := by
  obtain ⟨hspace, -, -, -, hcomma, -⟩ := ne_of_not_mem_framing hmark
  have hcollapse := not_mem_collapse hmark h
  rcases readHead_cases hread with ⟨rest, hat, -, rfl⟩ | ⟨selectors, -, hselectors, rfl⟩
  · rw [hat, List.mem_cons, not_or] at hcollapse
    exact not_mem_atText hmark (not_mem_splitAtName hcollapse.2).1
      (not_mem_splitAtName hcollapse.2).2
  · obtain ⟨rfl, -⟩ := eq_map_of_readSelectors hselectors
    rw [Head.text, Text.joinWith_eq_drop]
    intro hc
    obtain ⟨selector, hselector, hc⟩ := List.mem_flatMap.1 (List.mem_of_mem_drop hc)
    obtain ⟨part, hpart, rfl⟩ := List.mem_map.1 hselector
    have hmem : c ∈ Text.trim Text.isBlank part := by simpa [hspace, hcomma] using hc
    exact hcollapse (mem_of_mem_splitAtTop hpart (Text.mem_of_mem_trim hmem))

end

theorem mem_linesOfAll {indent : Text} {level : Nat} {line : Text} :
    line ∈ Item.linesOfAll indent level items ↔ ∃ item ∈ items, line ∈ item.lines indent level := by
  induction items with
  | nil => simp [Item.linesOfAll]
  | cons item items ih => simp [Item.linesOfAll, ih]

theorem not_mem_lines {indent : Text} (hmark : c ∉ framing) (hi : c ∉ indent) (h : c ∉ t)
    (hread : readItems top t = .ok items) (level : Nat) :
    ∀ line ∈ Item.linesOfAll indent level items, c ∉ line := by
  obtain ⟨hspace, -, -, hsemicolon, -, hopen, hclose, -⟩ := ne_of_not_mem_framing hmark
  have hpad : ∀ level, c ∉ Text.times level indent := fun level hc =>
    Text.forall_mem_times (p := (· ≠ c)) level (fun e he heq => hi (heq ▸ he)) c hc rfl
  have hitems : ∀ item ∈ items, ∀ level, ∀ line ∈ item.lines indent level, c ∉ line := by
    refine forall_of_readItems (p := (· ≠ c))
      (P := fun _ item => ∀ level, ∀ line ∈ item.lines indent level, c ∉ line) ?_ ?_
      (fun e he heq => h (heq ▸ he)) hread
    · intro top piece item hpiece _ hread level
      have hpiece' : c ∉ Text.trim Text.isBlank piece :=
        not_mem_trim fun hc => hpiece c hc rfl
      rcases readStatement_cases hread with ⟨rest, hat, -, rfl⟩ | ⟨d, -, hd, -, rfl⟩
      · rw [hat, List.mem_cons, not_or] at hpiece'
        have hparts := not_mem_splitAtName (not_mem_collapse hmark hpiece'.2)
        have hat := not_mem_atText hmark hparts.1 hparts.2
        simp [Item.lines, hpad, hat, hsemicolon]
      · have hd := not_mem_declaration_text hmark hpiece' hd
        simp [Item.lines, hpad, hd, hsemicolon]
    · intro top piece body head items hpiece _ hread hbody level
      have hhead := not_mem_head_text hmark (fun hc => hpiece c hc rfl) hread
      cases items with
      | nil => simp [Item.lines, hpad, hhead, hspace, hopen, hclose]
      | cons item items =>
        intro line hline
        simp only [Item.lines, List.mem_cons, List.mem_append, mem_linesOfAll,
          List.not_mem_nil, or_false] at hline
        rcases hline with rfl | (hline | ⟨inner, hinner, hline⟩) | rfl
        · simp [hpad, hhead, hspace, hopen]
        · exact hbody item List.mem_cons_self (level + 1) line hline
        · exact hbody inner (List.mem_cons_of_mem item hinner) (level + 1) line hline
        · simp [hpad, hclose]
  intro line hline
  obtain ⟨item, hitem, hline⟩ := mem_linesOfAll.1 hline
  exact hitems item hitem level line hline

/-! ## Stylesheets and lists of declarations -/

theorem Stylesheet.not_mem_pretty {indent : Text} {sheet : Stylesheet} (hmark : c ∉ framing)
    (hfeed : c ≠ '\n') (hi : c ∉ indent) (ht : c ∉ t) (h : parseStylesheet t = .ok sheet) :
    c ∉ sheet.pretty indent := by
  obtain ⟨text, htext, h⟩ := exists_of_bind_eq_ok h
  obtain ⟨items, hitems, h⟩ := exists_of_bind_eq_ok h
  obtain rfl := Except.ok.inj h
  have hlines := not_mem_lines hmark hi (not_mem_stripComments hmark ht htext) hitems 0
  rw [Stylesheet.pretty, Text.joinWith_eq_drop]
  intro hc
  obtain ⟨line, hline, hc⟩ := List.mem_flatMap.1 (List.mem_of_mem_drop hc)
  obtain ⟨item, hitem, hline⟩ := mem_linesOfAll.1 hline
  refine hlines line (mem_linesOfAll.2 ⟨item, List.mem_of_mem_filter hitem, hline⟩) ?_
  simpa [hfeed] using hc

theorem not_mem_compact {ds : List Declaration} (hmark : c ∉ framing) (ht : c ∉ t)
    (h : parseDeclarations t = .ok ds) : c ∉ compact ds := by
  obtain ⟨hspace, -, -, hsemicolon, -⟩ := ne_of_not_mem_framing hmark
  obtain ⟨text, htext, h⟩ := exists_of_bind_eq_ok h
  have hstripped := not_mem_stripComments hmark ht htext
  rw [compact, Text.joinWith_eq_drop]
  intro hc
  obtain ⟨line, hline, hc⟩ := List.mem_flatMap.1 (List.mem_of_mem_drop hc)
  obtain ⟨d, hd, rfl⟩ := List.mem_map.1 hline
  obtain ⟨part, hpart, hread⟩ := exists_of_mapM_eq_ok h d hd
  have hpart' : c ∉ part := fun hmem =>
    hstripped (mem_of_mem_splitAtTop (List.mem_of_mem_filter hpart) hmem)
  refine not_mem_declaration_text hmark hpart' hread ?_
  simpa [hspace, hsemicolon] using hc

end Css

end PrettyPayload
