import PrettyPayload.Proofs.Css.Append
import PrettyPayload.Proofs.Css.Zone

/-!
# Declarations as the body of a rule

The value of a style attribute is read in its own way: it is cut at semicolons, blank parts are left
out, and each other part is a declaration. The body of a rule is read item by item, and there braces
count and an at-rule may stand. `parse_inRule` says that both are read alike, where a source has no
braces, at-rules, backslashes and foreign white space: as the body of a rule it gives the same
declarations, or it has a fault of the same kind.
-/

namespace PrettyPayload

namespace Css

variable {s t u v rest : Text} {c : Char} {last : Option Char} {slashed : Bool} {k : Nesting}

/-! ## Sources of declarations -/

/-- The braces, and white space that is not ASCII, which is not skipped between items. -/
def isForeign (c : Char) : Bool :=
  c = '{' || c = '}' || Text.isBlank c && !Text.isAsciiBlank c

theorem not_isForeign_iff :
    isForeign c = false ↔
      c ≠ '{' ∧ c ≠ '}' ∧ (Text.isBlank c = true → Text.isAsciiBlank c = true) := by
  cases hb : Text.isBlank c <;> cases ha : Text.isAsciiBlank c <;> simp [isForeign, hb, ha]

/-- A source that means the same in a style attribute and in the body of a rule. -/
structure Inline (s : Text) : Prop where
  unescaped : '\\' ∉ s
  domestic : EachOutside (fun c _ => isForeign c = false) Zone.start s
  unmarked : ∀ t, stripComments s = .ok t → ∀ part ∈ splitAtTop ';' t,
    (Text.trim Text.isBlank part).head? ≠ some '@'

/-! ## Bare characters -/

section Bare

variable {p : Char → Prop} {stops : Char → Bool}

/-- A text without comments whose literals are closed, and in which something holds of each
character outside literals. -/
inductive Bare (p : Char → Prop) : Text → Prop
  | nil : Bare p []
  | literal {quote : Char} {body t : Text} (hq : isQuote quote = true) (hbody : Literal quote body)
      (ht : Bare p t) : Bare p (quote :: body ++ t)
  | cons {c : Char} {t : Text} (hq : isQuote c = false) (hc : p c) (ht : Bare p t) : Bare p (c :: t)

/-- What holds of the characters of a source outside literals and comments holds of what is left of
them, if it holds of the space that a comment may leave. -/
theorem Stripping.bare (h : Stripping last s t) (hstar : slashed = true → s.head? ≠ some '*')
    (hp : EachOutside (fun c _ => p c) (.outside slashed) s) (hspace : p ' ') : Bare p t := by
  have hstart : ∀ {u : Text}, false = true → u.head? ≠ some '*' := Bool.false_ne_true.elim
  induction h generalizing slashed with
  | nil last => exact .nil
  | space hskip _ _ ih =>
    exact .cons (by decide) hspace (ih hstart ((eachOutside_comment hskip).1 hp).2.2)
  | comment hskip _ _ ih => exact ih hstart ((eachOutside_comment hskip).1 hp).2.2
  | literal hq hliteral _ ih =>
    have hbody := literal_of_takeLiteral hliteral
    obtain rfl := takeLiteral_eq_some hliteral
    exact .literal hq hbody (ih hstart ((eachOutside_literal hq hbody).1 hp).2)
  | @cons last c s u hc hq _ ih =>
    have hplain : slashed = true → c ≠ '*' := fun hslashed heq =>
      hstar hslashed (congrArg some heq)
    obtain ⟨hpc, hps⟩ := (eachOutside_cons_of_plain hplain hq).1 hp
    exact .cons hq hpc (ih (fun heq => hc (of_decide_eq_true heq)) hps)

theorem Bare.breakAt_eq_none (h : Bare p t) (hk : k.quoting = Quoting.start)
    (hp : ∀ c, p c → c ≠ '\\' ∧ stops c = false)
    (hstops : ∀ c, isQuote c = true → stops c = false) :
    breakAt stops k t = none := by
  induction h generalizing k with
  | nil => rfl
  | literal hq hbody _ ih =>
    obtain ⟨hcut, hafter⟩ := breakAt_literal hk hq hbody (hstops _ hq)
    rw [breakAt_append_eq_none_iff, hafter]
    exact ⟨hcut, ih hk⟩
  | cons hq hc _ ih =>
    obtain ⟨hslash, hstop⟩ := hp _ hc
    rw [breakAt_cons_eq_none_iff, hstop, Bool.and_false]
    refine ⟨rfl, ih ?_⟩
    rw [Nesting.quoting_step, hk, Quoting.start_step hslash hq]

/-- A text is part of the block that it stands in if it has no bare braces. -/
theorem Bare.blockAfter?_eq (h : Bare p t) (hp : ∀ c, p c → c ≠ '\\' ∧ c ≠ '{' ∧ c ≠ '}')
    (depth : Nat) : blockAfter? Quoting.start depth t = some (Quoting.start, depth) := by
  induction h with
  | nil => rfl
  | literal hq hbody _ ih => rw [blockAfter?_append (blockAfter?_literal hq hbody depth), ih]
  | cons hq hc _ ih =>
    obtain ⟨hslash, hopen, hclose⟩ := hp _ hc
    simpa [blockAfter?, depthAfter?, Quoting.start_step hslash hq, hopen, hclose] using ih

end Bare

/-! ## Parts and items -/

theorem exists_of_part (hcut : breakAt (fun c => decide (c = ';')) Nesting.start t = none)
    (hforeign : breakAt isForeign Nesting.start t = none) (hne : Text.trim Text.isBlank t ≠ []) :
    ∃ c u, (∀ rest, skipSeparators false (t ++ rest) = c :: u ++ rest) ∧
      Text.trim Text.isBlank (c :: u) = Text.trim Text.isBlank t ∧
      breakAt endsItem Nesting.start (c :: u) = none ∧
      Nesting.start.after (c :: u) = Nesting.start.after t := by
  have hfront : ∀ c ∈ t.takeWhile Text.isAsciiBlank, Text.isAsciiBlank c = true :=
    List.all_eq_true.1 List.all_takeWhile
  have hblank : ∀ c ∈ t.takeWhile Text.isAsciiBlank, Text.isBlank c = true := fun c hc =>
    isBlank_of_isAsciiBlank (hfront c hc)
  have hafter := Nesting.quoted_start.after_blanks rfl hblank
  have hsplit : t = t.takeWhile Text.isAsciiBlank ++ t.dropWhile Text.isAsciiBlank :=
    List.takeWhile_append_dropWhile.symm
  have hhead := List.head?_dropWhile_not Text.isAsciiBlank t
  generalize t.takeWhile Text.isAsciiBlank = front at *
  generalize t.dropWhile Text.isAsciiBlank = u at *
  subst hsplit
  rw [breakAt_append_eq_none_iff, hafter] at hcut hforeign
  rw [Text.trim_append_of_all hblank] at hne ⊢
  cases u with
  | nil => exact absurd rfl hne
  | cons c u =>
    have hc : Text.isAsciiBlank c = false := by simpa using hhead
    have hsemi : c ≠ ';' := by
      rintro rfl
      exact absurd (breakAt_cons_eq_none_iff.1 hcut.2).1 (by decide)
    refine ⟨c, u, fun rest => ?_, rfl, ?_, by rw [Nesting.after_append, hafter]⟩
    · rw [List.append_assoc, skipSeparators_append hfront]
      exact skipSeparators_eq_self hc hsemi rfl
    · refine breakAt_mono (fun d hd => ?_) (breakAt_or_eq_none hcut.2 hforeign.2)
      simp only [endsItem, Bool.or_eq_true, decide_eq_true_eq] at hd
      rcases hd with (rfl | rfl) | rfl <;> rfl

theorem isAsciiBlank_of_part (hforeign : breakAt isForeign Nesting.start t = none)
    (hnil : Text.trim Text.isBlank t = []) : ∀ c ∈ t, Text.isAsciiBlank c = true := by
  rw [Text.trim_eq_nil_iff] at hnil
  intro c hc
  obtain ⟨front, back, rfl⟩ := List.append_of_mem hc
  rw [List.forall_mem_append, List.forall_mem_cons] at hnil
  rw [breakAt_append_eq_none_iff, Nesting.quoted_start.after_blanks rfl hnil.1,
    breakAt_cons_eq_none_iff] at hforeign
  exact (not_isForeign_iff.1 hforeign.2.1).2.2 hnil.2.1

theorem readStatement_of_unmarked (htrim : Text.trim Text.isBlank s = Text.trim Text.isBlank t)
    (h : (Text.trim Text.isBlank t).head? ≠ some '@') :
    readStatement false s = Item.declaration <$> readDeclaration t := by
  have hread : readDeclaration (Text.trim Text.isBlank t) = readDeclaration t := by
    unfold readDeclaration
    rw [Text.trim_trim]
  unfold readStatement
  rw [htrim]
  dsimp only
  split
  next rest hrest =>
    rw [hrest] at h
    exact absurd rfl h
  next =>
    rw [if_neg Bool.false_ne_true, hread]

theorem readDeclarations_of_end
    (hcut : breakAt (fun c => decide (c = ';')) Nesting.start t = none) :
    readDeclarations t =
      if Text.trim Text.isBlank t = [] then .ok [] else ([·]) <$> readDeclaration t := by
  unfold readDeclarations
  rw [splitAtTop, hcut]
  by_cases hnil : Text.trim Text.isBlank t = []
  · rw [if_pos hnil]
    simp [hnil]
    rfl
  · rw [if_neg hnil]
    simp [hnil]

theorem readDeclarations_of_semicolon {before after : Text} {stop : Char}
    (hcut : breakAt (fun c => decide (c = ';')) Nesting.start t = some (before, stop, after)) :
    readDeclarations t =
      if Text.trim Text.isBlank before = [] then readDeclarations after
      else do
        let d ← readDeclaration before
        let ds ← readDeclarations after
        return d :: ds := by
  unfold readDeclarations
  rw [splitAtTop, hcut]
  by_cases hnil : Text.trim Text.isBlank before = []
  · rw [if_pos hnil]
    simp [hnil]
  · rw [if_neg hnil]
    simp [hnil]

theorem readItems_eq_readDeclarations (hforeign : breakAt isForeign Nesting.start t = none)
    (hat : ∀ part ∈ splitAtTop ';' t, (Text.trim Text.isBlank part).head? ≠ some '@') :
    readItems false t = List.map Item.declaration <$> readDeclarations t := by
  fun_induction splitAtTop ';' t with
  | case1 t hcut =>
    rw [List.forall_mem_singleton] at hat
    rw [readDeclarations_of_end hcut, readItems_eq]
    by_cases hnil : Text.trim Text.isBlank t = []
    · have hskip : skipSeparators false (t ++ []) = [] :=
        skipSeparators_append (isAsciiBlank_of_part hforeign hnil)
      rw [List.append_nil] at hskip
      rw [hskip, if_pos hnil]
      rfl
    · obtain ⟨c, u, hskip, htrim, hend, -⟩ := exists_of_part hcut hforeign hnil
      have hskip' := hskip []
      rw [List.append_nil, List.append_nil] at hskip'
      rw [hskip', if_neg hnil]
      simp only [hend, readStatement_of_unmarked htrim hat]
      cases readDeclaration t <;> rfl
  | case2 t before stop after hcut ih =>
    obtain ⟨rfl, hstop⟩ := breakAt_eq_some hcut
    obtain rfl := of_decide_eq_true hstop
    obtain ⟨hbefore, hstart⟩ := eq_none_of_breakAt hcut
    rw [breakAt_append_eq_none_iff, hstart, breakAt_cons_eq_none_iff] at hforeign
    rw [List.forall_mem_cons] at hat
    have hmore := ih hforeign.2.2 hat.2
    rw [readDeclarations_of_semicolon hcut]
    by_cases hnil : Text.trim Text.isBlank before = []
    · have hskip : skipSeparators false (before ++ ';' :: after) = skipSeparators false after := by
        rw [skipSeparators_append (isAsciiBlank_of_part hforeign.1 hnil)]
        rfl
      rw [readItems_eq, hskip, ← readItems_eq, hmore, if_pos hnil]
    · obtain ⟨c, u, hskip, htrim, hend, hafter⟩ := exists_of_part hbefore hforeign.1 hnil
      have hcut' : breakAt endsItem Nesting.start (c :: u ++ ';' :: after) =
          some (c :: u, ';', after) :=
        breakAt_append_cons hend (by rw [hafter, hstart]; rfl) rfl after
      rw [List.cons_append] at hcut'
      rw [readItems_eq, hskip, if_neg hnil, List.cons_append]
      simp only [hcut', readStatement_of_unmarked htrim hat.1, hmore]
      cases readDeclaration before with
      | error e => rfl
      | ok d => cases readDeclarations after <;> rfl

/-! ## Kinds of faults -/

/-- The kind of a fault: the fault without the text that it quotes. -/
def Error.kind : Error → Error
  | unterminatedComment => unterminatedComment
  | unterminatedString _ => unterminatedString []
  | unclosedBlock _ => unclosedBlock []
  | unexpectedCloseBrace _ => unexpectedCloseBrace []
  | missingSelector _ => missingSelector []
  | missingColon _ => missingColon []
  | emptyProperty _ => emptyProperty []
  | strayDeclaration _ => strayDeclaration []

theorem skipComment_concat_eq_none (h : skipComment t = none) (hc : c ≠ '/') :
    skipComment (t ++ [c]) = none := by
  fun_induction skipComment t with
  | case1 =>
    rw [List.nil_append, skipComment_cons fun _ hslash => by cases hslash]
    rfl
  | case2 => cases h
  | case3 d t hend ih =>
    rw [List.cons_append, skipComment_cons, ih h]
    rintro rfl hslash
    cases t with
    | nil => exact hc (Option.some.inj hslash)
    | cons e t => exact hend t rfl (congrArg (· :: t) (Option.some.inj hslash))

theorem takeLiteral_concat_eq_none {quote : Char} (h : takeLiteral quote t = none)
    (hc : c ≠ quote) : takeLiteral quote (t ++ [c]) = none := by
  rw [Option.eq_none_iff_forall_not_mem]
  rintro ⟨body, rest⟩ hmem
  have hbody := literal_of_takeLiteral hmem
  have hsplit := takeLiteral_eq_some hmem
  rcases List.eq_nil_or_concat rest with rfl | ⟨rest, d, rfl⟩
  · -- then the literal ends with the character, which is not its quote
    have hlast := hbody.getLast?_eq
    rw [← List.append_nil body, ← hsplit, List.getLast?_concat] at hlast
    exact hc (Option.some.inj hlast)
  · rw [List.concat_eq_append, ← List.append_assoc] at hsplit
    rw [(List.append_inj' hsplit rfl).1, hbody.takeLiteral_append rest] at h
    cases h

/-- A comment or literal that is open at the end of a source is open behind a further character that
belongs to neither. -/
theorem stripCommentsAfter_concat_error {e : Error} (h : stripCommentsAfter last s = .error e)
    (hc : partsComments c = true) :
    ∃ e', stripCommentsAfter last (s ++ [c]) = .error e' ∧ e'.kind = e.kind := by
  obtain ⟨-, hquote, hslash, -⟩ := partsComments_iff.1 hc
  have hmap : ∀ {x : Except Error Text} (f : Text → Text),
      (∃ e', x = .error e' ∧ e'.kind = e.kind) → ∃ e', f <$> x = .error e' ∧ e'.kind = e.kind := by
    rintro x f ⟨e', rfl, he⟩
    exact ⟨e', rfl, he⟩
  fun_induction stripCommentsAfter last s with
  | case1 => cases h
  | case2 last d s hcomment hskip =>
    obtain ⟨rfl, hhead⟩ := hcomment
    obtain ⟨s, rfl⟩ := List.head?_eq_some_iff.1 hhead
    obtain rfl := Except.error.inj h
    exact ⟨_, stripCommentsAfter_of_open_comment (skipComment_concat_eq_none hskip hslash), rfl⟩
  | case3 last d s hcomment rest hskip hfuse ih =>
    obtain ⟨rfl, hhead⟩ := hcomment
    obtain ⟨s, rfl⟩ := List.head?_eq_some_iff.1 hhead
    rw [List.tail_cons] at hskip
    rw [List.cons_append, List.cons_append,
      stripCommentsAfter_comment (skipComment_append hskip [c]), fuses_append_of_parts hc,
      if_pos hfuse]
    exact hmap _ (ih (eq_error_of_map_eq_error h))
  | case4 last d s hcomment rest hskip hfuse ih =>
    obtain ⟨rfl, hhead⟩ := hcomment
    obtain ⟨s, rfl⟩ := List.head?_eq_some_iff.1 hhead
    rw [List.tail_cons] at hskip
    rw [List.cons_append, List.cons_append,
      stripCommentsAfter_comment (skipComment_append hskip [c]), fuses_append_of_parts hc,
      if_neg hfuse]
    exact ih h
  | case5 last d s hcomment hq hliteral =>
    obtain rfl := Except.error.inj h
    have hne : c ≠ d := by
      rintro rfl
      rw [hq] at hquote
      cases hquote
    exact ⟨_, stripCommentsAfter_of_open_literal hq (takeLiteral_concat_eq_none hliteral hne), rfl⟩
  | case6 last d s hcomment hq literal rest hliteral ih =>
    rw [List.cons_append, stripCommentsAfter_literal hq (takeLiteral_append hliteral [c])]
    exact hmap _ (ih (eq_error_of_map_eq_error h))
  | case7 last d s hcomment hq ih =>
    have hopen : d = '/' → s.head? ≠ some '*' := fun hd hhead => hcomment ⟨hd, hhead⟩
    rw [List.cons_append, stripCommentsAfter_cons (not_comment_append_of_parts hc hopen [])
      (Bool.eq_false_iff.2 hq)]
    exact hmap _ (ih (eq_error_of_map_eq_error h))

/-! ## Rules -/

def inRule (s : Text) : Text := "a\x7b".toList ++ s ++ "\x7d".toList

def ruleSheet (ds : List Declaration) : Stylesheet where
  rules := [.block (.style [['a']]) (ds.map .declaration)]
  all_isRule := by simp

theorem ruleSheet_injective {ds es : List Declaration} (h : ruleSheet ds = ruleSheet es) :
    ds = es := by
  have hrules := congrArg Stylesheet.rules h
  simp only [ruleSheet, List.cons.injEq, Item.block.injEq, true_and, and_true] at hrules
  exact List.map_injective_iff.2 (fun _ _ => Item.declaration.inj) hrules

theorem stripComments_inRule (s : Text) :
    stripComments (inRule s) = ("a\x7b".toList ++ ·) <$> stripComments (s ++ ['}']) := by
  have hname : stripCommentsAfter none ('a' :: '{' :: (s ++ ['}'])) =
      ('a' :: ·) <$> stripCommentsAfter (some 'a') ('{' :: (s ++ ['}'])) :=
    stripCommentsAfter_cons (fun hc => absurd hc (by decide)) (by decide)
  have hsource : inRule s = 'a' :: '{' :: (s ++ ['}']) := rfl
  rw [hsource, stripComments, hname, stripCommentsAfter_cons_of_parts (by decide), ← comp_map]
  rfl

/-- The rule around a text is cut off, and its items are those of the text. -/
theorem readItems_inRule (hblock : blockAfter? Quoting.start 0 t = some (Quoting.start, 0)) :
    readItems true (inRule t) =
      (fun items => [.block (.style [['a']]) items]) <$> readItems false t := by
  have hskip : skipSeparators true (inRule t) = 'a' :: '{' :: (t ++ ['}']) :=
    skipSeparators_eq_self (by decide) (by decide) rfl
  have hcut : breakAt endsItem Nesting.start ('a' :: '{' :: (t ++ ['}'])) =
      some (['a'], '{', t ++ ['}']) := rfl
  have hclose : closeBlock Quoting.start 0 (t ++ ['}']) = some (t, []) := by
    rw [closeBlock_append hblock]
    simp [closeBlock, show Quoting.start.isPlain = true from rfl]
  have hhead : readHead ['a'] t = .ok (.style [['a']]) := by
    have hselectors : readSelectors ['a'] = .ok [['a']] := by decide +kernel
    have hcollapse : collapse ['a'] = ['a'] := by decide
    unfold readHead
    rw [hcollapse]
    exact congrArg (Head.style <$> ·) hselectors
  rw [readItems_eq, hskip]
  simp only [hcut, hclose, hhead, readItems_nil]
  cases readItems false t <;> rfl

/-- What is left of a source is read in a rule as it is read by itself. -/
theorem parseStylesheet_inRule (h : Inline s) (ht : stripComments s = .ok t) :
    parseStylesheet (inRule s) = ruleSheet <$> parseDeclarations s := by
  have hread := stripping_of_stripComments ht
  have hplain : EachOutside (fun c _ => c ≠ '\\' ∧ isForeign c = false) Zone.start s := by
    intro front c back slashed hs hz
    refine ⟨?_, h.domestic front c back slashed hs hz⟩
    rintro rfl
    exact h.unescaped (hs ▸ List.mem_append_right front List.mem_cons_self)
  have hbare := hread.bare Bool.false_ne_true.elim hplain (by decide)
  have hquote : ∀ c, isQuote c = true → isForeign c = false := by
    intro c hc
    simp only [isQuote, Bool.or_eq_true, decide_eq_true_eq] at hc
    rcases hc with rfl | rfl <;> decide
  have hforeign : breakAt isForeign Nesting.start t = none :=
    hbare.breakAt_eq_none rfl (fun _ hc => hc) hquote
  have hblock : blockAfter? Quoting.start 0 t = some (Quoting.start, 0) := by
    refine hbare.blockAfter?_eq (fun c hc => ?_) 0
    obtain ⟨hopen, hclose, -⟩ := not_isForeign_iff.1 hc.2
    exact ⟨hc.1, hopen, hclose⟩
  have hclosed : stripComments (s ++ ['}']) = .ok (t ++ ['}']) := by
    rw [stripComments, hread.stripCommentsAfter_append (by decide), stripComments,
      stripCommentsAfter]
    rfl
  have hstrip : stripComments (inRule s) = .ok (inRule t) := by
    rw [stripComments_inRule, hclosed]
    rfl
  have hitems := readItems_eq_readDeclarations hforeign (h.unmarked t ht)
  rw [parseStylesheet_eq, parseDeclarations_eq, hstrip, ht]
  simp only [bind, Except.bind]
  rw [readItems_inRule hblock, hitems]
  cases readDeclarations t <;> rfl

/-- A source of declarations is read in the braces of a rule as it is read by itself: the rule has
the same declarations, or there is a fault of the same kind. -/
theorem parse_inRule (h : Inline s) :
    (∀ ds, parseDeclarations s = .ok ds ↔ parseStylesheet (inRule s) = .ok (ruleSheet ds)) ∧
      (∀ sheet, parseStylesheet (inRule s) = .ok sheet → ∃ ds, sheet = ruleSheet ds) ∧
      (∀ e, parseDeclarations s = .error e →
        ∃ e', parseStylesheet (inRule s) = .error e' ∧ e'.kind = e.kind) ∧
      ∀ e, parseStylesheet (inRule s) = .error e →
        ∃ e', parseDeclarations s = .error e' ∧ e'.kind = e.kind := by
  cases ht : stripComments s with
  | error e =>
    have hlist : parseDeclarations s = .error e := by
      rw [parseDeclarations_eq, ht]
      rfl
    obtain ⟨e', hclosed, hkind⟩ := stripCommentsAfter_concat_error (c := '}') ht (by decide)
    have hsheet : parseStylesheet (inRule s) = .error e' := by
      rw [parseStylesheet_eq, stripComments_inRule, stripComments, hclosed]
      rfl
    rw [hlist, hsheet]
    simp [hkind]
  | ok t =>
    rw [parseStylesheet_inRule h ht]
    cases parseDeclarations s with
    | error e => simp
    | ok ds =>
      have hds : ∀ ds', ds = ds' ↔ ruleSheet ds = ruleSheet ds' := fun ds' =>
        ⟨congrArg ruleSheet, ruleSheet_injective⟩
      simpa using hds

/-- Declarations with a brace in a literal and in a comment, and blank parts. -/
def bracedValues : Text := "b:\"\x7b;\" ;; c /* \x7d */ : url(d;e)\n".toList

theorem inline_bracedValues : Inline bracedValues where
  unescaped := by decide
  domestic := by decide
  unmarked := by
    have hstrip : stripComments bracedValues = .ok "b:\"\x7b;\" ;; c  : url(d;e)\n".toList := by
      decide +kernel
    intro t ht
    obtain rfl := Except.ok.inj (hstrip.symm.trans ht)
    decide +kernel

theorem parse_inRule_bracedValues :
    Inline bracedValues ∧
      parseDeclarations bracedValues =
        .ok [⟨['b'], "\"\x7b;\"".toList, false⟩, ⟨['c'], "url(d;e)".toList, false⟩] ∧
      parseStylesheet (inRule bracedValues) =
        .ok (ruleSheet
          [⟨['b'], "\"\x7b;\"".toList, false⟩, ⟨['c'], "url(d;e)".toList, false⟩]) := by
  have hread : parseDeclarations bracedValues =
      .ok [⟨['b'], "\"\x7b;\"".toList, false⟩, ⟨['c'], "url(d;e)".toList, false⟩] := by
    decide +kernel
  exact ⟨inline_bracedValues, hread, ((parse_inRule inline_bracedValues).1 _).1 hread⟩

end Css

end PrettyPayload
