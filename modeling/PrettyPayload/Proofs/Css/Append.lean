import PrettyPayload.Proofs.Css.Blank
import PrettyPayload.Proofs.Css.Normal

/-!
# Sources one behind the other

A semicolon behind a source parts it from every source that follows. Whether it does is seen from
the source alone: where the semicolon changes what is read, it went into a text that the source
leaves open, and otherwise every scan is back at its start behind it. So `parse_append` needs no
more than that a source is read with a semicolon behind it as it is read without. Whatever follows
is then read as if nothing stood before it, its faults included.
-/

namespace PrettyPayload

namespace Css

variable {s t u rest : Text} {c : Char} {last : Option Char} {top : Bool} {item : Item}
  {items : List Item} {d : Declaration}

/-! ## Stylesheets in a row -/

namespace Stylesheet

def append (a b : Stylesheet) : Stylesheet where
  rules := a.rules ++ b.rules
  all_isRule := List.forall_mem_append.2 ⟨a.all_isRule, b.all_isRule⟩

instance : Append Stylesheet := ⟨append⟩

theorem ofItems_append (items more : List Item) :
    ofItems (items ++ more) = ofItems items ++ ofItems more :=
  ext (List.filter_append items more)

end Stylesheet

/-! ## Semicolons that are read along -/

/-- No semicolon of a value is taken for a mark of importance. -/
theorem count_splitImportant (t : Text) : (splitImportant t).1.count ';' = t.count ';' := by
  have hblank : Text.isBlank ';' = false := by decide
  have hend : ∀ u : Text, (Text.trimEnd Text.isBlank u).count ';' = u.count ';' := by
    intro u
    rw [← Text.count_withoutBlanks hblank u, ← Text.withoutBlanks_trim, ← Text.trim_trimEnd,
      Text.withoutBlanks_trim, Text.count_withoutBlanks hblank]
  have hstart : ∀ u : Text, (u.dropWhile Text.isBlank).count ';' = u.count ';' := by
    intro u
    rw [← Text.count_withoutBlanks hblank u, ← Text.withoutBlanks_trim, Text.trim,
      Text.count_withoutBlanks hblank, hend, Text.trimStart]
  unfold splitImportant
  dsimp only
  split
  next => exact hend t
  next back hback =>
    split
    next rest hrest =>
      obtain ⟨word, hword, hlower⟩ := eq_append_of_dropPrefixIgnoringCase? hback
      have hnone : word.count ';' = 0 := by
        rw [List.count_eq_zero]
        intro hmem
        have hmark : Text.lowerChar ';' ∈ Text.lower word := List.mem_map_of_mem hmem
        rw [hlower] at hmark
        exact absurd hmark (by decide)
      calc (rest.dropWhile Text.isBlank).reverse.count ';'
          = ('!' :: rest).count ';' := by
            rw [List.count_reverse, hstart, List.count_cons_of_ne (by decide)]
        _ = back.count ';' := by rw [← hrest, hstart]
        _ = (Text.trimEnd Text.isBlank t).reverse.count ';' := by
            rw [hword, List.count_append, hnone, Nat.zero_add]
        _ = t.count ';' := by rw [List.count_reverse, hend]
    next => exact hend t

theorem count_collapse (t : Text) : (collapse t).count ';' = t.count ';' := by
  have hblank : Text.isBlank ';' = false := by decide
  rw [← Text.count_withoutBlanks hblank, withoutBlanks_collapse, Text.count_withoutBlanks hblank]

theorem count_trim (t : Text) : (Text.trim Text.isBlank t).count ';' = t.count ';' := by
  have hblank : Text.isBlank ';' = false := by decide
  rw [← Text.count_withoutBlanks hblank, Text.withoutBlanks_trim, Text.count_withoutBlanks hblank]

theorem count_splitAtName (t : Text) : (splitAtName t).2.count ';' = t.count ';' := by
  have hname : (t.takeWhile isNameChar).count ';' = 0 := by
    rw [List.count_eq_zero]
    intro hmem
    exact absurd (List.all_eq_true.1 List.all_takeWhile ';' hmem) (by decide)
  conv => rhs; rw [← List.takeWhile_append_dropWhile (p := isNameChar) (l := t)]
  rw [splitAtName, count_trim, List.count_append, hname, Nat.zero_add]

theorem count_of_readDeclaration (h : readDeclaration t = .ok d) :
    d.property.count ';' + d.value.count ';' = t.count ';' := by
  obtain ⟨before, after, hcut, hproperty, -, hvalue⟩ := exists_of_readDeclaration h
  have hsplit := count_splitImportant (collapse after)
  rw [hvalue, count_collapse] at hsplit
  rw [hproperty, count_collapse, hsplit, ← count_trim t, (breakAt_eq_some hcut).1,
    List.count_append, List.count_cons_of_ne (by decide)]

theorem readDeclaration_concat_ne (h : readDeclaration t = .ok d) :
    readDeclaration (t ++ [';']) ≠ .ok d := by
  intro h'
  have hcount := count_of_readDeclaration h'
  rw [count_of_readDeclaration h, List.count_append] at hcount
  exact absurd hcount (by simp)

theorem readStatement_concat_ne (h : readStatement top t = .ok item) :
    readStatement top (t ++ [';']) ≠ .ok item := by
  intro h'
  have hconcat : (Text.trim Text.isBlank (t ++ [';'])).count ';' =
      (Text.trim Text.isBlank t).count ';' + 1 := by
    rw [count_trim, count_trim, List.count_append]
    rfl
  rcases readStatement_cases h with ⟨rest, hat, -, rfl⟩ | ⟨d, -, hd, -, rfl⟩
  · rcases readStatement_cases h' with ⟨rest', hat', -, heq⟩ | ⟨d', -, -, -, heq⟩
    · have hprelude := congrArg (List.count ';') (Item.statement.inj heq).2
      rw [count_splitAtName, count_splitAtName, count_collapse, count_collapse] at hprelude
      rw [hat, hat', List.count_cons_of_ne (by decide), List.count_cons_of_ne (by decide),
        hprelude] at hconcat
      exact absurd hconcat (by simp)
    · cases heq
  · rcases readStatement_cases h' with ⟨rest', -, -, heq⟩ | ⟨d', -, hd', -, heq⟩
    · cases heq
    · obtain rfl := Item.declaration.inj heq
      rw [← count_of_readDeclaration hd, ← count_of_readDeclaration hd'] at hconcat
      exact absurd hconcat (by simp)

/-! ## Items -/

/-- A semicolon behind a text without separators is the first one, if the scan is at the top. -/
theorem breakAt_concat {stops : Char → Bool} (hs : stops ';' = true)
    (h : breakAt stops Nesting.start t = none) (rest : Text) :
    breakAt stops Nesting.start (t ++ ';' :: rest) = some (t, ';', rest) ∨
      breakAt stops Nesting.start (t ++ [';']) = none := by
  cases htop : (Nesting.start.after t).isTop with
  | true => exact Or.inl (breakAt_append_cons h htop hs rest)
  | false =>
    right
    rw [breakAt_append_eq_none_iff, breakAt_cons_eq_none_iff, htop]
    exact ⟨h, Bool.false_and _, rfl⟩

theorem Reading.append (h : Reading top t items) (hend : readItems top (t ++ [';']) = .ok items)
    (u : Text) : readItems top (t ++ ';' :: u) = (items ++ ·) <$> readItems top u := by
  have hc : (Text.isAsciiBlank ';' || decide (';' = ';')) = true := by decide
  induction h with
  | nothing hskip =>
    rw [readItems_eq, skipSeparators_append_cons hc, if_pos hskip, ← readItems_eq]
    simp
  | @last top t item hne hcut hread =>
    have hskip : ∀ rest, skipSeparators top (t ++ ';' :: rest) =
        skipSeparators top t ++ ';' :: rest := fun rest => by
      rw [skipSeparators_append_cons hc, if_neg hne]
    rcases breakAt_concat rfl hcut u with hcut' | hcut'
    · rw [← hskip] at hcut'
      exact readItems_of_semicolon hcut' hread
    · -- The semicolon is part of the last statement, which is then another one.
      have hreading := reading_of_readItems hend
      rw [← hskip] at hcut'
      cases hreading with
      | last _ _ hread' =>
        rw [hskip] at hread'
        exact absurd hread' (readStatement_concat_ne hread)
      | statement hcut'' _ _ =>
        rw [hcut'] at hcut''
        cases hcut''
      | block hcut'' _ _ _ _ =>
        rw [hcut'] at hcut''
        cases hcut''
  | statement hcut hread _ ih =>
    have hcuts := breakAt_skipSeparators_append hc hcut
    rw [readItems_of_semicolon (hcuts []) hread] at hend
    obtain ⟨more, hmore, heq⟩ := exists_of_map_eq_ok hend
    obtain rfl := (List.cons.inj heq).2
    rw [readItems_of_semicolon (hcuts u) hread, ih hmore, ← comp_map]
    rfl
  | block hcut hclose hhead hbody _ _ ih =>
    have hcuts := breakAt_skipSeparators_append hc hcut
    have hcloses := closeBlock_append_of_some hclose
    have hitems := hbody.readItems_eq_ok
    rw [readItems_of_brace (hcuts []) (hcloses [';']) hhead hitems] at hend
    obtain ⟨more, hmore, heq⟩ := exists_of_map_eq_ok hend
    obtain rfl := (List.cons.inj heq).2
    rw [readItems_of_brace (hcuts u) (hcloses (';' :: u)) hhead hitems, ih hmore, ← comp_map]
    rfl

/-! ## Lists of declarations -/

def readDeclarations (t : Text) : Except Error (List Declaration) :=
  ((splitAtTop ';' t).filter fun part => Text.trim Text.isBlank part ≠ []).mapM readDeclaration

theorem parseDeclarations_eq (s : Text) :
    parseDeclarations s = stripComments s >>= readDeclarations := rfl

/-- The semicolon parts two texts, or it stands inside the last part of the first. -/
theorem splitAtTop_append (t u : Text) :
    splitAtTop ';' (t ++ ';' :: u) = splitAtTop ';' t ++ splitAtTop ';' u ∨
      ∃ parts part, splitAtTop ';' t = parts ++ [part] ∧
        splitAtTop ';' (t ++ [';']) = parts ++ [part ++ [';']] ∧
        (Nesting.start.after part).isTop = false := by
  fun_induction splitAtTop ';' t with
  | case1 t hcut =>
    cases htop : (Nesting.start.after t).isTop with
    | true =>
      left
      rcases breakAt_concat (by decide) hcut u with hcut' | hcut'
      · rw [splitAtTop, hcut']
        rfl
      · rw [breakAt_append_eq_none_iff, breakAt_cons_eq_none_iff, htop] at hcut'
        exact absurd hcut'.2.1 (by decide)
    | false =>
      refine Or.inr ⟨[], t, rfl, ?_, htop⟩
      have hcut' : breakAt (fun c => decide (c = ';')) Nesting.start (t ++ [';']) = none := by
        rw [breakAt_append_eq_none_iff, breakAt_cons_eq_none_iff, htop]
        exact ⟨hcut, rfl, rfl⟩
      rw [splitAtTop, hcut']
      rfl
  | case2 t before stop after hcut ih =>
    have hcuts := breakAt_append_of_some hcut
    rcases ih with ih | ⟨parts, part, hparts, hconcat, htop⟩
    · left
      rw [splitAtTop, hcuts]
      exact congrArg (before :: ·) ih
    · refine Or.inr ⟨before :: parts, part, congrArg (before :: ·) hparts, ?_, htop⟩
      rw [splitAtTop, hcuts]
      exact congrArg (before :: ·) hconcat

theorem isTop_of_trim_eq_nil (h : Text.trim Text.isBlank t = []) :
    (Nesting.start.after t).isTop = true := by
  rw [Nesting.quoted_start.after_blanks rfl (Text.trim_eq_nil_iff.1 h)]
  rfl

theorem readDeclarations_append {ds : List Declaration} (h : readDeclarations t = .ok ds)
    (hend : readDeclarations (t ++ [';']) = .ok ds) (u : Text) :
    readDeclarations (t ++ ';' :: u) = (ds ++ ·) <$> readDeclarations u := by
  rcases splitAtTop_append t u with hsplit | ⟨parts, part, hparts, hconcat, htop⟩
  · unfold readDeclarations at h ⊢
    rw [hsplit, List.filter_append, List.mapM_append, h]
    rfl
  · -- The semicolon is part of the last declaration, which is then another one.
    have hne : ∀ rest : Text, Text.trim Text.isBlank (part ++ rest) ≠ [] := by
      intro rest hnil
      rw [Text.trim_eq_nil_iff, List.forall_mem_append] at hnil
      rw [isTop_of_trim_eq_nil (Text.trim_eq_nil_iff.2 hnil.1)] at htop
      cases htop
    have hlast : ∀ rest : Text, ([part ++ rest].filter fun part =>
        Text.trim Text.isBlank part ≠ []) = [part ++ rest] := fun rest =>
      List.filter_eq_self.2 (List.forall_mem_singleton.2 (by simpa using hne rest))
    have hlast' := hlast []
    rw [List.append_nil] at hlast'
    unfold readDeclarations at h hend
    rw [hparts, List.filter_append, hlast', List.mapM_append] at h
    rw [hconcat, List.filter_append, hlast, List.mapM_append] at hend
    obtain ⟨front, hfront, h⟩ := exists_of_bind_eq_ok h
    obtain ⟨back, hback, h⟩ := exists_of_bind_eq_ok h
    obtain ⟨front', hfront', hend⟩ := exists_of_bind_eq_ok hend
    obtain ⟨back', hback', hend⟩ := exists_of_bind_eq_ok hend
    obtain rfl := Except.ok.inj (hfront.symm.trans hfront')
    obtain rfl := List.append_cancel_left ((Except.ok.inj h).trans (Except.ok.inj hend).symm)
    rw [List.mapM_cons] at hback hback'
    obtain ⟨d, hd, hback⟩ := exists_of_bind_eq_ok hback
    obtain rfl := Except.ok.inj hback
    obtain ⟨d', hd', hback'⟩ := exists_of_bind_eq_ok hback'
    obtain rfl := (List.cons.inj (Except.ok.inj hback')).1
    exact absurd hd' (readDeclaration_concat_ne hd)

/-! ## Sources in a row -/

theorem parseStylesheet_eq (s : Text) :
    parseStylesheet s = stripComments s >>= fun t => Stylesheet.ofItems <$> readItems true t := by
  simp only [parseStylesheet, bind_pure_comp]

/-- Nothing but rules is read at the top, so no two readings give the same stylesheet. -/
theorem eq_of_ofItems_eq {more : List Item} (h : readItems true t = .ok items)
    (h' : readItems true u = .ok more)
    (heq : Stylesheet.ofItems items = Stylesheet.ofItems more) : items = more := by
  rw [← Stylesheet.rules_ofItems fun item hitem => (normal_of_readItems h item hitem).2 rfl, heq,
    Stylesheet.rules_ofItems fun item hitem => (normal_of_readItems h' item hitem).2 rfl]

/-- Behind a stylesheet that a semicolon leaves as it is, what follows it is read by itself. -/
theorem parseStylesheet_append {a : Stylesheet} (h : parseStylesheet s = .ok a)
    (hend : parseStylesheet (s ++ [';']) = .ok a) (t : Text) :
    parseStylesheet (s ++ ';' :: t) = (a ++ ·) <$> parseStylesheet t := by
  rw [parseStylesheet_eq] at h hend
  obtain ⟨u, hu, h⟩ := exists_of_bind_eq_ok h
  obtain ⟨items, hitems, rfl⟩ := exists_of_map_eq_ok h
  have hstrip := (stripping_of_stripComments hu).stripCommentsAfter_append (c := ';') (by decide)
  rw [stripComments, hstrip, stripComments, stripCommentsAfter] at hend
  obtain ⟨items', hitems', heq⟩ := exists_of_map_eq_ok hend
  obtain rfl := eq_of_ofItems_eq hitems' hitems heq
  have hread := (reading_of_readItems hitems).append hitems'
  rw [parseStylesheet_eq, parseStylesheet_eq, stripComments, hstrip]
  cases stripComments t with
  | error e => rfl
  | ok v =>
    have hmap : ∀ more : List Item, Stylesheet.ofItems (items' ++ more) =
        Stylesheet.ofItems items' ++ Stylesheet.ofItems more := Stylesheet.ofItems_append items'
    calc Stylesheet.ofItems <$> readItems true (u ++ ';' :: v)
        = (fun more => Stylesheet.ofItems (items' ++ more)) <$> readItems true v := by
          rw [hread v, ← comp_map]
          rfl
      _ = (Stylesheet.ofItems items' ++ ·) <$> Stylesheet.ofItems <$> readItems true v := by
          simp only [hmap, ← comp_map, Function.comp_def]

theorem parseDeclarations_append {ds : List Declaration} (h : parseDeclarations s = .ok ds)
    (hend : parseDeclarations (s ++ [';']) = .ok ds) (t : Text) :
    parseDeclarations (s ++ ';' :: t) = (ds ++ ·) <$> parseDeclarations t := by
  rw [parseDeclarations_eq] at h hend
  obtain ⟨u, hu, h⟩ := exists_of_bind_eq_ok h
  have hstrip := (stripping_of_stripComments hu).stripCommentsAfter_append (c := ';') (by decide)
  rw [stripComments, hstrip, stripComments, stripCommentsAfter] at hend
  have hread := readDeclarations_append h hend
  rw [parseDeclarations_eq, parseDeclarations_eq, stripComments, hstrip]
  cases stripComments t with
  | error e => rfl
  | ok v => exact hread v

/-- Two sources with a semicolon between them are read as one behind the other, if the first is read
with the semicolon as it is read without: its rules and then those of the second, or the fault of
the second. The same holds of lists of declarations. -/
theorem parse_append (s t : Text) :
    (∀ a, parseStylesheet s = .ok a → parseStylesheet (s ++ [';']) = .ok a →
      (∀ b, parseStylesheet t = .ok b → parseStylesheet (s ++ [';'] ++ t) = .ok (a ++ b)) ∧
        ∀ e, parseStylesheet t = .error e → parseStylesheet (s ++ [';'] ++ t) = .error e) ∧
    ∀ ds, parseDeclarations s = .ok ds → parseDeclarations (s ++ [';']) = .ok ds →
      (∀ es, parseDeclarations t = .ok es →
        parseDeclarations (s ++ [';'] ++ t) = .ok (ds ++ es)) ∧
        ∀ e, parseDeclarations t = .error e → parseDeclarations (s ++ [';'] ++ t) = .error e := by
  rw [List.append_assoc, List.singleton_append]
  constructor
  · intro a ha hend
    rw [parseStylesheet_append ha hend]
    exact ⟨fun b hb => by rw [hb]; rfl, fun e he => by rw [he]; rfl⟩
  · intro ds hds hend
    rw [parseDeclarations_append hds hend]
    exact ⟨fun es hes => by rw [hes]; rfl, fun e he => by rw [he]; rfl⟩

def importPayload : Text := "a\x7bb:c(;)\x7d@import d\\;e/**/".toList

def importSheet : Stylesheet where
  rules :=
    [.block (.style [['a']]) [.declaration ⟨['b'], "c(;)".toList, false⟩],
      .statement "import".toList "d\\;e".toList]
  all_isRule := by simp

def emptyRuleSheet : Stylesheet where
  rules := [.block (.style [['f']]) []]
  all_isRule := by simp

/-- Behind the import stands a mark of an HTML comment with a rule, or a text that is no rule;
behind a declaration stands another one, or a text without a colon. -/
theorem parse_append_importSheet :
    (parseStylesheet importPayload = .ok importSheet ∧
      parseStylesheet (importPayload ++ [';'] ++ "-->f\x7b\x7d".toList) =
        .ok (importSheet ++ emptyRuleSheet) ∧
      parseStylesheet (importPayload ++ [';'] ++ ['g']) = .error (.strayDeclaration ['g'])) ∧
    parseDeclarations "h:'i;'/**/; ".toList = .ok [⟨['h'], "'i;'".toList, false⟩] ∧
      parseDeclarations ("h:'i;'/**/; ".toList ++ [';'] ++ "j:k".toList) =
        .ok [⟨['h'], "'i;'".toList, false⟩, ⟨['j'], ['k'], false⟩] ∧
      parseDeclarations ("h:'i;'/**/; ".toList ++ [';'] ++ ['j']) =
        .error (.missingColon ['j']) := by
  have hsheet : parseStylesheet importPayload = .ok importSheet := by decide +kernel
  have hend : parseStylesheet (importPayload ++ [';']) = .ok importSheet := by decide +kernel
  have hlist : parseDeclarations "h:'i;'/**/; ".toList = .ok [⟨['h'], "'i;'".toList, false⟩] := by
    decide +kernel
  have hlistend : parseDeclarations ("h:'i;'/**/; ".toList ++ [';']) =
      .ok [⟨['h'], "'i;'".toList, false⟩] := by decide +kernel
  have hrule := (parse_append importPayload "-->f\x7b\x7d".toList).1 _ hsheet hend
  have hstray := (parse_append importPayload ['g']).1 _ hsheet hend
  have hmore := (parse_append "h:'i;'/**/; ".toList "j:k".toList).2 _ hlist hlistend
  have hcolon := (parse_append "h:'i;'/**/; ".toList ['j']).2 _ hlist hlistend
  exact ⟨⟨hsheet, hrule.1 emptyRuleSheet (by decide +kernel), hstray.2 _ (by decide +kernel)⟩,
    hlist, hmore.1 _ (by decide +kernel), hcolon.2 _ (by decide +kernel)⟩

end Css

end PrettyPayload
