import PrettyPayload.Proofs.Css.Blank
import PrettyPayload.Proofs.Css.Reread
import PrettyPayload.Proofs.Text.Padding

/-!
# Padded stylesheets

The lines of a stylesheet may be moved to the right: `padLines` puts a padding of spaces and tabs
behind every line feed of a text. Each scan goes over the padding as it goes over the line feed
before it, so reading goes through `padLines`: from a padded source the same items are read, their
texts padded. A line feed that is left in a text stands in a literal that goes on over the next
line, and there the padding stays. Where no text has a line feed, the padded source spells the same
stylesheet.
-/

namespace PrettyPayload

namespace Css

open Text (padLines)

variable {padding s t rest : Text} {stops : Char → Bool} {k : Nesting} {c : Char} {top : Bool}

/-! ## Padded stylesheets -/

def Declaration.padLines (padding : Text) (d : Declaration) : Declaration :=
  ⟨Text.padLines padding d.property, Text.padLines padding d.value, d.important⟩

def Head.padLines (padding : Text) : Head → Head
  | .style selectors => .style (selectors.map (Text.padLines padding))
  | .atRule name prelude => .atRule name (Text.padLines padding prelude)

mutual

def Item.padLines (padding : Text) : Item → Item
  | .declaration d => .declaration (d.padLines padding)
  | .statement name prelude => .statement name (Text.padLines padding prelude)
  | .block head body => .block (head.padLines padding) (Item.padLinesOfAll padding body)

def Item.padLinesOfAll (padding : Text) : List Item → List Item
  | [] => []
  | item :: items => item.padLines padding :: Item.padLinesOfAll padding items

end

theorem Item.padLinesOfAll_eq_map (padding : Text) (items : List Item) :
    Item.padLinesOfAll padding items = items.map (Item.padLines padding) := by
  induction items with
  | nil => rfl
  | cons item items ih => rw [Item.padLinesOfAll, ih, List.map_cons]

theorem Item.isRule_padLines (padding : Text) (item : Item) :
    (item.padLines padding).isRule = item.isRule := by
  cases item <;> rfl

/-! ## Scans over blanks -/

theorem skipComment_of_all (h : ∀ c ∈ s, c ≠ '*') : skipComment (s ++ t) = skipComment t := by
  induction s with
  | nil => rfl
  | cons c s ih =>
    rw [List.forall_mem_cons] at h
    rw [List.cons_append, skipComment_cons fun hc => absurd hc h.1, ih h.2]

theorem Literal.append_of_blanks {quote : Char} {body : Text} (hq : isQuote quote = true)
    (h : ∀ c ∈ s, c = ' ' ∨ c = '\t') (hbody : Literal quote body) : Literal quote (s ++ body) := by
  induction s with
  | nil => exact hbody
  | cons c s ih =>
    rw [List.forall_mem_cons] at h
    have hplain : c ≠ '\\' ∧ c ≠ '\n' ∧ isQuote c = false := by
      rcases h.1 with rfl | rfl <;> decide
    obtain ⟨hslash, hfeed, hquote⟩ := hplain
    have hne : c ≠ quote := by
      rintro rfl
      rw [hq] at hquote
      cases hquote
    exact .char hslash hfeed hne (ih h.2)

theorem head?_of_padLines_append {w : Text} {d : Char} (hw : ∀ c ∈ w, Text.isBlank c = true)
    (hd : Text.isBlank d = false) (h : (padLines padding t ++ w).head? = some d) :
    t.head? = some d := by
  rw [List.head?_append, Text.head?_padLines] at h
  cases t with
  | cons c t => exact h
  | nil =>
    have hblank := hw d (List.mem_of_head? h)
    rw [hd] at hblank
    cases hblank

theorem fuses_padLines {last last' : Option Char} {w : Text}
    (hw : ∀ c ∈ w, Text.isBlank c = true) (hlast : last'.any isNameChar = last.any isNameChar) :
    fuses last' (padLines padding t ++ w).head? = fuses last t.head? := by
  rw [fuses, fuses, hlast, List.head?_append, Text.head?_padLines]
  cases t with
  | cons c t => rfl
  | nil =>
    cases w with
    | nil => rfl
    | cons c w =>
      rw [List.head?_cons, List.head?_nil, Option.none_or, Option.any_some, Option.any_none,
        not_isNameChar_of_isBlank (hw c List.mem_cons_self)]

theorem Spot.step_inside_blank {quote : Char} (hq : isQuote quote = true)
    (h : Text.isBlank c = true) (escaped : Bool) :
    (Spot.inside quote escaped).step c = .inside quote false := by
  cases escaped with
  | true => rfl
  | false =>
    have hslash : c ≠ '\\' := by
      rintro rfl
      exact absurd h (by decide)
    have hne : c ≠ quote := by
      rintro rfl
      rw [not_isBlank_of_isQuote hq] at h
      cases h
    rw [Spot.step, if_neg hslash, if_neg hne]

theorem collapseFrom_inside_of_blanks {quote : Char} (hq : isQuote quote = true)
    (h : ∀ c ∈ s, Text.isBlank c = true) :
    collapseFrom (.inside quote false) (s ++ t) = s ++ collapseFrom (.inside quote false) t := by
  induction s with
  | nil => rfl
  | cons c s ih =>
    rw [List.forall_mem_cons] at h
    rw [List.cons_append, collapseFrom, Spot.emit, Spot.step_inside_blank hq h.1, ih h.2]
    rfl

theorem feed_not_mem_emit (hc : c ≠ '\n') (spot : Spot) : '\n' ∉ spot.emit c := by
  unfold Spot.emit
  split
  · simpa using Ne.symm hc
  · split
    · simpa using Ne.symm hc
    · split
      · split <;> decide
      · simpa using Ne.symm hc

def Spot.Quoted (k : Spot) : Prop := ∀ q escaped, k = .inside q escaped → isQuote q = true

theorem Spot.quoted_between (spaced : Bool) : (Spot.between spaced).Quoted := nofun

theorem Spot.Quoted.step {k : Spot} (h : k.Quoted) (c : Char) : (k.step c).Quoted := by
  intro q escaped hstep
  unfold Spot.step at hstep
  split at hstep
  · split at hstep
    next hc =>
      obtain ⟨rfl, -⟩ := Spot.inside.inj hstep
      exact hc
    next => cases hstep
  · obtain ⟨rfl, -⟩ := Spot.inside.inj hstep
    exact h _ _ rfl
  · split at hstep
    · obtain ⟨rfl, -⟩ := Spot.inside.inj hstep
      exact h _ _ rfl
    · split at hstep
      · cases hstep
      · obtain ⟨rfl, -⟩ := Spot.inside.inj hstep
        exact h _ _ rfl

/-! ## Scans over padded texts -/

section Padded

variable (hp : ∀ c ∈ padding, c = ' ' ∨ c = '\t')

include hp

theorem isBlank_of_mem_padding : ∀ c ∈ padding, Text.isBlank c = true := by
  intro c hc
  rcases hp c hc with rfl | rfl <;> decide

theorem isAsciiBlank_of_mem_feed_padding : ∀ c ∈ '\n' :: padding, Text.isAsciiBlank c = true := by
  refine List.forall_mem_cons.2 ⟨by decide, fun c hc => ?_⟩
  rcases hp c hc with rfl | rfl <;> decide

theorem breakAt_padLines (hs : ∀ c, stops c = true → Text.isBlank c = false) (hk : k.Quoted) :
    breakAt stops k (padLines padding t) = (breakAt stops k t).map fun (before, d, after) =>
      (padLines padding before, d, padLines padding after) := by
  have hblank := isBlank_of_mem_padding hp
  induction t generalizing k with
  | nil => rfl
  | cons c t ih =>
    by_cases hc : c = '\n'
    · subst hc
      have hstop : (k.isTop && stops '\n') = false := by
        cases hstop : stops '\n' with
        | false => rw [Bool.and_false]
        | true => exact absurd (hs '\n' hstop) (by decide)
      have hescaped : (k.step '\n').quoting.escaped = false := by rw [hk.step_blank (by decide)]
      rw [Text.padLines_feed, breakAt, breakAt, hstop, if_neg Bool.false_ne_true,
        if_neg Bool.false_ne_true, breakAt_append (breakAt_of_blanks hs hblank _),
        (hk.step '\n').after_blanks hescaped hblank, ih (hk.step '\n'), Option.map_map,
        Option.map_map, Option.map_map]
      simp [Function.comp_def, Text.padLines_feed]
    · rw [Text.padLines_cons hc, breakAt, breakAt]
      split
      · rfl
      · rw [ih (hk.step c), Option.map_map, Option.map_map]
        simp [Function.comp_def, Text.padLines_cons hc]

theorem closeBlock_padLines (hk : k.Quoted) (depth : Nat) :
    closeBlock k.quoting depth (padLines padding t) =
      (closeBlock k.quoting depth t).map fun (body, rest) =>
        (padLines padding body, padLines padding rest) := by
  have hblank := isBlank_of_mem_padding hp
  induction t generalizing k depth with
  | nil => cases depth <;> rfl
  | cons c t ih =>
    by_cases hc : c = '\n'
    · subst hc
      have hescaped : (k.step '\n').quoting.escaped = false := by rw [hk.step_blank (by decide)]
      have hpad := blockAfter?_of_blanks (hk.step '\n') hescaped hblank depth
      rw [Text.padLines_feed, closeBlock_cons, closeBlock_cons, depthAfter?_of_blank (by decide)]
      dsimp only
      rw [← Nesting.quoting_step, closeBlock_append hpad, ih (hk.step '\n'), Option.map_map,
        Option.map_map, Option.map_map]
      simp [Function.comp_def, Text.padLines_feed]
    · rw [Text.padLines_cons hc, closeBlock_cons, closeBlock_cons]
      split
      · rfl
      · rw [← Nesting.quoting_step, ih (hk.step c), Option.map_map, Option.map_map]
        simp [Function.comp_def, Text.padLines_cons hc]

theorem splitAtTop_padLines {sep : Char} (hsep : Text.isBlank sep = false) :
    splitAtTop sep (padLines padding t) = (splitAtTop sep t).map (padLines padding) := by
  have hstops : ∀ c, decide (c = sep) = true → Text.isBlank c = false := by
    intro c hc
    rwa [of_decide_eq_true hc]
  fun_induction splitAtTop sep t with
  | case1 t hcut =>
    rw [splitAtTop, breakAt_padLines hp hstops Nesting.quoted_start, hcut]
    rfl
  | case2 t before stop after hcut ih =>
    rw [splitAtTop, breakAt_padLines hp hstops Nesting.quoted_start, hcut]
    exact congrArg (padLines padding before :: ·) ih

theorem skipComment_padLines (h : skipComment t = some rest) (u : Text) :
    skipComment (padLines padding t ++ u) = some (padLines padding rest ++ u) := by
  fun_induction skipComment t with
  | case1 => cases h
  | case2 t =>
    obtain rfl := Option.some.inj h
    rw [Text.padLines_cons (by decide), Text.padLines_cons (by decide)]
    rfl
  | case3 c t hend ih =>
    by_cases hc : c = '\n'
    · have hpad : ∀ c ∈ '\n' :: padding, c ≠ '*' :=
        List.forall_mem_cons.2 ⟨by decide, fun c hc => by rcases hp c hc with rfl | rfl <;> decide⟩
      rw [hc, Text.padLines_feed, ← List.cons_append, List.append_assoc, skipComment_of_all hpad]
      exact ih h
    · rw [Text.padLines_cons hc, List.cons_append, skipComment_cons]
      · exact ih h
      · rintro rfl hslash
        cases t with
        | nil => cases h
        | cons d t =>
          have hhead : (padLines padding (d :: t) ++ u).head? = some d := by
            rw [List.head?_append, Text.head?_padLines, List.head?_cons, Option.some_or]
          rw [hhead] at hslash
          exact hend t rfl (by rw [Option.some.inj hslash])

theorem Literal.padLines {quote : Char} {body : Text} (hq : isQuote quote = true)
    (h : Literal quote body) : Literal quote (padLines padding body) := by
  induction h with
  | close hslash hfeed =>
    rw [Text.padLines_cons hfeed]
    exact .close hslash hfeed
  | escape c _ ih =>
    rw [Text.padLines_cons (by decide)]
    by_cases hc : c = '\n'
    · rw [hc, Text.padLines_feed]
      exact .escape '\n' (ih.append_of_blanks hq hp)
    · rw [Text.padLines_cons hc]
      exact .escape c ih
  | char hslash hfeed hquote _ ih =>
    rw [Text.padLines_cons hfeed]
    exact .char hslash hfeed hquote ih

theorem Stripping.padLines {last last' : Option Char} {u w : Text} (h : Stripping last t u)
    (hw : ∀ c ∈ w, Text.isBlank c = true) (hlast : last'.any isNameChar = last.any isNameChar) :
    stripCommentsAfter last' (padLines padding t ++ w) = .ok (padLines padding u ++ w) := by
  induction h generalizing last' with
  | nil last =>
    have hblanks := stripCommentsAfter_of_blanks (t := []) hw last'
    rw [List.append_nil, stripCommentsAfter] at hblanks
    rw [Text.padLines_nil, List.nil_append, hblanks]
    exact congrArg Except.ok (List.append_nil w)
  | space hskip hfuse _ ih =>
    rw [Text.padLines_cons (by decide), Text.padLines_cons (by decide), List.cons_append,
      List.cons_append, stripCommentsAfter_comment (skipComment_padLines hp hskip w),
      fuses_padLines hw hlast, if_pos hfuse, ih rfl, Text.padLines_cons (by decide)]
    rfl
  | comment hskip hfuse _ ih =>
    rw [Text.padLines_cons (by decide), Text.padLines_cons (by decide), List.cons_append,
      List.cons_append, stripCommentsAfter_comment (skipComment_padLines hp hskip w),
      fuses_padLines hw hlast, if_neg (Bool.eq_false_iff.1 hfuse), ih hlast]
  | @literal last quote t body rest u hq hliteral _ ih =>
    have hbody := (literal_of_takeLiteral hliteral).padLines hp hq
    have hfeed : quote ≠ '\n' := by
      rintro rfl
      exact absurd hq (by decide)
    obtain rfl := takeLiteral_eq_some hliteral
    rw [Text.padLines_cons hfeed, Text.padLines_append, List.cons_append, List.append_assoc,
      stripCommentsAfter_literal hq (hbody.takeLiteral_append _), ih rfl]
    simp [Text.padLines_cons hfeed]
  | @cons last c t u hslash hq _ ih =>
    by_cases hc : c = '\n'
    · have hblank : ∀ c ∈ '\n' :: padding, Text.isBlank c = true :=
        List.forall_mem_cons.2 ⟨by decide, isBlank_of_mem_padding hp⟩
      have hlast' : (('\n' :: padding).getLast?.or last').any isNameChar =
          (some c).any isNameChar := by
        rw [any_isNameChar_of_blanks (List.cons_ne_nil _ _) hblank, hc]
        decide
      have hsplit : Text.padLines padding (c :: t) ++ w =
          '\n' :: padding ++ (Text.padLines padding t ++ w) := by
        rw [hc, Text.padLines_feed]
        simp
      rw [hsplit, stripCommentsAfter_of_blanks hblank, ih hlast', hc, Text.padLines_feed]
      simp
    · have hslash' : c = '/' → (Text.padLines padding t ++ w).head? ≠ some '*' := fun hc hstar =>
        hslash hc (head?_of_padLines_append hw (by decide) hstar)
      rw [Text.padLines_cons hc, List.cons_append, stripCommentsAfter_cons hslash' hq, ih rfl,
        Text.padLines_cons hc]
      rfl

theorem collapseFrom_padLines {spot : Spot} (hspot : spot.Quoted) :
    collapseFrom spot (padLines padding t) = padLines padding (collapseFrom spot t) := by
  have hblank := isBlank_of_mem_padding hp
  induction t generalizing spot with
  | nil => rfl
  | cons c t ih =>
    have htail := ih (hspot.step c)
    by_cases hc : c = '\n'
    · subst hc
      rw [Text.padLines_feed, collapseFrom, collapseFrom]
      cases spot with
      | between spaced =>
        have hstep : (Spot.between spaced).step '\n' = .between true := by cases spaced <;> rfl
        have hemit : '\n' ∉ (Spot.between spaced).emit '\n' := by cases spaced <;> decide
        rw [hstep] at htail ⊢
        rw [collapseFrom_of_blanks hblank, htail, Text.padLines_append,
          Text.padLines_eq_self hemit]
      | inside quote escaped =>
        have hq := hspot quote escaped rfl
        rw [Spot.step_inside_blank hq (by decide)] at htail ⊢
        rw [collapseFrom_inside_of_blanks hq hblank, htail, Spot.emit, List.singleton_append,
          List.singleton_append, Text.padLines_feed]
    · rw [Text.padLines_cons hc, collapseFrom, collapseFrom, htail, Text.padLines_append,
        Text.padLines_eq_self (feed_not_mem_emit hc spot)]

theorem collapse_padLines : collapse (padLines padding t) = padLines padding (collapse t) := by
  rw [collapse, collapse, collapseFrom_padLines hp (Spot.quoted_between false),
    Text.trim_padLines (isBlank_of_mem_padding hp)]

theorem splitAtName_padLines :
    splitAtName (padLines padding t) =
      ((splitAtName t).1, padLines padding (splitAtName t).2) := by
  rw [splitAtName, splitAtName, Text.takeWhile_padLines (by decide),
    Text.dropWhile_padLines (by decide), Text.trim_padLines (isBlank_of_mem_padding hp)]

/-- The mark of importance at the end of a value is found behind a padding. -/
theorem splitImportant_padLines (ht : Text.trimEnd Text.isBlank t = t) :
    splitImportant (padLines padding t) =
      (padLines padding (splitImportant t).1, (splitImportant t).2) := by
  have hlast : ∀ c, t.getLast? = some c → Text.isBlank c = false := by
    intro c hc
    rw [← ht] at hc
    exact Text.getLast?_trimEnd hc
  have hword : ∀ a ∈ "tnatropmi".toList, Text.lowerChar a ∉ [' ', '\t', '\n'] :=
    Text.forall_mem_of_all (by decide)
  unfold splitImportant
  simp only [ht, Text.trimEnd_eq_self (Text.isBlank_getLast_padLines hlast),
    Text.reverse_padLines, Text.dropPrefixIgnoringCase?_padBack hp hword]
  cases Text.dropPrefixIgnoringCase? "tnatropmi".toList t.reverse with
  | none => rfl
  | some back =>
    simp only [Option.map_some, Text.dropWhile_padBack (isBlank_of_mem_padding hp)]
    cases hrest : back.dropWhile Text.isBlank with
    | nil => rfl
    | cons c rest =>
      have hc : Text.isBlank c = false :=
        Text.head?_trimStart (t := back) (by rw [Text.trimStart, hrest]; rfl)
      have hne : c ≠ '\n' := by
        rintro rfl
        exact absurd hc (by decide)
      rw [Text.padBack_cons hne]
      by_cases hmark : c = '!'
      · subst hmark
        simp only [Text.dropWhile_padBack (isBlank_of_mem_padding hp), Text.reverse_padBack]
      · split
        next heq => exact absurd (List.cons.inj heq).1 hmark
        next =>
          split
          next heq => exact absurd (List.cons.inj heq).1 hmark
          next => rfl

theorem skipSeparators_padLines :
    skipSeparators top (padLines padding t) = padLines padding (skipSeparators top t) := by
  fun_induction skipSeparators top t with
  | case1 t htop ih =>
    simp only [Text.padLines_cons (show '<' ≠ '\n' by decide),
      Text.padLines_cons (show '!' ≠ '\n' by decide),
      Text.padLines_cons (show '-' ≠ '\n' by decide)]
    rw [skipSeparators, if_pos htop, ih]
  | case2 t htop =>
    simp only [Text.padLines_cons (show '<' ≠ '\n' by decide),
      Text.padLines_cons (show '!' ≠ '\n' by decide),
      Text.padLines_cons (show '-' ≠ '\n' by decide)]
    rw [skipSeparators, if_neg htop]
  | case3 t htop ih =>
    simp only [Text.padLines_cons (show '-' ≠ '\n' by decide),
      Text.padLines_cons (show '>' ≠ '\n' by decide)]
    rw [skipSeparators, if_pos htop, ih]
  | case4 t htop =>
    simp only [Text.padLines_cons (show '-' ≠ '\n' by decide),
      Text.padLines_cons (show '>' ≠ '\n' by decide)]
    rw [skipSeparators, if_neg htop]
  | case5 c t hopen hclose h ih =>
    by_cases hc : c = '\n'
    · rw [hc, Text.padLines_feed, ← List.cons_append,
        skipSeparators_append (isAsciiBlank_of_mem_feed_padding hp), ih]
    · rw [Text.padLines_cons hc, skipSeparators, if_pos h, ih]
      · rintro u rfl -
        exact absurd h (by decide)
      · rintro u rfl -
        exact absurd h (by decide)
  | case6 c t hopen hclose h =>
    have hc : c ≠ '\n' := by
      rintro rfl
      exact h (by decide)
    rw [Text.padLines_cons hc, skipSeparators, if_neg h]
    · intro u hc hmark
      obtain ⟨v, rfl, hbang⟩ := Text.exists_of_padLines_eq_cons (by decide) hmark
      obtain ⟨v, rfl, hdash⟩ := Text.exists_of_padLines_eq_cons (by decide) hbang
      obtain ⟨v, rfl, -⟩ := Text.exists_of_padLines_eq_cons (by decide) hdash
      exact hopen v hc rfl
    · intro u hc hmark
      obtain ⟨v, rfl, hdash⟩ := Text.exists_of_padLines_eq_cons (by decide) hmark
      obtain ⟨v, rfl, -⟩ := Text.exists_of_padLines_eq_cons (by decide) hdash
      exact hclose v hc rfl
  | case7 => rfl

/-! ## Reading padded texts -/

theorem readDeclaration_padLines {d : Declaration} (h : readDeclaration t = .ok d) :
    readDeclaration (padLines padding t) = .ok (d.padLines padding) := by
  obtain ⟨before, after, hcut, hproperty, hne, hvalue⟩ := exists_of_readDeclaration h
  have hstops : ∀ c, decide (c = ':') = true → Text.isBlank c = false := by
    intro c hc
    rw [of_decide_eq_true hc]
    decide
  have htrim : Text.trimEnd Text.isBlank (collapse after) = collapse after :=
    Text.trimEnd_eq_self fun _ hc => Text.getLast?_trimEnd hc
  have hne' : padLines padding (collapse before) ≠ [] := by
    rw [← hproperty]
    exact mt Text.padLines_eq_nil_iff.1 hne
  unfold readDeclaration
  dsimp only
  rw [Text.trim_padLines (isBlank_of_mem_padding hp),
    breakAt_padLines hp hstops Nesting.quoted_start, hcut]
  dsimp only [Option.map_some]
  rw [collapse_padLines hp, collapse_padLines hp, if_neg hne', splitImportant_padLines hp htrim,
    hvalue, ← hproperty]
  rfl

theorem readSelectors_padLines {selectors : List Text} (h : readSelectors t = .ok selectors) :
    readSelectors (padLines padding t) = .ok (selectors.map (padLines padding)) := by
  obtain ⟨rfl, hne⟩ := eq_map_of_readSelectors h
  rw [List.forall_mem_map] at hne
  rw [readSelectors, splitAtTop_padLines hp (by decide), List.mapM_map, List.map_map]
  refine mapM_eq_ok fun part hpart => ?_
  have hpad : Text.trim Text.isBlank (padLines padding part) ≠ [] := by
    rw [Text.trim_padLines (isBlank_of_mem_padding hp)]
    exact mt Text.padLines_eq_nil_iff.1 (hne part hpart)
  dsimp only [Function.comp_apply]
  rw [if_neg hpad, Text.trim_padLines (isBlank_of_mem_padding hp)]

theorem readHead_padLines {head : Head} {before body body' : Text}
    (h : readHead before body = .ok head) :
    readHead (padLines padding before) body' = .ok (head.padLines padding) := by
  rcases readHead_cases h with ⟨rest, hat, hname, rfl⟩ | ⟨selectors, hat, hselectors, rfl⟩
  · unfold readHead
    simp only [collapse_padLines hp, hat, Text.padLines_cons (show '@' ≠ '\n' by decide),
      splitAtName_padLines hp, if_neg hname]
    rfl
  · have hne : collapse before ≠ [] := by
      intro hnil
      rw [readHead, hnil] at h
      cases h
    unfold readHead
    rw [collapse_padLines hp]
    split
    next hnil => exact absurd (Text.padLines_eq_nil_iff.1 hnil) hne
    next rest hrest =>
      obtain ⟨u, hu, -⟩ := Text.exists_of_padLines_eq_cons (by decide) hrest
      exact absurd (by rw [hu]; rfl) hat
    next =>
      rw [readSelectors_padLines hp hselectors]
      rfl

theorem readStatement_padLines {item : Item} (h : readStatement top t = .ok item) :
    readStatement top (padLines padding t) = .ok (item.padLines padding) := by
  have htrim : Text.trim Text.isBlank (padLines padding t) =
      padLines padding (Text.trim Text.isBlank t) := Text.trim_padLines (isBlank_of_mem_padding hp)
  unfold readStatement
  dsimp only
  rw [htrim]
  rcases readStatement_cases h with ⟨rest, hat, hname, rfl⟩ | ⟨d, rfl, hd, hno, rfl⟩
  · simp only [hat, Text.padLines_cons (show '@' ≠ '\n' by decide), collapse_padLines hp,
      splitAtName_padLines hp, if_neg hname]
    rfl
  · have hdeclaration : Item.declaration <$>
        readDeclaration (padLines padding (Text.trim Text.isBlank t)) =
          .ok (.declaration (d.padLines padding)) := by
      rw [readDeclaration_padLines hp hd]
      rfl
    simp only [Bool.false_eq_true, if_false]
    split
    next rest hat =>
      obtain ⟨u, hu, rfl⟩ := Text.exists_of_padLines_eq_cons (by decide) hat
      rw [hu, hasAtName] at hno
      have hname := splitAtName_eq_nil_iff.2 hno
      rw [collapse_padLines hp, splitAtName_padLines hp, if_pos hname]
      exact hdeclaration
    next => exact hdeclaration

theorem Reading.padLines {items : List Item} (h : Reading top t items) :
    Reading top (padLines padding t) (items.map (Item.padLines padding)) := by
  have hcuts : ∀ {top : Bool} {t before after : Text} {stop : Char},
      breakAt endsItem Nesting.start (skipSeparators top t) = some (before, stop, after) →
      breakAt endsItem Nesting.start (skipSeparators top (Text.padLines padding t)) =
        some (Text.padLines padding before, stop, Text.padLines padding after) := by
    intro top t before after stop hcut
    rw [skipSeparators_padLines hp, breakAt_padLines hp isBlank_of_endsItem Nesting.quoted_start,
      hcut]
    rfl
  induction h with
  | nothing hskip => exact .nothing (by rw [skipSeparators_padLines hp, hskip]; rfl)
  | last hne hcut hread =>
    refine .last ?_ ?_ ?_ <;> rw [skipSeparators_padLines hp]
    · exact mt Text.padLines_eq_nil_iff.1 hne
    · rw [breakAt_padLines hp isBlank_of_endsItem Nesting.quoted_start, hcut]
      rfl
    · exact readStatement_padLines hp hread
  | statement hcut hread _ ih => exact .statement (hcuts hcut) (readStatement_padLines hp hread) ih
  | @block _ _ _ after _ _ _ _ _ hcut hclose hhead _ _ ihbody ihmore =>
    have hclose' := closeBlock_padLines (t := after) hp Nesting.quoted_start 0
    rw [show Nesting.start.quoting = Quoting.start from rfl, hclose, Option.map_some] at hclose'
    rw [List.map_cons, Item.padLines, Item.padLinesOfAll_eq_map]
    exact .block (hcuts hcut) hclose' (readHead_padLines hp hhead) ihbody ihmore

end Padded

/-! ## Blanks behind a stylesheet -/

theorem readStatement_append_of_blanks (h : ∀ c ∈ s, Text.isBlank c = true) :
    readStatement top (t ++ s) = readStatement top t := by
  have htrim : Text.trim Text.isBlank (t ++ s) = Text.trim Text.isBlank t := by
    rw [← Text.trim_trimEnd, Text.trimEnd_append_of_all h, Text.trim_trimEnd]
  unfold readStatement
  rw [htrim]

theorem Reading.append_of_blanks {items : List Item} (hs : ∀ c ∈ s, Text.isAsciiBlank c = true)
    (h : Reading top t items) : Reading top (t ++ s) items := by
  cases s with
  | nil => rwa [List.append_nil]
  | cons c s =>
    have hblank : ∀ d ∈ c :: s, Text.isBlank d = true := fun d hd =>
      isBlank_of_isAsciiBlank (hs d hd)
    rw [List.forall_mem_cons] at hs
    have hc : (Text.isAsciiBlank c || decide (c = ';')) = true := by rw [hs.1, Bool.true_or]
    induction h with
    | @nothing top t hskip =>
      have hnil : skipSeparators top (s ++ []) = [] := skipSeparators_append hs.2
      refine .nothing ?_
      rwa [skipSeparators_append_cons hc, if_pos hskip, ← List.append_nil s]
    | last hne hcut hread =>
      refine .last ?_ ?_ ?_ <;> rw [skipSeparators_append_cons hc, if_neg hne]
      · exact List.append_ne_nil_of_left_ne_nil hne _
      · exact breakAt_append_eq_none_iff.2 ⟨hcut, breakAt_of_blanks isBlank_of_endsItem hblank _⟩
      · rw [readStatement_append_of_blanks hblank, hread]
    | statement hcut hread _ ih =>
      exact .statement (breakAt_skipSeparators_append hc hcut s) hread ih
    | block hcut hclose hhead hbody _ _ ihmore =>
      exact .block (breakAt_skipSeparators_append hc hcut s)
        (closeBlock_append_of_some hclose (c :: s)) hhead hbody ihmore

/-! ## Stylesheets without line feeds -/

/-- No text of the declaration goes on over another line. -/
def Declaration.OneLine (d : Declaration) : Prop := '\n' ∉ d.property ∧ '\n' ∉ d.value

def Head.OneLine : Head → Prop
  | .style selectors => ∀ selector ∈ selectors, '\n' ∉ selector
  | .atRule name prelude => '\n' ∉ name ∧ '\n' ∉ prelude

mutual

def Item.OneLine : Item → Prop
  | .declaration d => d.OneLine
  | .statement name prelude => '\n' ∉ name ∧ '\n' ∉ prelude
  | .block head body => head.OneLine ∧ Item.AllOneLine body

def Item.AllOneLine : List Item → Prop
  | [] => True
  | item :: items => item.OneLine ∧ Item.AllOneLine items

end

theorem Declaration.padLines_eq_self {d : Declaration} (h : d.OneLine) :
    d.padLines padding = d := by
  rw [Declaration.padLines, Text.padLines_eq_self h.1, Text.padLines_eq_self h.2]

theorem Head.padLines_eq_self {head : Head} (h : head.OneLine) : head.padLines padding = head := by
  cases head with
  | style selectors =>
    have hself : selectors.map (Text.padLines padding) = selectors := by
      conv => rhs; rw [← List.map_id selectors]
      exact List.map_congr_left fun selector hs => Text.padLines_eq_self (h selector hs)
    rw [Head.padLines, hself]
  | atRule name prelude => rw [Head.padLines, Text.padLines_eq_self h.2]

mutual

theorem Item.padLines_eq_self (item : Item) (h : item.OneLine) : item.padLines padding = item := by
  match item with
  | .declaration d => rw [Item.padLines, Declaration.padLines_eq_self h]
  | .statement name prelude => rw [Item.padLines, Text.padLines_eq_self h.2]
  | .block head body =>
    rw [Item.padLines, Head.padLines_eq_self h.1, Item.padLinesOfAll_eq_self body h.2]

theorem Item.padLinesOfAll_eq_self (items : List Item) (h : Item.AllOneLine items) :
    Item.padLinesOfAll padding items = items := by
  match items with
  | [] => rfl
  | item :: items =>
    rw [Item.padLinesOfAll, Item.padLines_eq_self item h.1, Item.padLinesOfAll_eq_self items h.2]

end

theorem Declaration.OneLine.not_mem_text {d : Declaration} (h : d.OneLine) : '\n' ∉ d.text := by
  unfold Declaration.text
  split <;> split <;> simp [h.1, h.2]

theorem feed_not_mem_atText {name prelude : Text} (h : '\n' ∉ name ∧ '\n' ∉ prelude) :
    '\n' ∉ atText name prelude := by
  unfold atText
  split <;> simp [h.1, h.2]

theorem Head.OneLine.not_mem_text {head : Head} (h : head.OneLine) : '\n' ∉ head.text := by
  cases head with
  | atRule name prelude => exact feed_not_mem_atText h
  | style selectors =>
    rw [Head.text, Text.joinWith_eq_drop]
    intro hc
    obtain ⟨selector, hselector, hc⟩ := List.mem_flatMap.1 (List.mem_of_mem_drop hc)
    refine h selector hselector ?_
    simpa using hc

variable {indent : Text}

mutual

theorem Item.isLine_of_mem_lines (hi : '\n' ∉ indent) (item : Item) (h : item.OneLine)
    (level : Nat) : ∀ line ∈ item.lines indent level, Text.IsLine line := by
  have hpad : '\n' ∉ Text.times level indent := fun hc =>
    Text.forall_mem_times (p := (· ≠ '\n')) level (fun c hc heq => hi (heq ▸ hc)) '\n' hc rfl
  match item with
  | .declaration d =>
    have htext : '\n' ∉ d.text := Declaration.OneLine.not_mem_text h
    exact List.forall_mem_singleton.2 (Text.isLine_concat (by simp [hpad, htext]) (by decide))
  | .statement name prelude =>
    have htext : '\n' ∉ atText name prelude := feed_not_mem_atText h
    exact List.forall_mem_singleton.2 (Text.isLine_concat (by simp [hpad, htext]) (by decide))
  | .block head [] =>
    have htext : '\n' ∉ head.text := h.1.not_mem_text
    have hline : Text.IsLine (Text.times level indent ++ head.text ++ [' ', '{'] ++ ['}']) :=
      Text.isLine_concat (by simp [hpad, htext]) (by decide)
    rw [Item.lines]
    exact List.forall_mem_singleton.2 (by simpa using hline)
  | .block head (item :: items) =>
    have htext : '\n' ∉ head.text := h.1.not_mem_text
    have hfirst : Text.IsLine (Text.times level indent ++ head.text ++ [' '] ++ ['{']) :=
      Text.isLine_concat (by simp [hpad, htext]) (by decide)
    have hlast : Text.IsLine (Text.times level indent ++ ['}']) :=
      Text.isLine_concat hpad (by decide)
    have hbody := Item.isLine_of_mem_linesOfAll hi (item :: items) h.2 (level + 1)
    rw [Item.lines, List.forall_mem_cons, List.forall_mem_append, List.forall_mem_singleton]
    exact ⟨by simpa using hfirst, hbody, hlast⟩

theorem Item.isLine_of_mem_linesOfAll (hi : '\n' ∉ indent) (items : List Item)
    (h : Item.AllOneLine items) (level : Nat) :
    ∀ line ∈ Item.linesOfAll indent level items, Text.IsLine line := by
  match items with
  | [] => exact List.forall_mem_nil _
  | item :: items =>
    exact List.forall_mem_append.2 ⟨Item.isLine_of_mem_lines hi item h.1 level,
      Item.isLine_of_mem_linesOfAll hi items h.2 level⟩

end

/-! ## Padded sources -/

/-- From a source with all its lines padded, between a line feed and blanks, the padded items are
read. -/
theorem parseStylesheet_padLines {sheet : Stylesheet} {back : Text}
    (hp : ∀ c ∈ padding, c = ' ' ∨ c = '\t') (hback : ∀ c ∈ back, Text.isAsciiBlank c = true)
    (h : parseStylesheet t = .ok sheet) :
    parseStylesheet ('\n' :: (padding ++ padLines padding t) ++ back) =
      .ok (.ofItems (sheet.rules.map (Item.padLines padding))) := by
  obtain ⟨text, htext, h⟩ := exists_of_bind_eq_ok h
  obtain ⟨items, hitems, h⟩ := exists_of_bind_eq_ok h
  obtain rfl := Except.ok.inj h
  have hfront := isAsciiBlank_of_mem_feed_padding hp
  have hfront' : ∀ c ∈ '\n' :: padding, Text.isBlank c = true := fun c hc =>
    isBlank_of_isAsciiBlank (hfront c hc)
  have hback' : ∀ c ∈ back, Text.isBlank c = true := fun c hc =>
    isBlank_of_isAsciiBlank (hback c hc)
  have hstrip : stripComments ('\n' :: (padding ++ padLines padding t) ++ back) =
      .ok ('\n' :: padding ++ (padLines padding text ++ back)) := by
    have hlast : (('\n' :: padding).getLast?.or none).any isNameChar =
        (none : Option Char).any isNameChar :=
      any_isNameChar_of_blanks (List.cons_ne_nil _ _) hfront' none
    have hsplit : '\n' :: (padding ++ padLines padding t) ++ back =
        '\n' :: padding ++ (padLines padding t ++ back) := by simp
    rw [stripComments, hsplit, stripCommentsAfter_of_blanks hfront',
      (stripping_of_stripComments htext).padLines hp hback' hlast]
    rfl
  have hread : readItems true ('\n' :: padding ++ (padLines padding text ++ back)) =
      .ok (items.map (Item.padLines padding)) := by
    rw [readItems_append hfront]
    exact (((reading_of_readItems hitems).padLines hp).append_of_blanks hback).readItems_eq_ok
  rw [parseStylesheet, hstrip]
  simp only [bind, Except.bind, pure, Except.pure, hread]
  refine congrArg Except.ok (Stylesheet.ext ?_)
  simp [Stylesheet.ofItems, List.filter_map, Function.comp_def, Item.isRule_padLines]

/-- A source whose stylesheet has no line feeds spells the same stylesheet with its lines padded. -/
theorem parseStylesheet_padLines_of_oneLine {sheet : Stylesheet} {back : Text}
    (hp : ∀ c ∈ padding, c = ' ' ∨ c = '\t') (hback : ∀ c ∈ back, Text.isAsciiBlank c = true)
    (h : parseStylesheet t = .ok sheet) (hsheet : Item.AllOneLine sheet.rules) :
    parseStylesheet ('\n' :: (padding ++ padLines padding t) ++ back) = .ok sheet := by
  rw [parseStylesheet_padLines hp hback h, ← Item.padLinesOfAll_eq_map,
    Item.padLinesOfAll_eq_self _ hsheet]
  exact congrArg Except.ok (Stylesheet.ext (Stylesheet.rules_ofItems sheet.all_isRule))

end Css

end PrettyPayload
