import PrettyPayload.Proofs.Css.Legible
import PrettyPayload.Proofs.Text.Break

/-!
# A written stylesheet is read as it was

Reading undoes writing, for every legible stylesheet and every indent of ASCII blanks, and for the
well-formed ones by `parseStylesheet_pretty`. The written text is taken as a list of lines, each
with a line feed in front of it, so that a body and the whole stylesheet have the same form:
`readItems_linesOfAll` reads such lines by recursion on the items, and each item is first cut off by
the scans and then read by itself. `Reading` is the same of any text, in steps: what is known of the
items of a text is shown by induction on how they were read.
-/

namespace PrettyPayload

namespace Css

variable {c : Char} {s t rest : Text}

/-! ## Cutting off an item -/

theorem skipSeparators_append {top : Bool} (h : ∀ c ∈ s, Text.isAsciiBlank c = true) :
    skipSeparators top (s ++ t) = skipSeparators top t := by
  induction s with
  | nil => rfl
  | cons c s ih =>
    rw [← ih fun d hd => h d (List.mem_cons_of_mem c hd), List.cons_append]
    have hc := h c List.mem_cons_self
    have hmark : c ≠ '<' ∧ c ≠ '-' := by
      constructor <;> (rintro rfl; exact absurd hc (by decide))
    simp [skipSeparators, hmark, hc]

/-- Separators are skipped up to an item or, if there is none, on behind a further separator. -/
theorem skipSeparators_append_cons {top : Bool}
    (hc : (Text.isAsciiBlank c || decide (c = ';')) = true) (rest : Text) :
    skipSeparators top (t ++ c :: rest) =
      if skipSeparators top t = [] then skipSeparators top rest
      else skipSeparators top t ++ c :: rest := by
  have hmarks : ∀ d ∈ '<' :: '-' :: "!--".toList ++ "->".toList,
      (Text.isAsciiBlank d || decide (d = ';')) = false := Text.forall_mem_of_all (by decide)
  have hout : c ∉ '<' :: '-' :: "!--".toList ++ "->".toList := by
    intro hm
    rw [hmarks c hm] at hc
    cases hc
  simp only [List.cons_append, List.mem_cons, List.mem_append, not_or] at hout
  obtain ⟨hopening, hclosing, hends⟩ := hout
  fun_induction skipSeparators top t with
  | case1 t htop ih => simpa only [List.cons_append, skipSeparators, if_pos htop] using ih
  | case2 t htop =>
    simp only [List.cons_append, skipSeparators, if_neg htop, if_neg (List.cons_ne_nil _ _)]
  | case3 t htop ih => simpa only [List.cons_append, skipSeparators, if_pos htop] using ih
  | case4 t htop =>
    simp only [List.cons_append, skipSeparators, if_neg htop, if_neg (List.cons_ne_nil _ _)]
  | case5 d t hopen hclose h ih =>
    rw [List.cons_append, skipSeparators, if_pos h]
    · exact ih
    · rintro u rfl -
      exact absurd h (by decide)
    · rintro u rfl -
      exact absurd h (by decide)
  | case6 d t hopen hclose h =>
    rw [List.cons_append, skipSeparators, if_neg h, if_neg (List.cons_ne_nil d t)]
    · intro u hd hmark
      have hprefix : "!--".toList <+: t ++ c :: rest := ⟨u, hmark.symm⟩
      obtain ⟨v, rfl⟩ := Text.prefix_of_prefix_append_cons hends.1 hprefix
      exact hopen v hd rfl
    · intro u hd hmark
      have hprefix : "->".toList <+: t ++ c :: rest := ⟨u, hmark.symm⟩
      obtain ⟨v, rfl⟩ := Text.prefix_of_prefix_append_cons hends.2 hprefix
      exact hclose v hd rfl
  | case7 =>
    rw [List.nil_append, if_pos rfl, skipSeparators, if_pos hc]
    · exact fun u hmark => absurd hmark hopening
    · exact fun u hmark => absurd hmark hclosing

theorem breakAt_skipSeparators_append {top : Bool} {before after : Text} {stop : Char}
    (hc : (Text.isAsciiBlank c || decide (c = ';')) = true)
    (hcut : breakAt endsItem Nesting.start (skipSeparators top t) = some (before, stop, after))
    (rest : Text) :
    breakAt endsItem Nesting.start (skipSeparators top (t ++ c :: rest)) =
      some (before, stop, after ++ c :: rest) := by
  have hne : skipSeparators top t ≠ [] := by
    intro hnil
    rw [hnil] at hcut
    cases hcut
  rw [skipSeparators_append_cons hc, if_neg hne]
  exact breakAt_append_of_some hcut (c :: rest)

def startsItem (top : Bool) (t : Text) : Bool :=
  !top || !Text.startsWith "<!--".toList t && !Text.startsWith "-->".toList t

theorem skipSeparators_eq_self {top : Bool} (hc : Text.isAsciiBlank c = false) (hc' : c ≠ ';')
    (h : startsItem top (c :: t) = true) : skipSeparators top (c :: t) = c :: t := by
  rw [skipSeparators.eq_def]
  split
  next u he =>
    obtain rfl : top = false := by
      rw [he] at h
      simpa [startsItem, Text.startsWith, Text.dropPrefix?] using h
    rw [he, if_neg Bool.false_ne_true]
  next u he =>
    obtain rfl : top = false := by
      rw [he] at h
      simpa [startsItem, Text.startsWith, Text.dropPrefix?] using h
    rw [he, if_neg Bool.false_ne_true]
  next d u _ _ he =>
    obtain ⟨rfl, rfl⟩ := List.cons.inj he
    simp [hc, hc']
  next he => cases he

theorem startsWith_append {p : Text} (hc : c ∉ p) :
    Text.startsWith p (t ++ c :: rest) = Text.startsWith p t := by
  rw [Bool.eq_iff_iff, Text.startsWith_iff, Text.startsWith_iff]
  exact ⟨Text.prefix_of_prefix_append_cons hc, fun h => h.trans (List.prefix_append t _)⟩

theorem startsItem_append {top : Bool} (hc : c ∉ ['<', '!', '-', '>']) :
    startsItem top (t ++ c :: rest) = startsItem top t := by
  have hsub : ∀ c, c ∈ "<!--".toList ∨ c ∈ "-->".toList → c ∈ ['<', '!', '-', '>'] := by
    simp +contextual [or_imp]
  have hopen : c ∉ "<!--".toList := fun h => hc (hsub c (Or.inl h))
  have hclose : c ∉ "-->".toList := fun h => hc (hsub c (Or.inr h))
  rw [startsItem, startsItem, startsWith_append hopen, startsWith_append hclose]

/-- Blanks before a sealed text are skipped, and nothing else. -/
theorem skipSeparators_of_sealed {top : Bool} (hs : ∀ c ∈ s, Text.isAsciiBlank c = true)
    (ht : Sealed endsItem t) (htrim : Text.trim Text.isBlank t = t) (hne : t ≠ [])
    (hstart : startsItem top t = true) (hc : c ∉ ['<', '!', '-', '>']) (rest : Text) :
    skipSeparators top (s ++ (t ++ c :: rest)) = t ++ c :: rest := by
  rw [skipSeparators_append hs]
  cases t with
  | nil => exact absurd rfl hne
  | cons d t =>
    have hblank : Text.isBlank d = false := Text.head?_trim (by rw [htrim]; rfl)
    refine skipSeparators_eq_self ?_ ?_ ?_
    · rw [Bool.eq_false_iff]
      intro h
      rw [isBlank_of_isAsciiBlank h] at hblank
      cases hblank
    · rintro rfl
      exact absurd (breakAt_cons_eq_none_iff.1 ht.uncut).1 (by decide)
    · rw [← hstart]
      exact startsItem_append (t := d :: t) hc

theorem readItems_eq (top : Bool) (t : Text) :
    readItems top t =
      match skipSeparators top t with
      | [] => .ok []
      | c :: u =>
        match breakAt endsItem Nesting.start (c :: u) with
        | none => do
          let item ← readStatement top (c :: u)
          return [item]
        | some (before, stop, after) =>
          if stop = '}' then .error (.unexpectedCloseBrace (excerpt (before ++ ['}'])))
          else if stop = '{' then
            match closeBlock Quoting.start 0 after with
            | none => .error (.unclosedBlock (excerpt before))
            | some (body, rest) => do
              let head ← readHead before body
              let items ← readItems false body
              let more ← readItems top rest
              return .block head items :: more
          else do
            let item ← readStatement top before
            let more ← readItems top after
            return item :: more := by
  rw [readItems]
  split
  next h => rw [h]
  next c u h =>
    rw [h]
    dsimp only
    split
    next hcut => rw [hcut]
    next before stop after hcut =>
      rw [hcut]
      dsimp only
      split
      · rfl
      · split
        · split
          next hclose => rw [hclose]
          next body rest hclose => rw [hclose]
        · rfl

theorem readItems_append {top : Bool} (h : ∀ c ∈ s, Text.isAsciiBlank c = true) :
    readItems top (s ++ t) = readItems top t := by
  rw [readItems_eq, skipSeparators_append h, ← readItems_eq]

theorem readItems_nil (top : Bool) : readItems top [] = .ok [] := by
  rw [readItems_eq]
  rfl

theorem readItems_of_end {top : Bool} {item : Item} (hne : skipSeparators top t ≠ [])
    (hcut : breakAt endsItem Nesting.start (skipSeparators top t) = none)
    (hread : readStatement top (skipSeparators top t) = .ok item) :
    readItems top t = .ok [item] := by
  rw [readItems_eq]
  cases hskip : skipSeparators top t with
  | nil => exact absurd hskip hne
  | cons c u =>
    rw [hskip] at hcut hread
    simp only [hcut, hread]
    rfl

theorem readItems_of_semicolon {top : Bool} {item : Item} {before after : Text}
    (hcut : breakAt endsItem Nesting.start (skipSeparators top t) = some (before, ';', after))
    (hread : readStatement top before = .ok item) :
    readItems top t = (item :: ·) <$> readItems top after := by
  rw [readItems_eq]
  cases hskip : skipSeparators top t with
  | nil =>
    rw [hskip] at hcut
    cases hcut
  | cons c u =>
    rw [hskip] at hcut
    simp only [hcut, show ¬(';' = '}') by decide, show ¬(';' = '{') by decide, if_false, hread]
    rfl

theorem readItems_of_brace {top : Bool} {head : Head} {items : List Item}
    {before after body : Text}
    (hcut : breakAt endsItem Nesting.start (skipSeparators top t) = some (before, '{', after))
    (hclose : closeBlock Quoting.start 0 after = some (body, rest))
    (hhead : readHead before body = .ok head) (hitems : readItems false body = .ok items) :
    readItems top t = (.block head items :: ·) <$> readItems top rest := by
  rw [readItems_eq]
  cases hskip : skipSeparators top t with
  | nil =>
    rw [hskip] at hcut
    cases hcut
  | cons c u =>
    rw [hskip] at hcut
    simp only [hcut, show ¬('{' = '}') by decide, if_false, if_true, hclose, hhead, hitems]
    rfl

/-- How the items of a text are read: there are none, or the first one ends with the text, at a
semicolon or at the brace that closes its block. -/
inductive Reading : Bool → Text → List Item → Prop
  | nothing {top : Bool} {t : Text} (hskip : skipSeparators top t = []) : Reading top t []
  | last {top : Bool} {t : Text} {item : Item} (hne : skipSeparators top t ≠ [])
      (hcut : breakAt endsItem Nesting.start (skipSeparators top t) = none)
      (hread : readStatement top (skipSeparators top t) = .ok item) : Reading top t [item]
  | statement {top : Bool} {t before after : Text} {item : Item} {more : List Item}
      (hcut : breakAt endsItem Nesting.start (skipSeparators top t) = some (before, ';', after))
      (hread : readStatement top before = .ok item) (hmore : Reading top after more) :
      Reading top t (item :: more)
  | block {top : Bool} {t before after body rest : Text} {head : Head} {items more : List Item}
      (hcut : breakAt endsItem Nesting.start (skipSeparators top t) = some (before, '{', after))
      (hclose : closeBlock Quoting.start 0 after = some (body, rest))
      (hhead : readHead before body = .ok head) (hbody : Reading false body items)
      (hmore : Reading top rest more) : Reading top t (.block head items :: more)

theorem reading_of_readItems {top : Bool} {items : List Item} (h : readItems top t = .ok items) :
    Reading top t items := by
  fun_induction readItems top t generalizing items with
  | case1 top t hskip =>
    obtain rfl := Except.ok.inj h
    exact .nothing hskip
  | case2 top t c u hskip hcut =>
    obtain ⟨item, hitem, hitems⟩ := exists_of_bind_eq_ok h
    obtain rfl := Except.ok.inj hitems
    rw [← hskip] at hcut hitem
    exact .last (hskip ▸ List.cons_ne_nil c u) hcut hitem
  | case3 => cases h
  | case4 => cases h
  | case5 top t c u hskip before after body rest hclose hcut _ ihbody ihrest =>
    obtain ⟨head, hhead, h⟩ := exists_of_bind_eq_ok h
    obtain ⟨inner, hinner, h⟩ := exists_of_bind_eq_ok h
    obtain ⟨more, hmore, h⟩ := exists_of_bind_eq_ok h
    obtain rfl := Except.ok.inj h
    rw [← hskip] at hcut
    exact .block hcut hclose hhead (ihbody hinner) (ihrest hmore)
  | case6 top t c u hskip before stop after hcut hclose hopen ih =>
    obtain ⟨item, hitem, h⟩ := exists_of_bind_eq_ok h
    obtain ⟨more, hmore, h⟩ := exists_of_bind_eq_ok h
    obtain rfl := Except.ok.inj h
    obtain rfl : stop = ';' := by simpa [endsItem, hclose, hopen] using (breakAt_eq_some hcut).2
    rw [← hskip] at hcut
    exact .statement hcut hitem (ih hmore)

theorem Reading.readItems_eq_ok {top : Bool} {items : List Item} (h : Reading top t items) :
    readItems top t = .ok items := by
  induction h with
  | nothing hskip => rw [readItems_eq, hskip]
  | last hne hcut hread => exact readItems_of_end hne hcut hread
  | statement hcut hread _ ih => rw [readItems_of_semicolon hcut hread, ih]; rfl
  | block hcut hclose hhead _ _ ihbody ihmore =>
    rw [readItems_of_brace hcut hclose hhead ihbody, ihmore]
    rfl

theorem readItems_statement {top : Bool} {item : Item}
    (hs : ∀ c ∈ s, Text.isAsciiBlank c = true) (ht : Sealed endsItem t)
    (htrim : Text.trim Text.isBlank t = t) (hne : t ≠ []) (hstart : startsItem top t = true)
    (hread : readStatement top t = .ok item) (rest : Text) :
    readItems top (s ++ (t ++ ';' :: rest)) = (item :: ·) <$> readItems top rest := by
  have hskip := skipSeparators_of_sealed (c := ';') hs ht htrim hne hstart (by decide) rest
  have hcut : breakAt endsItem Nesting.start (t ++ ';' :: rest) = some (t, ';', rest) :=
    ht.breakAt_eq (by decide) rest
  rw [← hskip] at hcut
  exact readItems_of_semicolon hcut hread

/-- A block is cut off at the brace that closes it. -/
theorem readItems_block {top : Bool} {head : Head} {items : List Item} {body : Text}
    (hs : ∀ c ∈ s, Text.isAsciiBlank c = true) (hhead : head.Legible top)
    (hne : head.text ≠ []) (hstart : startsItem top head.text = true) (hbody : Inert body)
    (hitems : readItems false body = .ok items) (rest : Text) :
    readItems top (s ++ (head.text ++ ' ' :: '{' :: (body ++ '}' :: rest))) =
      (.block head items :: ·) <$> readItems top rest := by
  have ht := hhead.tight_text
  have hread : readHead (head.text ++ [' ']) body = .ok head := hhead.readHead_text
  have hskip := skipSeparators_of_sealed (c := ' ') hs ht.toSealed ht.trim_eq hne hstart (by decide)
    ('{' :: (body ++ '}' :: rest))
  have hcut : breakAt endsItem Nesting.start (head.text ++ ' ' :: '{' :: (body ++ '}' :: rest)) =
      some (head.text ++ [' '], '{', body ++ '}' :: rest) := by
    have hspace : Sealed endsItem [' '] := .singleton (by decide) (by decide)
    have hsealed := (ht.toSealed.append hspace fun _ => by decide).breakAt_eq
      (c := '{') (by decide) (body ++ '}' :: rest)
    rwa [List.append_assoc, List.singleton_append] at hsealed
  have hclose : closeBlock Quoting.start 0 (body ++ '}' :: rest) = some (body, rest) := by
    rw [hbody.closeBlock_append]
    simp [closeBlock, show Quoting.start.isPlain = true from rfl]
  rw [← hskip] at hcut
  exact readItems_of_brace hcut hclose hread hitems

/-! ## Items -/

def below (lines : List Text) : Text := lines.flatMap ('\n' :: ·)

@[simp] theorem below_nil : below [] = [] := rfl

theorem below_cons (line : Text) (lines : List Text) :
    below (line :: lines) = '\n' :: line ++ below lines := rfl

theorem below_append (lines more : List Text) :
    below (lines ++ more) = below lines ++ below more := by
  simp [below]

variable {indent : Text}

/-- What stands before the first character of a line. -/
theorem isAsciiBlank_pad (hi : ∀ c ∈ indent, Text.isAsciiBlank c = true) (level : Nat) :
    ∀ c ∈ '\n' :: Text.times level indent, Text.isAsciiBlank c = true := by
  intro c hc
  rcases List.mem_cons.1 hc with rfl | hc
  · decide
  · exact Text.forall_mem_times level hi c hc

theorem inert_of_isAsciiBlank (h : ∀ c ∈ t, Text.isAsciiBlank c = true) : Inert t := by
  induction t with
  | nil => exact .nil
  | cons c t ih =>
    rw [List.forall_mem_cons] at h
    have hnone : ∀ c ∈ ['\\', '{', '}', '"', '\'', '(', ')', '[', ']', '/'],
        Text.isAsciiBlank c = false := Text.forall_mem_of_all (by decide)
    have hc : c ∉ ['\\', '{', '}', '"', '\'', '(', ')', '[', ']', '/'] := by
      intro hm
      rw [hnone c hm] at h
      cases h.1
    refine Inert.append (.singleton fun hm => hc (List.mem_append_left ['/'] hm)) (ih h.2) ?_
    intro hslash
    obtain rfl : c = '/' := by simpa using hslash
    exact absurd (by decide) hc

theorem inert_pad (hi : ∀ c ∈ indent, Text.isAsciiBlank c = true) (level : Nat) :
    Inert ('\n' :: Text.times level indent) :=
  inert_of_isAsciiBlank (isAsciiBlank_pad hi level)

theorem inert_line (hi : ∀ c ∈ indent, Text.isAsciiBlank c = true) (level : Nat) (ht : Inert t)
    (hrest : Inert rest) (hjoin : rest.head? ≠ some '*') :
    Inert ('\n' :: Text.times level indent ++ (t ++ rest)) := by
  refine (inert_pad hi level).append (ht.append hrest fun _ => hjoin) fun hslash => ?_
  have hblank := isAsciiBlank_pad hi level '/' (List.mem_of_getLast? hslash)
  exact absurd hblank (by decide)

theorem head?_below (lines : List Text) : (below lines).head? ≠ some '*' := by
  cases lines <;> simp [below_cons]

/-- A block behind the space that parts it from its head. -/
theorem inert_open (h : Inert t) : Inert (' ' :: ('{' :: t ++ ['}'])) :=
  Inert.append (.singleton (by decide)) h.block fun h => absurd h (by decide)

mutual

theorem inert_lines (hi : ∀ c ∈ indent, Text.isAsciiBlank c = true) {top : Bool} {level : Nat} :
    ∀ item : Item, item.Legible top → Inert (below (item.lines indent level))
  | .declaration d, h => by
    have hend : Inert [';'] := .singleton (by decide)
    have := inert_line hi level ((h.2.1.isSealed_text fun _ => id).1.inert rfl) hend (by decide)
    simpa [Item.lines, below_cons] using this
  | .statement name prelude, h => by
    have hend : Inert [';'] := .singleton (by decide)
    have := inert_line hi level ((tight_atText h.1 h.2).inert rfl) hend (by decide)
    simpa [Item.lines, below_cons] using this
  | .block head [], h => by
    have hend := inert_open .nil
    have := inert_line hi level (h.1.tight_text.inert rfl) hend (by decide)
    simpa [Item.lines, below_cons] using this
  | .block head (item :: items), h => by
    have hbody := (inert_linesOfAll hi (level + 1) (item :: items) h.2).append (inert_pad hi level)
      fun _ => by simp
    have := inert_line hi level (h.1.tight_text.inert rfl) (inert_open hbody) (by simp)
    simpa [Item.lines, Item.linesOfAll, below_cons, below_append] using this

theorem inert_linesOfAll (hi : ∀ c ∈ indent, Text.isAsciiBlank c = true) {top : Bool}
    (level : Nat) :
    ∀ items : List Item, Item.AllLegible top items →
      Inert (below (Item.linesOfAll indent level items))
  | [], _ => .nil
  | item :: items, h => by
    rw [Item.linesOfAll, below_append]
    exact (inert_lines hi item h.1).append (inert_linesOfAll hi level items h.2)
      fun _ => head?_below _

end

theorem startsItem_of_startsRule {top : Bool} {selector : Text}
    (h : startsRule top selector = true) : startsItem top selector = true := by
  rw [startsRule, Bool.and_eq_true] at h
  exact h.2

theorem startsItem_atText (top : Bool) (name prelude : Text) :
    startsItem top (atText name prelude) = true := by
  simp [startsItem, atText, Text.startsWith, Text.dropPrefix?]

theorem startsItem_style_text (top : Bool) (first : Text) (selectors : List Text) :
    startsItem top (Head.style (first :: selectors)).text = startsItem top first := by
  cases selectors with
  | nil => rw [Head.text, Text.joinWith_singleton]
  | cons next selectors =>
    rw [Head.text, Text.joinWith_cons_cons, List.append_assoc]
    exact startsItem_append (c := ',') (by decide)

theorem Head.Legible.startsItem_text {top : Bool} {head : Head} (h : head.Legible top) :
    startsItem top head.text = true := by
  cases head with
  | atRule name prelude => exact startsItem_atText top name prelude
  | style selectors =>
    obtain ⟨⟨first, hfirst, hstart⟩, -⟩ := h
    obtain ⟨selectors, rfl⟩ := List.head?_eq_some_iff.1 hfirst
    rw [startsItem_style_text]
    exact startsItem_of_startsRule hstart

theorem Head.Legible.text_ne_nil {top : Bool} {head : Head} (h : head.Legible top) :
    head.text ≠ [] := by
  cases head with
  | atRule name prelude => simp [Head.text, atText]
  | style selectors =>
    obtain ⟨⟨first, hfirst, -⟩, hselectors⟩ := h
    obtain ⟨selectors, rfl⟩ := List.head?_eq_some_iff.1 hfirst
    have hne := (hselectors first List.mem_cons_self).1
    intro hnil
    have := head?_joinWith selectors hne
    rw [show Text.joinWith [',', ' '] (first :: selectors) = [] from hnil] at this
    exact hne (List.head?_eq_none_iff.1 this.symm)

mutual

theorem readItems_lines (hi : ∀ c ∈ indent, Text.isAsciiBlank c = true) {top : Bool}
    {level : Nat} :
    ∀ (item : Item) (rest : Text), item.Legible top →
      readItems top (below (item.lines indent level) ++ rest) =
        (item :: ·) <$> readItems top rest
  | .declaration d, rest, ⟨htop, hd, hname⟩ => by
    subst htop
    obtain ⟨hsealed, htrim⟩ := hd.isSealed_text fun _ => id
    have := readItems_statement (isAsciiBlank_pad hi level) hsealed htrim hd.text_ne_nil rfl
      (hd.readStatement_text hname) rest
    simpa [Item.lines, below_cons] using this
  | .statement name prelude, rest, ⟨hname, hprelude⟩ => by
    have htight := tight_atText hname hprelude
    have := readItems_statement (isAsciiBlank_pad hi level) htight.toSealed htight.trim_eq
      (by simp [atText]) (startsItem_atText top name prelude)
      (readStatement_atText hname hprelude) rest
    simpa [Item.lines, below_cons] using this
  | .block head [], rest, ⟨hhead, _⟩ => by
    have := readItems_block (isAsciiBlank_pad hi level) hhead hhead.text_ne_nil
      hhead.startsItem_text .nil (readItems_nil false) rest
    simpa [Item.lines, below_cons] using this
  | .block head (item :: items), rest, ⟨hhead, hbody⟩ => by
    have hlines := readItems_linesOfAll hi (level + 1) (item :: items)
      ('\n' :: Text.times level indent) hbody
    have hend : readItems false ('\n' :: Text.times level indent) = .ok [] := by
      rw [← List.append_nil ('\n' :: _), readItems_append (isAsciiBlank_pad hi level),
        readItems_nil]
    have hitems : readItems false (below (Item.linesOfAll indent (level + 1) (item :: items)) ++
        '\n' :: Text.times level indent) = .ok (item :: items) := by
      rw [hlines, hend]
      exact congrArg Except.ok (List.append_nil _)
    have hinert := (inert_linesOfAll hi (level + 1) _ hbody).append (inert_pad hi level)
      fun _ => by simp
    have := readItems_block (isAsciiBlank_pad hi level) hhead hhead.text_ne_nil
      hhead.startsItem_text hinert hitems rest
    simpa [Item.lines, Item.linesOfAll, below_cons, below_append] using this

theorem readItems_linesOfAll (hi : ∀ c ∈ indent, Text.isAsciiBlank c = true) {top : Bool}
    (level : Nat) :
    ∀ (items : List Item) (rest : Text), Item.AllLegible top items →
      readItems top (below (Item.linesOfAll indent level items) ++ rest) =
        (items ++ ·) <$> readItems top rest
  | [], rest, _ => by simp [Item.linesOfAll]
  | item :: items, rest, ⟨hitem, hitems⟩ => by
    rw [Item.linesOfAll, below_append, List.append_assoc, readItems_lines hi item _ hitem,
      readItems_linesOfAll hi level items rest hitems, ← comp_map]
    rfl

end

/-! ## Stylesheets -/

theorem parseStylesheet_of_allLegible {sheet : Stylesheet}
    (hi : ∀ c ∈ indent, Text.isAsciiBlank c = true) (h : Item.AllLegible true sheet.rules) :
    parseStylesheet (sheet.pretty indent) = .ok sheet := by
  have hread := readItems_linesOfAll hi 0 sheet.rules [] h
  have hinert := inert_linesOfAll hi 0 sheet.rules h
  rw [List.append_nil, readItems_nil] at hread
  have hitems : readItems true (sheet.pretty indent) = .ok sheet.rules ∧
      Uncommented (sheet.pretty indent) := by
    cases hlines : Item.linesOfAll indent 0 sheet.rules with
    | nil =>
      rw [hlines] at hread
      rw [Stylesheet.pretty, hlines]
      exact ⟨hread.trans (congrArg Except.ok (List.append_nil _)), .nil⟩
    | cons line lines =>
      have hbelow : below (line :: lines) = ['\n'] ++ sheet.pretty indent := by
        rw [Stylesheet.pretty, hlines]
        exact Text.flatMap_append_eq_joinWith ['\n'] (by simp)
      rw [hlines, hbelow] at hread hinert
      constructor
      · rw [readItems_append (Text.forall_mem_of_all (by decide))] at hread
        exact hread.trans (congrArg Except.ok (List.append_nil _))
      · exact hinert.uncommented.tail (by decide)
  rw [parseStylesheet, stripComments, hitems.2.stripCommentsAfter_eq]
  simp only [bind, Except.bind, pure, Except.pure, hitems.1]
  exact congrArg Except.ok (Stylesheet.ext (Stylesheet.rules_ofItems sheet.all_isRule))

/-! ## Lists of declarations -/

theorem neutral_compact {ds : List Declaration}
    (h : ∀ d ∈ ds, d.Legible fun c => decide (c = ';')) : Neutral (compact ds) := by
  have hstop : ∀ c, decide (c = ';') = true → endsItem c = true := by
    intro c hc
    obtain rfl := of_decide_eq_true hc
    decide
  induction ds with
  | nil => exact .nil
  | cons d ds ih =>
    rw [List.forall_mem_cons] at h
    have hd := (h.1.isSealed_text hstop).1.toNeutral
    cases ds with
    | nil => simpa [compact] using hd
    | cons e ds =>
      have hgap : Neutral [';', ' '] :=
        (Inert.append (.singleton (by decide)) (.singleton (by decide))
          fun h => absurd h (by decide)).toNeutral
      have hrest := ih h.2
      rw [compact, List.map_cons, List.map_cons, Text.joinWith_cons_cons, List.append_assoc]
      rw [compact, List.map_cons] at hrest
      exact hd.append (hgap.append hrest fun h => absurd h (by decide)) fun _ => by simp

theorem parseDeclarations_of_legible {ds : List Declaration}
    (h : ∀ d ∈ ds, d.Legible fun c => decide (c = ';')) :
    parseDeclarations (compact ds) = .ok ds := by
  have hstop : ∀ c, decide (c = ';') = true → endsItem c = true := by
    intro c hc
    obtain rfl := of_decide_eq_true hc
    decide
  have hstrip : stripComments (compact ds) = .ok (compact ds) :=
    (neutral_compact h).uncommented.stripCommentsAfter_eq none
  have htext : ∀ d ∈ ds, Text.trim Text.isBlank d.text = d.text ∧ d.text ≠ [] ∧
      readDeclaration d.text = .ok d := fun d hd =>
    ⟨((h d hd).isSealed_text hstop).2, (h d hd).text_ne_nil, (h d hd).readDeclaration_text hstop⟩
  have hread : ∀ t, readDeclaration (' ' :: t) = readDeclaration t := by
    intro t
    rw [readDeclaration, readDeclaration, trim_cons_space]
  have hparse : parseDeclarations (compact ds) =
      ((splitAtTop ';' (compact ds)).filter fun part => Text.trim Text.isBlank part ≠ []).mapM
        readDeclaration := by
    rw [parseDeclarations, hstrip]
    rfl
  rw [hparse]
  cases ds with
  | nil =>
    have hsplit : splitAtTop ';' [] = [[]] := by simp [splitAtTop, breakAt]
    rw [show compact [] = [] from rfl, hsplit]
    rfl
  | cons d ds =>
    have hsplit : splitAtTop ';' (compact (d :: ds)) =
        d.text :: ds.map fun d => ' ' :: d.text := by
      rw [compact, List.map_cons, splitAtTop_joinWith_space (by decide), List.map_map]
      · rfl
      · rw [← List.map_cons]
        intro t ht
        obtain ⟨d, hd, rfl⟩ := List.mem_map.1 ht
        exact ((h d hd).isSealed_text hstop).1
    rw [List.forall_mem_cons] at htext
    have hfilter : (d.text :: ds.map fun d => ' ' :: d.text).filter
        (fun part => Text.trim Text.isBlank part ≠ []) =
          d.text :: ds.map fun d => ' ' :: d.text := by
      refine List.filter_eq_self.2 (List.forall_mem_cons.2 ⟨?_, ?_⟩)
      · simpa [htext.1.1] using htext.1.2.1
      · intro t ht
        obtain ⟨e, he, rfl⟩ := List.mem_map.1 ht
        simpa [trim_cons_space, (htext.2 e he).1] using (htext.2 e he).2.1
    rw [hsplit, hfilter, List.mapM_cons, htext.1.2.2, mapM_map_eq_ok]
    · rfl
    · intro e he
      rw [hread, (htext.2 e he).2.2]

theorem Declaration.Listable.legible {d : Declaration} (h : d.Listable) :
    d.Legible fun c => decide (c = ';') := by
  have hvalue : Tight (fun c => decide (c = ';')) d.value := by
    refine tight_of_isNeat (fun c hc => ?_) h.isNeat_value
    obtain rfl := of_decide_eq_true hc
    decide
  refine ⟨h.property_ne_nil, tight_of_isNeat (fun c hc => ?_) h.isNeat_property, hvalue, ?_⟩
  · rw [Bool.or_eq_true, decide_eq_true_eq, decide_eq_true_eq] at hc
    rcases hc with rfl | rfl <;> decide
  · exact fun hd => splitImportant_eq_self
      (Text.trimEnd_eq_self fun _ => hvalue.getLast?_isBlank) (h.not_endsInImportant hd)

/-- A written list of declarations is read as it was. -/
theorem parseDeclarations_compact {ds : List Declaration} (h : ∀ d ∈ ds, d.Listable) :
    parseDeclarations (compact ds) = .ok ds :=
  parseDeclarations_of_legible fun d hd => (h d hd).legible

/-- Declarations with braces that do not match, separators in a literal and in parentheses, an empty
value, and a value that looks important and is. -/
def sampleList : List Declaration :=
  [⟨"\x7da".toList, "url(x;y) '; :' \x7b".toList, false⟩, ⟨"f(:)".toList, [], true⟩,
    ⟨"b".toList, [], false⟩, ⟨"c".toList, "1 ! IMPORTANT".toList, true⟩]

/-- The sample is read as it was. -/
theorem parseDeclarations_compact_sampleList :
    (∀ d ∈ sampleList, d.Listable) ∧ parseDeclarations (compact sampleList) = .ok sampleList := by
  have hurl : ¬EndsInImportant "url(x;y) '; :' \x7b".toList := fun h =>
    absurd (splitImportant_of_endsInImportant (by decide) h) (by decide)
  have hnone : ¬EndsInImportant [] := fun h =>
    absurd (splitImportant_of_endsInImportant (by decide) h) (by decide)
  have hlistable : ∀ d ∈ sampleList, d.Listable := by
    simp only [sampleList, List.forall_mem_cons]
    exact ⟨⟨by decide, by decide, by decide, fun _ => hurl⟩,
      ⟨by decide, by decide, by decide, nofun⟩,
      ⟨by decide, by decide, by decide, fun _ => hnone⟩,
      ⟨by decide, by decide, by decide, nofun⟩, nofun⟩
  exact ⟨hlistable, parseDeclarations_compact hlistable⟩

/-! ## Well-formed stylesheets -/

theorem endsStatement_of_endsItem (c : Char) (h : endsItem c = true) :
    endsStatement c = true ∨ c = '{' ∨ c = '}' := by
  simp only [endsItem, Bool.or_eq_true, decide_eq_true_eq] at h
  rcases h with (rfl | rfl) | rfl
  · exact Or.inr (Or.inl rfl)
  · exact Or.inl (by decide)
  · exact Or.inr (Or.inr rfl)

theorem hasAtName_eq_startsAtRule (h : Stable t) : hasAtName t = startsAtRule t := by
  by_cases hat : ∃ rest, t = '@' :: rest
  · obtain ⟨rest, rfl⟩ := hat
    have hat : (Spot.between false).after ['@'] = .between false := rfl
    have hrest : Stable rest := Stable.right h hat
    rw [hasAtName, startsAtRule, head?_collapse, hrest.dropWhile_isBlank]
  · have hhas : hasAtName t = false := by
      unfold hasAtName
      split
      next rest => exact absurd ⟨rest, rfl⟩ hat
      next => rfl
    rw [hhas]
    unfold startsAtRule
    split
    next rest => exact absurd ⟨rest, rfl⟩ hat
    next => rfl

theorem Declaration.WellFormed.legible {d : Declaration} (h : d.WellFormed) :
    d.Legible endsItem ∧ hasAtName d.property = false := by
  have hproperty : Tight (fun c => endsItem c || c = ':') d.property := by
    refine tight_of_isClean (fun c hc => ?_) h.isClean_property
    rw [Bool.or_eq_true] at hc
    rcases hc with hc | hc
    · exact (endsStatement_of_endsItem c hc).imp_left fun hs => by
        rw [endsProperty, ← endsStatement, hs, Bool.true_or]
    · exact Or.inl (by rw [endsProperty, hc, Bool.or_true])
  have hvalue : Tight endsItem d.value := tight_of_isClean endsStatement_of_endsItem h.isClean_value
  refine ⟨⟨h.property_ne_nil, hproperty, hvalue, fun hd => ?_⟩, ?_⟩
  · exact splitImportant_eq_self (Text.trimEnd_eq_self fun _ => hvalue.getLast?_isBlank)
      (h.not_endsInImportant hd)
  · rw [hasAtName_eq_startsAtRule hproperty.stable, h.startsAtRule_property]

theorem Head.WellFormed.legible {top : Bool} {head : Head} (h : head.WellFormed top) :
    head.Legible top := by
  cases head with
  | atRule name prelude => exact ⟨h.1, tight_of_isClean endsStatement_of_endsItem h.2⟩
  | style selectors =>
    refine ⟨h.1, fun selector hs => ⟨(h.2 selector hs).1, ?_⟩⟩
    refine tight_of_isClean (fun c hc => ?_) (h.2 selector hs).2
    rw [cutsSelector, Bool.or_eq_true] at hc
    rcases hc with hc | hc
    · exact (endsStatement_of_endsItem c hc).imp_left fun hs => by
        rw [endsSelector, ← endsStatement, hs, Bool.true_or]
    · exact Or.inl (by rw [endsSelector, hc, Bool.or_true])

mutual

theorem Item.WellFormed.legible {top : Bool} :
    ∀ item : Item, item.WellFormed top → item.Legible top
  | .declaration _, h => ⟨h.1, h.2.legible⟩
  | .statement _ _, h => ⟨h.1, tight_of_isClean endsStatement_of_endsItem h.2⟩
  | .block _ body, h => ⟨h.1.legible, Item.AllWellFormed.allLegible body h.2⟩

theorem Item.AllWellFormed.allLegible {top : Bool} :
    ∀ items : List Item, Item.AllWellFormed top items → Item.AllLegible top items
  | [], _ => trivial
  | item :: items, h =>
    ⟨Item.WellFormed.legible item h.1, Item.AllWellFormed.allLegible items h.2⟩

end

/-- A written stylesheet is read as it was, whatever the indent. -/
theorem parseStylesheet_pretty {indent : Text} {sheet : Stylesheet}
    (hi : ∀ c ∈ indent, Text.isAsciiBlank c = true) (h : sheet.WellFormed) :
    parseStylesheet (sheet.pretty indent) = .ok sheet :=
  parseStylesheet_of_allLegible hi (Item.AllWellFormed.allLegible _ h)

/-- A stylesheet with an import, a rule whose selectors hold a literal, and a nested group. -/
def sampleSheet : Stylesheet where
  rules :=
    [.statement "import".toList "url(a;b.css) screen".toList,
      .block (.style ["a[b=\"\\\"\x7b,\"]".toList, "*".toList])
        [.declaration ⟨"color".toList, "red".toList, true⟩,
          .block (.atRule "media".toList []) [.declaration ⟨"--x".toList, [], false⟩]]]
  all_isRule := by simp

theorem wellFormed_sampleSheet : sampleSheet.WellFormed := by
  have hcolor : Declaration.WellFormed ⟨"color".toList, "red".toList, true⟩ :=
    ⟨by decide, by decide, by decide, by decide, by simp⟩
  have hnone : ¬EndsInImportant [] := by
    rintro ⟨front, blanks, word, h, -⟩
    simp at h
  have hx : Declaration.WellFormed ⟨"--x".toList, [], false⟩ :=
    ⟨by decide, by decide, by decide, by decide, fun _ => hnone⟩
  have hselectors : Head.WellFormed true (.style ["a[b=\"\\\"\x7b,\"]".toList, "*".toList]) :=
    ⟨⟨_, rfl, by decide⟩, by decide⟩
  have hmedia : Head.WellFormed false (.atRule "media".toList []) := ⟨by decide, by decide⟩
  exact ⟨⟨by decide, by decide⟩,
    ⟨hselectors, ⟨rfl, hcolor⟩, ⟨hmedia, ⟨rfl, hx⟩, trivial⟩, trivial⟩, trivial⟩

/-- The sample is written with a tab and a form feed for each level, and read as it was. -/
theorem parseStylesheet_pretty_sampleSheet :
    sampleSheet.WellFormed ∧
      parseStylesheet (sampleSheet.pretty ['\t', '\x0c']) = .ok sampleSheet :=
  ⟨wellFormed_sampleSheet,
    parseStylesheet_pretty (Text.forall_mem_of_all (by decide)) wellFormed_sampleSheet⟩

end Css

end PrettyPayload
