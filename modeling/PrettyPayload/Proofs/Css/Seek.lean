import PrettyPayload.Proofs.Css.Offset
import PrettyPayload.Proofs.Css.Scan

/-!
# Searches over bytes and over characters

A search over bytes steps over two of them at a backslash, and so it may stand inside the character
behind that backslash, or behind the end of the text. Neither matters: every byte of a character
that takes several is passed, in and outside of literals, so that the search next stops to look at
the first byte of a character again. `cutBy` is the search over characters with the same state, and
`seek_eq` says that one finds the offset of what the other cuts at.

With counters that do not overflow, `cutBy` is `breakAt` for separators and `closeBlock` for the end
of a block.
-/

namespace PrettyPayload

namespace Css

namespace Offset

variable {σ : Type} {visit : σ → Char → Option σ} {stops : Char → Bool} {k : Quoting} {s : σ}
  {c d : Char} {t front rest before after input : Text} {counter : UInt32} {depth length : Nat}

/-! ## The search over characters -/

/-- What one more character does to the state of a search, unless it ends there. -/
def look (visit : σ → Char → Option σ) (k : Quoting) (s : σ) (c : Char) : Option σ :=
  if k.isPlain && !isQuote c && c ≠ '\\' then visit s c else some s

/-- The text before the character where a search ends, that character, and what follows it. -/
def cutBy (visit : σ → Char → Option σ) : Quoting → σ → Text → Option (Text × Char × Text)
  | _, _, [] => none
  | k, s, c :: t =>
    match look visit k s c with
    | none => some ([], c, t)
    | some s => (cutBy visit (k.step c) s t).map fun (before, d, after) => (c :: before, d, after)

/-- A search loses nothing, and it ends where its `visit` does. -/
theorem cutBy_eq_some (h : cutBy visit k s t = some (before, d, after)) :
    t = before ++ d :: after ∧ ∃ s, visit s d = none := by
  induction t generalizing k s before with
  | nil => cases h
  | cons c t ih =>
    rw [cutBy] at h
    split at h
    next hlook =>
      obtain ⟨rfl, rfl, rfl⟩ := Option.some.inj h
      refine ⟨rfl, s, ?_⟩
      unfold look at hlook
      split at hlook
      · exact hlook
      · cases hlook
    next s' hlook =>
      obtain ⟨⟨b, e, a⟩, hcut, he⟩ := Option.map_eq_some_iff.1 h
      obtain ⟨rfl, rfl, rfl⟩ := he
      obtain ⟨rfl, hend⟩ := ih hcut
      exact ⟨rfl, hend⟩

/-! ## Bytes of longer characters -/

def PassesLong (visit : σ → Char → Option σ) : Prop :=
  ∀ s d, Text.isAscii d = false → visit s d = some s

theorem isAscii_of_isQuote (h : isQuote c = true) : Text.isAscii c = true := by
  rcases Bool.or_eq_true_iff.1 h with h | h <;> (rw [of_decide_eq_true h]; decide)

theorem not_isQuote_of_not_isAscii (h : Text.isAscii c = false) : isQuote c = false :=
  Bool.eq_false_iff.2 fun hc => Bool.eq_false_iff.1 h (isAscii_of_isQuote hc)

theorem seek_of_byteAt?_eq_none {i : Nat} {quote : Option Char} (h : Text.byteAt? input i = none) :
    seek visit input i quote s = none := by
  rw [seek]
  split
  · rfl
  · simp_all

theorem seek_of_byteAt? {i : Nat} {quote : Option Char} {b : Char}
    (h : Text.byteAt? input i = some b) :
    seek visit input i quote s =
      match quote with
      | some q =>
        if b = '\\' then seek visit input (i + 2) (some q) s
        else seek visit input (i + 1) (if b = q then none else some q) s
      | none =>
        if isQuote b then seek visit input (i + 1) (some b) s
        else if b = '\\' then seek visit input (i + 2) none s
        else
          match visit s b with
          | none => some (i, b)
          | some s => seek visit input (i + 1) none s := by
  rw [seek]
  split
  · simp_all
  next e he =>
    obtain rfl : e = b := Option.some.inj (he.symm.trans h)
    rfl

/-- A search goes over a run of bytes that belong to characters that take several. -/
theorem seek_add (hvisit : PassesLong visit) {quote : Option Char}
    (hquote : ∀ q, quote = some q → isQuote q = true) {i n : Nat}
    (h : ∀ j < n, ∃ d, Text.byteAt? input (i + j) = some d ∧ Text.isAscii d = false) :
    seek visit input i quote s = seek visit input (i + n) quote s := by
  induction n generalizing i with
  | zero => rfl
  | succ n ih =>
    obtain ⟨d, hd, hlong⟩ := h 0 (Nat.succ_pos n)
    rw [Nat.add_zero] at hd
    have hslash : d ≠ '\\' := (Text.ne_of_class (by decide) hlong).symm
    have hnext : seek visit input i quote s = seek visit input (i + 1) quote s := by
      rw [seek_of_byteAt? hd]
      cases quote with
      | none => simp only [not_isQuote_of_not_isAscii hlong, hslash, hvisit s d hlong]; rfl
      | some q =>
        have hq : d ≠ q := (Text.ne_of_class (isAscii_of_isQuote (hquote q rfl)) hlong).symm
        simp only [hslash, hq, if_false]
    rw [hnext, ih fun j hj => ?_, Nat.add_right_comm, Nat.add_assoc]
    obtain ⟨e, he⟩ := h (j + 1) (Nat.succ_lt_succ hj)
    exact ⟨e, by rwa [Nat.add_right_comm, Nat.add_assoc]⟩

/-! ## One character of both searches -/

/-- Where the search over bytes is in front of the rest of a text: right behind the texts before it,
or one byte further on, behind a backslash. -/
def standing (front : Text) (k : Quoting) : Nat :=
  front.byteLength + if k.escaped then 1 else 0

@[simp] theorem standing_escaped (front : Text) (quote : Option Char) :
    standing front ⟨quote, true⟩ = front.byteLength + 1 := rfl

@[simp] theorem standing_unescaped (front : Text) (quote : Option Char) :
    standing front ⟨quote, false⟩ = front.byteLength := rfl

/-- A character that takes several bytes leaves a search as it was. -/
theorem seek_cons_of_not_isAscii (hvisit : PassesLong visit)
    (hquote : ∀ q, k.quote = some q → isQuote q = true) (hc : Text.isAscii c = false)
    (front t : Text) :
    seek visit (front ++ c :: t) (standing front k) k.quote s =
      seek visit (front ++ c :: t) (front ++ [c]).byteLength k.quote s := by
  have hpos := c.utf8Size_pos
  have hrun (m n : Nat) (h : m + n = c.utf8Size) :
      seek visit (front ++ c :: t) (front.byteLength + m) k.quote s =
        seek visit (front ++ c :: t) (front.byteLength + m + n) k.quote s := by
    refine seek_add hvisit hquote fun j hj => ?_
    rw [Nat.add_assoc]
    exact Text.byteAt?_of_not_isAscii hc front t (by omega)
  have hend : (front ++ [c]).byteLength = front.byteLength + c.utf8Size := by simp
  rw [hend]
  obtain ⟨quote, escaped⟩ := k
  cases escaped with
  | false => exact (hrun 0 c.utf8Size (Nat.zero_add _)).trans (by rw [Nat.add_zero])
  | true =>
    have hlast := hrun 1 (c.utf8Size - 1) (by omega)
    rwa [Nat.add_assoc, Nat.add_sub_cancel' hpos] at hlast

theorem step_of_not_isAscii (hquote : ∀ q, k.quote = some q → isQuote q = true)
    (hc : Text.isAscii c = false) : k.step c = ⟨k.quote, false⟩ := by
  have hslash : c ≠ '\\' := (Text.ne_of_class (by decide) hc).symm
  obtain ⟨quote, escaped⟩ := k
  cases escaped with
  | true => rfl
  | false =>
    cases quote with
    | none => simp [Quoting.step, hslash, not_isQuote_of_not_isAscii hc]
    | some q =>
      have hq : c ≠ q := (Text.ne_of_class (isAscii_of_isQuote (hquote q rfl)) hc).symm
      simp [Quoting.step, hslash, hq]

theorem seek_cons_of_isAscii (hc : Text.isAscii c = true) (front t : Text) :
    seek visit (front ++ c :: t) (standing front k) k.quote s =
      match look visit k s c with
      | none => some (front.byteLength, c)
      | some s =>
        seek visit (front ++ c :: t) (standing (front ++ [c]) (k.step c)) (k.step c).quote s := by
  have hend := Text.byteLength_concat hc front
  have hbyte := Text.byteAt?_of_isAscii hc front t
  obtain ⟨quote, escaped⟩ := k
  cases escaped with
  | true => simp [look, Quoting.isPlain, Quoting.step, hend]
  | false =>
    rw [standing_unescaped, seek_of_byteAt? hbyte]
    by_cases hslash : c = '\\'
    · subst hslash
      cases quote <;> simp [look, Quoting.step, hend, isQuote]
    cases quote with
    | some q =>
      by_cases hq : c = q
      · subst hq
        simp [look, Quoting.isPlain, Quoting.step, Quoting.start, hslash, hend]
      · simp [look, Quoting.isPlain, Quoting.step, hslash, hq, hend]
    | none =>
      cases hopen : isQuote c with
      | true => simp [look, Quoting.step, hslash, hopen, hend]
      | false => simp [look, Quoting.isPlain, Quoting.step, hslash, hopen, hend]

theorem seek_cons (hvisit : PassesLong visit) (hquote : ∀ q, k.quote = some q → isQuote q = true)
    (front : Text) (c : Char) (t : Text) :
    seek visit (front ++ c :: t) (standing front k) k.quote s =
      match look visit k s c with
      | none => some (front.byteLength, c)
      | some s =>
        seek visit (front ++ c :: t) (standing (front ++ [c]) (k.step c)) (k.step c).quote s := by
  cases hc : Text.isAscii c with
  | false =>
    have hlook : look visit k s c = some s := by
      unfold look
      split
      · exact hvisit s c hc
      · rfl
    rw [hlook, step_of_not_isAscii hquote hc, standing_unescaped]
    exact seek_cons_of_not_isAscii hvisit hquote hc front t
  | true => exact seek_cons_of_isAscii hc front t

/-- Both searches end at the same character, from the same state on. The search over bytes may be
one byte too far: inside a character, which it then passes, or behind the end, where there is
nothing to find. -/
theorem seek_eq (hvisit : PassesLong visit) (hquote : ∀ q, k.quote = some q → isQuote q = true)
    (front rest : Text) (s : σ) :
    seek visit (front ++ rest) (standing front k) k.quote s =
      (cutBy visit k s rest).map fun cut => ((front ++ cut.1).byteLength, cut.2.1) := by
  induction rest generalizing front k s with
  | nil =>
    refine seek_of_byteAt?_eq_none (Text.byteAt?_of_le ?_)
    rw [List.append_nil, standing]
    exact Nat.le_add_right _ _
  | cons c t ih =>
    rw [seek_cons hvisit hquote, cutBy]
    cases look visit k s c with
    | none => simp
    | some s =>
      have hnext := ih (Quoting.isQuote_of_quote_step hquote c) (front ++ [c]) s
      rw [List.append_assoc, List.singleton_append] at hnext
      simp only [hnext, Option.map_map]
      congr 1
      funext cut
      simp

/-! ## Separators -/

/-- The separators that a search can look for: characters of one byte, none of which means anything
else to it. -/
def Separates (stops : Char → Bool) : Prop :=
  ∀ c, stops c = true → Text.isAscii c = true ∧ isQuote c = false ∧ c ∉ ['\\', '(', ')', '[', ']']

theorem visit_of_not_mem {k : Depths} (h : c ∉ ['(', ')', '[', ']']) :
    k.visit stops c = if k.parens = 0 && k.brackets = 0 && stops c then none else some k := by
  simp only [List.mem_cons, List.not_mem_nil, not_or, or_false] at h
  unfold Depths.visit
  simp [h]

theorem passesLong_visit (h : Separates stops) : PassesLong (Depths.visit stops) := by
  intro k d hd
  have hstop : stops d = false := Bool.eq_false_iff.2 fun hs => Bool.eq_false_iff.1 hd (h d hs).1
  have hmark : d ∉ ['(', ')', '[', ']'] := by
    intro hm
    have hascii : ∀ c ∈ ['(', ')', '[', ']'], Text.isAscii c = true :=
      Text.forall_mem_of_all (by decide)
    rw [hascii d hm] at hd
    cases hd
  rw [visit_of_not_mem hmark, hstop, Bool.and_false]
  rfl

@[simp] theorem toNat_less (n : UInt32) : (less n).toNat = n.toNat - 1 := by
  unfold less
  split
  next h => simp [h]
  next h =>
    have hpos : 1 ≤ n.toNat := Nat.one_le_iff_ne_zero.2 fun hn => h (UInt32.toNat_inj.1 hn)
    exact UInt32.toNat_sub_of_le n 1 (UInt32.le_iff_toNat_le.2 hpos)

/-- A counter agrees with a depth, and a text of this length cannot make it overflow. -/
def Counts (counter : UInt32) (depth length : Nat) : Prop :=
  counter.toNat = depth ∧ depth + length < UInt32.size

theorem Counts.same (h : Counts counter depth (length + 1)) : Counts counter depth length :=
  ⟨h.1, by have := h.2; omega⟩

theorem Counts.more (h : Counts counter depth (length + 1)) :
    Counts (counter + 1) (depth + 1) length := by
  obtain ⟨rfl, hlt⟩ := h
  have hsum : counter.toNat + 1 < UInt32.size := by omega
  exact ⟨(UInt32.toNat_add counter 1).trans (Nat.mod_eq_of_lt hsum), by omega⟩

theorem Counts.less (h : Counts counter depth (length + 1)) :
    Counts (less counter) (depth - 1) length := by
  obtain ⟨rfl, hlt⟩ := h
  exact ⟨toNat_less counter, by omega⟩

theorem Counts.eq_zero_iff (h : Counts counter depth length) : counter = 0 ↔ depth = 0 := by
  rw [← h.1]
  exact UInt32.toNat_inj.symm

theorem look_visit (hstops : Separates stops) {n : Nesting} {k : Depths}
    (hparens : Counts k.parens n.parens (length + 1))
    (hbrackets : Counts k.brackets n.brackets (length + 1)) (c : Char) :
    if n.isTop && stops c then look (Depths.visit stops) n.quoting k c = none
    else ∃ k' : Depths, look (Depths.visit stops) n.quoting k c = some k' ∧
      Counts k'.parens (n.step c).parens length ∧
      Counts k'.brackets (n.step c).brackets length := by
  cases hplain : n.quoting.isPlain with
  | false =>
    rw [Nesting.isTop, hplain, Nesting.step_of_not_plain hplain, look, hplain]
    exact ⟨k, rfl, hparens.same, hbrackets.same⟩
  | true =>
    have hstop (h : isQuote c = true ∨ c ∈ ['\\', '(', ')', '[', ']']) : stops c = false := by
      refine Bool.eq_false_iff.2 fun hs => ?_
      obtain ⟨-, hquote, hmark⟩ := hstops c hs
      rcases h with h | h
      · rw [hquote] at h; cases h
      · exact hmark h
    by_cases hmark : c ∈ ['(', ')', '[', ']']
    · rw [hstop (.inr (List.mem_cons_of_mem _ hmark)), Bool.and_false]
      simp only [List.mem_cons, List.not_mem_nil, or_false] at hmark
      rcases hmark with rfl | rfl | rfl | rfl <;>
        simp only [look, hplain, Nesting.step, if_true]
      · exact ⟨_, rfl, hparens.more, hbrackets.same⟩
      · exact ⟨_, rfl, hparens.less, hbrackets.same⟩
      · exact ⟨_, rfl, hparens.same, hbrackets.more⟩
      · exact ⟨_, rfl, hparens.same, hbrackets.less⟩
    · rw [Nesting.step_of_not_mem hmark, look, visit_of_not_mem hmark, Nesting.isTop, hplain]
      by_cases hquoting : isQuote c = true ∨ c = '\\'
      · have hsame : stops c = false := by
          rcases hquoting with hquote | rfl
          · exact hstop (.inl hquote)
          · exact hstop (.inr List.mem_cons_self)
        rw [hsame, Bool.and_false]
        refine ⟨k, if_neg fun h => ?_, hparens.same, hbrackets.same⟩
        rcases hquoting with hquote | rfl <;> simp_all
      · rw [not_or] at hquoting
        have hread : (true && !isQuote c && decide (c ≠ '\\')) = true := by simp [hquoting]
        rw [if_pos hread]
        simp only [hparens.eq_zero_iff, hbrackets.eq_zero_iff, Bool.true_and]
        split
        · rfl
        · exact ⟨k, rfl, hparens.same, hbrackets.same⟩

theorem cutBy_visit_eq_breakAt (hstops : Separates stops) {n : Nesting} {k : Depths}
    (hparens : Counts k.parens n.parens t.length)
    (hbrackets : Counts k.brackets n.brackets t.length) :
    cutBy (Depths.visit stops) n.quoting k t = breakAt stops n t := by
  induction t generalizing n k with
  | nil => rfl
  | cons c t ih =>
    have hlook := look_visit hstops hparens hbrackets c
    rw [cutBy, breakAt]
    split at hlook
    · simp_all
    next htop =>
      obtain ⟨k', hk', hp, hb⟩ := hlook
      rw [hk', if_neg htop, ← ih hp hb, Nesting.quoting_step]

/-- The text before the first separator that counts for a search with counters, the separator, and
what follows it. -/
def cutTop (stops : Char → Bool) (t : Text) : Option (Text × Char × Text) :=
  cutBy (Depths.visit stops) Quoting.start ⟨0, 0⟩ t

theorem cutTop_eq_breakAt (hstops : Separates stops) (h : t.length < UInt32.size) :
    cutTop stops t = breakAt stops Nesting.start t :=
  have hzero : Counts 0 0 t.length := ⟨rfl, by omega⟩
  cutBy_visit_eq_breakAt (n := Nesting.start) (k := ⟨0, 0⟩) hstops hzero hzero

theorem cutTop_eq_some (h : cutTop stops t = some (before, d, after)) :
    t = before ++ d :: after ∧ stops d = true := by
  obtain ⟨ht, k, hend⟩ := cutBy_eq_some h
  refine ⟨ht, ?_⟩
  unfold Depths.visit at hend
  split at hend <;> simp_all

theorem findTop_eq (hstops : Separates stops) (front rest : Text) :
    findTop (front ++ rest) front.byteLength stops =
      (cutTop stops rest).map fun cut => ((front ++ cut.1).byteLength, cut.2.1) :=
  seek_eq (k := Quoting.start) (passesLong_visit hstops) nofun front rest ⟨0, 0⟩

/-! ## The end of a block -/

theorem visitBlock_of_ne {depth : UInt32} (hopen : c ≠ '{') (hclose : c ≠ '}') :
    visitBlock depth c = some depth := by
  unfold visitBlock
  split
  · exact absurd rfl hopen
  · exact absurd rfl hclose
  · rfl

theorem passesLong_visitBlock : PassesLong visitBlock := fun _ _ hd =>
  visitBlock_of_ne (Text.ne_of_class (by decide) hd).symm (Text.ne_of_class (by decide) hd).symm

theorem look_visitBlock (h : Counts counter (depth + 1) (length + 1)) (c : Char) :
    match depthAfter? k depth c with
    | none => look visitBlock k counter c = none
    | some depth' => ∃ counter', look visitBlock k counter c = some counter' ∧
      Counts counter' (depth' + 1) length := by
  unfold depthAfter?
  cases hplain : k.isPlain with
  | false => exact ⟨counter, by simp [look, hplain], h.same⟩
  | true =>
    by_cases hclose : c = '}'
    · subst hclose
      have hlook : look visitBlock k counter '}' =
          if counter - 1 = 0 then none else some (counter - 1) := by
        simp [look, hplain, isQuote, visitBlock]
      have hless : Counts (counter - 1) depth length := by
        have hne : counter ≠ 0 := mt h.eq_zero_iff.1 (Nat.succ_ne_zero depth)
        have hcounts := h.less
        rwa [less, if_neg hne] at hcounts
      rw [hlook]
      cases depth with
      | zero => exact if_pos (hless.eq_zero_iff.2 rfl)
      | succ depth => exact ⟨_, if_neg (mt hless.eq_zero_iff.1 (Nat.succ_ne_zero depth)), hless⟩
    by_cases hopen : c = '{'
    · subst hopen
      exact ⟨counter + 1, by simp [look, hplain, isQuote, visitBlock], h.more⟩
    · have hlook : look visitBlock k counter c = some counter := by
        unfold look
        split
        · exact visitBlock_of_ne hopen hclose
        · rfl
      simp only [hclose, hopen, decide_false, Bool.and_false]
      exact ⟨counter, hlook, h.same⟩

theorem cutBy_visitBlock_eq_closeBlock (h : Counts counter (depth + 1) t.length) :
    (cutBy visitBlock k counter t).map (fun cut => (cut.1, cut.2.2)) = closeBlock k depth t := by
  induction t generalizing k counter depth with
  | nil => rfl
  | cons c t ih =>
    have hlook := look_visitBlock (k := k) h c
    rw [cutBy, closeBlock_cons]
    cases hdepth : depthAfter? k depth c with
    | none =>
      simp only [hdepth] at hlook
      rw [hlook]
      rfl
    | some depth' =>
      simp only [hdepth] at hlook
      obtain ⟨counter', hcounter, hcounts⟩ := hlook
      simp only [hcounter, ← ih hcounts, Option.map_map]
      rfl

/-- The body of a block whose opening brace was just read, for a search with a counter, and what
follows its closing brace. -/
def cutClose (t : Text) : Option (Text × Text) :=
  (cutBy visitBlock Quoting.start 1 t).map fun cut => (cut.1, cut.2.2)

theorem cutClose_eq_closeBlock (h : t.length + 1 < UInt32.size) :
    cutClose t = closeBlock Quoting.start 0 t :=
  cutBy_visitBlock_eq_closeBlock ⟨rfl, by omega⟩

theorem cutClose_eq_some (h : cutClose t = some (before, after)) : t = before ++ '}' :: after := by
  obtain ⟨⟨b, d, a⟩, hcut, he⟩ := Option.map_eq_some_iff.1 h
  obtain ⟨rfl, rfl⟩ := Prod.mk.inj he
  obtain ⟨rfl, depth, hend⟩ := cutBy_eq_some hcut
  obtain rfl : d = '}' := by
    unfold visitBlock at hend
    split at hend <;> simp_all
  rfl

theorem findClose_eq (front rest : Text) :
    findClose (front ++ '{' :: rest) front.byteLength =
      (cutClose rest).map fun cut => (front ++ '{' :: cut.1).byteLength := by
  have hbrace := Text.byteLength_concat (c := '{') rfl front
  have hseek := seek_eq (k := Quoting.start) passesLong_visitBlock nofun (front ++ ['{']) rest 1
  rw [List.append_assoc, List.singleton_append] at hseek
  rw [findClose, ← hbrace, cutClose, Option.map_map]
  exact (congrArg (Option.map Prod.fst) hseek).trans (by simp [Function.comp_def])

end Offset

end Css

end PrettyPayload
