import PrettyPayload.Proofs.Css.RoundTrip
import PrettyPayload.Proofs.Text.Split

/-!
# The ends of blocks

The brace that opens a block is found by a scan that keeps track of parentheses and brackets, and
the brace that closes it by one that does not. So a block can end at a brace inside parentheses, and
then its body leaves them open. `endsLevel_iff` says when that happens: the blocks of a stylesheet
that is accepted all end outside parentheses and brackets exactly if a search that keeps track of
them, `closeAtTop`, finds the same ends, and so they do where no brace stands in parentheses at all.
-/

namespace PrettyPayload

namespace Css

variable {s t rest : Text} {c : Char} {k : Nesting} {depth : Nat} {top : Bool} {items : List Item}

/-! ## A search that keeps track of parentheses -/

/-- The number of open blocks behind one more character, as `depthAfter?` has it, but by the braces
alone that stand outside parentheses and brackets. -/
def depthAtTop? (k : Nesting) (depth : Nat) (c : Char) : Option Nat :=
  if k.isTop then depthAfter? k.quoting depth c else some depth

/-- The body of a block whose opening brace was just read and what follows its closing brace, by the
braces alone that stand outside parentheses and brackets. -/
def closeAtTop : Nesting → (depth : Nat) → Text → Option (Text × Text)
  | _, _, [] => none
  | k, depth, c :: t =>
    match depthAtTop? k depth c with
    | none => some ([], t)
    | some d => (closeAtTop (k.step c) d t).map fun (body, rest) => (c :: body, rest)

theorem closeAtTop_cons {d : Nat} (h : depthAtTop? k depth c = some d) (t : Text) :
    closeAtTop k depth (c :: t) =
      (closeAtTop (k.step c) d t).map fun (body, rest) => (c :: body, rest) := by
  rw [closeAtTop, h]

def isBrace (c : Char) : Bool := c = '{' || c = '}'

theorem depthAtTop?_of_breakAt (h : (k.isTop && isBrace c) = false) (depth : Nat) :
    depthAtTop? k depth c = some depth := by
  unfold depthAtTop?
  split
  next htop =>
    have hc : c ≠ '{' ∧ c ≠ '}' := by
      constructor <;> (rintro rfl; rw [htop] at h; cases h)
    simp [depthAfter?, hc]
  next => rfl

/-- The body that the search finds leaves no parenthesis and no bracket open. -/
theorem after_of_closeAtTop {body : Text} (h : closeAtTop k depth t = some (body, rest)) :
    k.after body = Nesting.start := by
  induction t generalizing k depth body with
  | nil => cases h
  | cons c t ih =>
    rw [closeAtTop] at h
    split at h
    next hend =>
      obtain ⟨rfl, -⟩ := Prod.mk.inj (Option.some.inj h)
      unfold depthAtTop? at hend
      split at hend
      next htop => exact Nesting.eq_start_of_isTop htop
      next => cases hend
    next =>
      obtain ⟨⟨b, r⟩, hb, he⟩ := Option.map_eq_some_iff.1 h
      obtain ⟨rfl, rfl⟩ := Prod.mk.inj he
      rw [Nesting.after_cons, ih hb]

/-- Behind a text the search goes on with as many blocks open as before it. -/
def Leveled (k : Nesting) (t : Text) : Prop :=
  ∀ depth rest, closeAtTop k depth (t ++ rest) =
    (closeAtTop (k.after t) depth rest).map fun (body, rest) => (t ++ body, rest)

theorem Leveled.nil (k : Nesting) : Leveled k [] := fun depth rest => by simp

theorem Leveled.append (hs : Leveled k s) (ht : Leveled (k.after s) t) : Leveled k (s ++ t) := by
  intro depth rest
  rw [List.append_assoc, hs, ht, Option.map_map, Nesting.after_append]
  congr 1
  funext ⟨body, rest⟩
  exact congrArg (·, rest) (List.append_assoc s t body).symm

/-- A text without a brace that counts is gone over. -/
theorem leveled_of_breakAt (h : breakAt isBrace k t = none) : Leveled k t := by
  induction t generalizing k with
  | nil => exact Leveled.nil k
  | cons c t ih =>
    obtain ⟨hc, ht⟩ := breakAt_cons_eq_none_iff.1 h
    intro depth rest
    rw [List.cons_append, closeAtTop_cons (depthAtTop?_of_breakAt hc depth), ih ht, Option.map_map]
    rfl

theorem leveled_of_endsItem (h : breakAt endsItem k t = none) : Leveled k t := by
  refine leveled_of_breakAt (breakAt_mono (fun c hc => ?_) h)
  rw [isBrace, Bool.or_eq_true] at hc
  rcases hc with hc | hc <;> simp [endsItem, hc]

/-- A block with a body that leaves nothing open is gone over as a whole. -/
theorem Leveled.block {body : Text} (hbody : Leveled Nesting.start body)
    (hlevel : Nesting.start.after body = Nesting.start) (hrest : Leveled Nesting.start rest) :
    Leveled Nesting.start ('{' :: (body ++ '}' :: rest)) := by
  intro depth u
  have hopen : Nesting.start.step '{' = Nesting.start := by decide
  have hclose : Nesting.start.step '}' = Nesting.start := by decide
  have hmore : depthAtTop? Nesting.start depth '{' = some (depth + 1) := rfl
  have hless : depthAtTop? Nesting.start (depth + 1) '}' = some depth := rfl
  rw [Nesting.after_cons, hopen, Nesting.after_append, hlevel, Nesting.after_cons, hclose,
    List.cons_append, List.append_assoc, List.cons_append, closeAtTop_cons hmore, hopen, hbody,
    hlevel, closeAtTop_cons hless, hclose, hrest, Option.map_map, Option.map_map, Option.map_map]
  congr 1
  funext ⟨body', rest'⟩
  simp

/-! ## The blocks of a text -/

/-- A block is opened where a text is read, at any depth, and the second text is what follows its
opening brace. -/
inductive OpensBlock : Bool → Text → Text → Prop
  | first {top : Bool} {t before after : Text}
      (hcut : breakAt endsItem Nesting.start (skipSeparators top t) = some (before, '{', after)) :
      OpensBlock top t after
  | inside {top : Bool} {t before after body rest u : Text}
      (hcut : breakAt endsItem Nesting.start (skipSeparators top t) = some (before, '{', after))
      (hclose : closeBlock Quoting.start 0 after = some (body, rest))
      (hu : OpensBlock false body u) : OpensBlock top t u
  | behind {top : Bool} {t before after body rest u : Text}
      (hcut : breakAt endsItem Nesting.start (skipSeparators top t) = some (before, '{', after))
      (hclose : closeBlock Quoting.start 0 after = some (body, rest)) (hu : OpensBlock top rest u) :
      OpensBlock top t u
  | statement {top : Bool} {t before after u : Text}
      (hcut : breakAt endsItem Nesting.start (skipSeparators top t) = some (before, ';', after))
      (hu : OpensBlock top after u) : OpensBlock top t u

/-- The block whose opening brace stands before a text is closed in it, and its body leaves no
parenthesis and no bracket open. -/
def EndsLevel (u : Text) : Prop :=
  ∃ body rest, closeBlock Quoting.start 0 u = some (body, rest) ∧
    Nesting.start.after body = Nesting.start

def isSkipped (c : Char) : Bool :=
  c = '<' || c = '!' || c = '-' || c = '>' || (Text.isAsciiBlank c || c = ';')

theorem exists_eq_append_skipSeparators (top : Bool) (t : Text) :
    ∃ front, t = front ++ skipSeparators top t ∧ ∀ c ∈ front, isSkipped c = true := by
  fun_induction skipSeparators top t with
  | case1 t htop ih =>
    obtain ⟨front, ht, hfront⟩ := ih
    exact ⟨"<!--".toList ++ front, by simp [← ht], by simpa [isSkipped] using hfront⟩
  | case2 => exact ⟨[], rfl, List.forall_mem_nil _⟩
  | case3 t htop ih =>
    obtain ⟨front, ht, hfront⟩ := ih
    exact ⟨"-->".toList ++ front, by simp [← ht], by simpa [isSkipped] using hfront⟩
  | case4 => exact ⟨[], rfl, List.forall_mem_nil _⟩
  | case5 c t _ _ hc ih =>
    obtain ⟨front, ht, hfront⟩ := ih
    refine ⟨c :: front, by rw [List.cons_append, ← ht], List.forall_mem_cons.2 ⟨?_, hfront⟩⟩
    rw [isSkipped, hc, Bool.or_true]
  | case6 => exact ⟨[], rfl, List.forall_mem_nil _⟩
  | case7 => exact ⟨[], rfl, List.forall_mem_nil _⟩

/-- What is skipped before an item means nothing to a search. -/
theorem after_of_isSkipped (h : ∀ c ∈ t, isSkipped c = true) :
    Nesting.start.after t = Nesting.start ∧ breakAt isBrace Nesting.start t = none := by
  have hstep : ∀ c, isSkipped c = true →
      Nesting.start.step c = Nesting.start ∧ isBrace c = false := by
    intro c hc
    simp only [isSkipped, Text.isAsciiBlank, Bool.or_eq_true, decide_eq_true_eq] at hc
    rcases hc with (((rfl | rfl) | rfl) | rfl) | ((((rfl | rfl) | rfl) | rfl) | rfl) | rfl <;>
      decide
  induction t with
  | nil => exact ⟨rfl, rfl⟩
  | cons c t ih =>
    rw [List.forall_mem_cons] at h
    obtain ⟨hc, hbrace⟩ := hstep c h.1
    rw [Nesting.after_cons, breakAt_cons_eq_none_iff, hc, hbrace, Bool.and_false]
    exact ⟨(ih h.2).1, rfl, (ih h.2).2⟩

theorem exists_of_cut {before after : Text} {stop : Char}
    (hcut : breakAt endsItem Nesting.start (skipSeparators top t) = some (before, stop, after)) :
    ∃ front, t = front ++ stop :: after ∧ Nesting.start.after front = Nesting.start ∧
      Leveled Nesting.start front := by
  obtain ⟨skipped, ht, hskipped⟩ := exists_eq_append_skipSeparators top t
  obtain ⟨hafter, hbrace⟩ := after_of_isSkipped hskipped
  obtain ⟨hnone, hstart⟩ := eq_none_of_breakAt hcut
  refine ⟨skipped ++ before, ?_, by rw [Nesting.after_append, hafter, hstart], ?_⟩
  · rw [List.append_assoc, ← (breakAt_eq_some hcut).1, ← ht]
  · refine (leveled_of_breakAt hbrace).append ?_
    rw [hafter]
    exact leveled_of_endsItem hnone

theorem Reading.exists_of_block {before after : Text} (h : Reading top t items)
    (hcut : breakAt endsItem Nesting.start (skipSeparators top t) = some (before, '{', after)) :
    ∃ body rest inner more, closeBlock Quoting.start 0 after = some (body, rest) ∧
      Reading false body inner ∧ Reading top rest more := by
  cases h with
  | nothing hskip =>
    rw [hskip] at hcut
    cases hcut
  | last hne hnone hread =>
    rw [hnone] at hcut
    cases hcut
  | statement hcut' hread hmore =>
    rw [hcut'] at hcut
    cases hcut
  | block hcut' hclose hhead hbody hmore =>
    rw [hcut'] at hcut
    cases hcut
    exact ⟨_, _, _, _, hclose, hbody, hmore⟩

theorem Reading.exists_of_statement {before after : Text} (h : Reading top t items)
    (hcut : breakAt endsItem Nesting.start (skipSeparators top t) = some (before, ';', after)) :
    ∃ more, Reading top after more := by
  cases h with
  | nothing hskip =>
    rw [hskip] at hcut
    cases hcut
  | last hne hnone hread =>
    rw [hnone] at hcut
    cases hcut
  | statement hcut' hread hmore =>
    rw [hcut'] at hcut
    cases hcut
    exact ⟨_, hmore⟩
  | block hcut' hclose hhead hbody hmore =>
    rw [hcut'] at hcut
    cases hcut

theorem Reading.exists_of_opens {u : Text} (h : Reading top t items) (hu : OpensBlock top t u) :
    ∃ body rest inner, closeBlock Quoting.start 0 u = some (body, rest) ∧
      Reading false body inner ∧ ∀ v, OpensBlock false body v → OpensBlock top t v := by
  induction hu generalizing items with
  | first hcut =>
    obtain ⟨body, rest, inner, more, hclose, hbody, -⟩ := h.exists_of_block hcut
    exact ⟨body, rest, inner, hclose, hbody, fun v hv => .inside hcut hclose hv⟩
  | inside hcut hclose hu ih =>
    obtain ⟨body', rest', inner', more', hclose', hbody', -⟩ := h.exists_of_block hcut
    obtain ⟨rfl, rfl⟩ := Prod.mk.inj (Option.some.inj (hclose.symm.trans hclose'))
    obtain ⟨body, rest, inner, hend, hbody, hopens⟩ := ih hbody'
    exact ⟨body, rest, inner, hend, hbody, fun v hv => .inside hcut hclose (hopens v hv)⟩
  | behind hcut hclose hu ih =>
    obtain ⟨body', rest', inner', more', hclose', -, hmore'⟩ := h.exists_of_block hcut
    obtain ⟨rfl, rfl⟩ := Prod.mk.inj (Option.some.inj (hclose.symm.trans hclose'))
    obtain ⟨body, rest, inner, hend, hbody, hopens⟩ := ih hmore'
    exact ⟨body, rest, inner, hend, hbody, fun v hv => .behind hcut hclose (hopens v hv)⟩
  | statement hcut hu ih =>
    obtain ⟨more, hmore⟩ := h.exists_of_statement hcut
    obtain ⟨body, rest, inner, hend, hbody, hopens⟩ := ih hmore
    exact ⟨body, rest, inner, hend, hbody, fun v hv => .statement hcut (hopens v hv)⟩

theorem Reading.leveled (h : Reading top t items) (hlevel : ∀ u, OpensBlock top t u → EndsLevel u) :
    Leveled Nesting.start t := by
  induction h with
  | @nothing top t hskip =>
    obtain ⟨front, ht, hfront⟩ := exists_eq_append_skipSeparators top t
    rw [hskip, List.append_nil] at ht
    rw [ht]
    exact leveled_of_breakAt (after_of_isSkipped hfront).2
  | @last top t item hne hcut hread =>
    obtain ⟨front, ht, hfront⟩ := exists_eq_append_skipSeparators top t
    obtain ⟨hafter, hbrace⟩ := after_of_isSkipped hfront
    rw [ht]
    refine (leveled_of_breakAt hbrace).append ?_
    rw [hafter]
    exact leveled_of_endsItem hcut
  | statement hcut hread hmore ih =>
    obtain ⟨front, rfl, hafter, hfront⟩ := exists_of_cut hcut
    refine hfront.append ?_
    rw [hafter]
    have hsemicolon : Leveled Nesting.start [';'] := leveled_of_breakAt rfl
    exact hsemicolon.append (ih fun u hu => hlevel u (.statement hcut hu))
  | @block top t before after body rest _ _ _ hcut hclose _ _ _ ihbody ihmore =>
    obtain ⟨front, rfl, hafter, hfront⟩ := exists_of_cut hcut
    have hbody : Nesting.start.after body = Nesting.start := by
      obtain ⟨body', rest', hclose', hend⟩ := hlevel after (.first hcut)
      obtain ⟨rfl, rfl⟩ := Prod.mk.inj (Option.some.inj (hclose.symm.trans hclose'))
      exact hend
    have hinside := ihbody fun u hu => hlevel u (.inside hcut hclose hu)
    have hrest := ihmore fun u hu => hlevel u (.behind hcut hclose hu)
    rw [closeBlock_eq_some hclose]
    refine hfront.append ?_
    rw [hafter]
    exact hinside.block hbody hrest

/-! ## Braces in parentheses -/

/-- No brace stands in parentheses or brackets, unless it stands in a literal or is escaped. -/
def BracesAtTop (k : Nesting) (t : Text) : Prop :=
  ∀ front c back, t = front ++ c :: back → isBrace c = true →
    (k.after front).quoting.isPlain = true → (k.after front).isTop = true

instance (k : Nesting) (t : Text) : Decidable (BracesAtTop k t) :=
  Text.decidableForallSplit

theorem BracesAtTop.left (h : BracesAtTop k (s ++ t)) : BracesAtTop k s := by
  rintro front c back rfl
  exact h front c (back ++ t) (by simp)

theorem BracesAtTop.right (h : BracesAtTop k (s ++ t)) : BracesAtTop (k.after s) t := by
  rintro front c back rfl
  rw [← Nesting.after_append]
  exact h (s ++ front) c back (by simp)

theorem isPlain_of_closeBlock {body : Text}
    (h : closeBlock k.quoting depth t = some (body, rest)) :
    (k.after body).quoting.isPlain = true := by
  induction t generalizing k depth body with
  | nil => cases depth <;> cases h
  | cons c t ih =>
    rw [closeBlock_cons] at h
    split at h
    next hend =>
      obtain ⟨rfl, -⟩ := Prod.mk.inj (Option.some.inj h)
      unfold depthAfter? at hend
      split at hend
      next hc => exact (Bool.and_eq_true_iff.1 hc).1
      next => cases hend
    next =>
      obtain ⟨⟨b, r⟩, hb, he⟩ := Option.map_eq_some_iff.1 h
      obtain ⟨rfl, rfl⟩ := Prod.mk.inj he
      rw [← Nesting.quoting_step] at hb
      rw [Nesting.after_cons, ih hb]

/-- Where no brace stands in parentheses, the first block ends level, and none stands in parentheses
in its body and behind it. -/
theorem BracesAtTop.of_block {before after body : Text} (h : BracesAtTop Nesting.start t)
    (hcut : breakAt endsItem Nesting.start (skipSeparators top t) = some (before, '{', after))
    (hclose : closeBlock Quoting.start 0 after = some (body, rest)) :
    Nesting.start.after body = Nesting.start ∧ BracesAtTop Nesting.start body ∧
      BracesAtTop Nesting.start rest := by
  obtain ⟨front, rfl, hafter, -⟩ := exists_of_cut hcut
  obtain rfl := closeBlock_eq_some hclose
  have hopen : Nesting.start.step '{' = Nesting.start := by decide
  have hend : Nesting.start.step '}' = Nesting.start := by decide
  have hblock : BracesAtTop Nesting.start (body ++ '}' :: rest) := by
    have hright := BracesAtTop.right (s := front ++ ['{']) (by simpa using h)
    rwa [Nesting.after_append, hafter, Nesting.after_cons, hopen, Nesting.after_nil] at hright
  have hlevel : Nesting.start.after body = Nesting.start :=
    Nesting.eq_start_of_isTop (hblock body '}' rest rfl rfl (isPlain_of_closeBlock hclose))
  refine ⟨hlevel, hblock.left, ?_⟩
  have hright := BracesAtTop.right (s := body ++ ['}']) (by simpa using hblock)
  rwa [Nesting.after_append, hlevel, Nesting.after_cons, hend, Nesting.after_nil] at hright

theorem BracesAtTop.of_statement {before after : Text} (h : BracesAtTop Nesting.start t)
    (hcut : breakAt endsItem Nesting.start (skipSeparators top t) = some (before, ';', after)) :
    BracesAtTop Nesting.start after := by
  obtain ⟨front, rfl, hafter, -⟩ := exists_of_cut hcut
  have hend : Nesting.start.step ';' = Nesting.start := by decide
  have hright := BracesAtTop.right (s := front ++ [';']) (by simpa using h)
  rwa [Nesting.after_append, hafter, Nesting.after_cons, hend, Nesting.after_nil] at hright

/-- Where no brace stands in parentheses, every block ends level. -/
theorem Reading.endsLevel {u : Text} (h : Reading top t items)
    (hbraces : BracesAtTop Nesting.start t) (hu : OpensBlock top t u) : EndsLevel u := by
  induction hu generalizing items with
  | first hcut =>
    obtain ⟨body, rest, inner, more, hclose, -, -⟩ := h.exists_of_block hcut
    exact ⟨body, rest, hclose, (hbraces.of_block hcut hclose).1⟩
  | inside hcut hclose hu ih =>
    obtain ⟨body', rest', inner, more, hclose', hbody, -⟩ := h.exists_of_block hcut
    obtain ⟨rfl, rfl⟩ := Prod.mk.inj (Option.some.inj (hclose.symm.trans hclose'))
    exact ih hbody (hbraces.of_block hcut hclose).2.1
  | behind hcut hclose hu ih =>
    obtain ⟨body', rest', inner, more, hclose', -, hmore⟩ := h.exists_of_block hcut
    obtain ⟨rfl, rfl⟩ := Prod.mk.inj (Option.some.inj (hclose.symm.trans hclose'))
    exact ih hmore (hbraces.of_block hcut hclose).2.2
  | statement hcut hu ih =>
    obtain ⟨more, hmore⟩ := h.exists_of_statement hcut
    exact ih hmore (hbraces.of_statement hcut)

/-! ## Accepted stylesheets -/

/-- A separator that is found stands outside parentheses and brackets. The blocks of a stylesheet
that is accepted all end there, too, exactly if each ends where the search that keeps track of
parentheses and brackets finds its end, and so they do if no brace stands in them. -/
theorem endsLevel_iff {source : Text} {sheet : Stylesheet}
    (h : parseStylesheet source = .ok sheet) :
    ∃ t, stripComments source = .ok t ∧
      ((∀ u, OpensBlock true t u → EndsLevel u) ↔
        ∀ u, OpensBlock true t u → closeBlock Quoting.start 0 u = closeAtTop Nesting.start 0 u) ∧
      (BracesAtTop Nesting.start t → ∀ u, OpensBlock true t u → EndsLevel u) ∧
      ∀ stops u before stop after, breakAt stops Nesting.start u = some (before, stop, after) →
        Nesting.start.after before = Nesting.start := by
  obtain ⟨t, ht, h⟩ := exists_of_bind_eq_ok h
  obtain ⟨items, hitems, -⟩ := exists_of_bind_eq_ok h
  have hreading := reading_of_readItems hitems
  refine ⟨t, ht, ⟨fun hlevel u hu => ?_, fun hsame u hu => ?_⟩,
    fun hbraces u hu => hreading.endsLevel hbraces hu,
    fun stops u before stop after hcut => (eq_none_of_breakAt hcut).2⟩
  · -- the body is read, and so the search goes over it and stops where it ends
    obtain ⟨body, rest, inner, hclose, hbody, hopens⟩ := hreading.exists_of_opens hu
    obtain ⟨body', rest', hclose', hend⟩ := hlevel u hu
    obtain ⟨rfl, rfl⟩ := Prod.mk.inj (Option.some.inj (hclose.symm.trans hclose'))
    have hover := hbody.leveled (fun v hv => hlevel v (hopens v hv)) 0 ('}' :: rest)
    rw [← closeBlock_eq_some hclose, hend] at hover
    have hstop : closeAtTop Nesting.start 0 ('}' :: rest) = some ([], rest) := rfl
    calc closeBlock Quoting.start 0 u
        = some (body ++ [], rest) := by rw [hclose, List.append_nil]
      _ = closeAtTop Nesting.start 0 u := by rw [hover, hstop]; rfl
  · obtain ⟨body, rest, inner, hclose, -, -⟩ := hreading.exists_of_opens hu
    exact ⟨body, rest, hclose, after_of_closeAtTop (hsame u hu ▸ hclose)⟩

/-- A rule in an at-rule, with a brace in a literal and parentheses in a value. -/
def nestedBlocks : Text := "@media (a)\x7bb[c=\"\x7d\"]\x7bd:e(f)\x7d\x7d".toList

/-- The block inside the sample ends outside parentheses, and both searches find its end. -/
theorem endsLevel_nestedBlocks :
    (∃ sheet, parseStylesheet nestedBlocks = .ok sheet) ∧
      BracesAtTop Nesting.start nestedBlocks ∧
      OpensBlock true nestedBlocks "d:e(f)\x7d".toList ∧ EndsLevel "d:e(f)\x7d".toList ∧
      closeAtTop Nesting.start 0 "d:e(f)\x7d".toList = some ("d:e(f)".toList, []) := by
  have hsheet : parseStylesheet nestedBlocks =
      .ok (.ofItems [.block (.atRule "media".toList "(a)".toList)
        [.block (.style ["b[c=\"\x7d\"]".toList])
          [.declaration ⟨['d'], "e(f)".toList, false⟩]]]) := by decide +kernel
  have hstrip : stripComments nestedBlocks = .ok nestedBlocks := by decide +kernel
  have hbraces : BracesAtTop Nesting.start nestedBlocks := by decide +kernel
  have hopens : OpensBlock true nestedBlocks "d:e(f)\x7d".toList := by
    have hmedia : breakAt endsItem Nesting.start (skipSeparators true nestedBlocks) =
        some ("@media (a)".toList, '{', "b[c=\"\x7d\"]\x7bd:e(f)\x7d\x7d".toList) := by decide
    have hbody : closeBlock Quoting.start 0 "b[c=\"\x7d\"]\x7bd:e(f)\x7d\x7d".toList =
        some ("b[c=\"\x7d\"]\x7bd:e(f)\x7d".toList, []) := by decide
    have hrule : breakAt endsItem Nesting.start
        (skipSeparators false "b[c=\"\x7d\"]\x7bd:e(f)\x7d".toList) =
        some ("b[c=\"\x7d\"]".toList, '{', "d:e(f)\x7d".toList) := by decide
    exact .inside hmedia hbody (.first hrule)
  obtain ⟨t, ht, hsame, hlevel, -⟩ := endsLevel_iff hsheet
  obtain rfl := Except.ok.inj (hstrip.symm.trans ht)
  have hall := hlevel hbraces
  have hclose : closeBlock Quoting.start 0 "d:e(f)\x7d".toList = some ("d:e(f)".toList, []) := by
    decide
  exact ⟨⟨_, hsheet⟩, hbraces, hopens, hall _ hopens,
    (hsame.1 hall _ hopens).symm.trans hclose⟩

def openParenthesis : Text := "a\x7bb:c(\x7d".toList

/-- The block ends inside the parenthesis. A search that keeps track of it finds no end. -/
theorem endsLevel_fails_at_openParenthesis :
    parseStylesheet openParenthesis =
        .ok (.ofItems [.block (.style [['a']]) [.declaration ⟨['b'], "c(".toList, false⟩]]) ∧
      OpensBlock true openParenthesis "b:c(\x7d".toList ∧
      closeBlock Quoting.start 0 "b:c(\x7d".toList = some ("b:c(".toList, []) ∧
      (Nesting.start.after "b:c(".toList).parens = 1 ∧ ¬EndsLevel "b:c(\x7d".toList ∧
      closeAtTop Nesting.start 0 "b:c(\x7d".toList = none := by
  have hclose : closeBlock Quoting.start 0 "b:c(\x7d".toList = some ("b:c(".toList, []) := by decide
  have hcut : breakAt endsItem Nesting.start (skipSeparators true openParenthesis) =
      some (['a'], '{', "b:c(\x7d".toList) := by decide
  refine ⟨by decide +kernel, .first hcut, hclose, by decide, ?_, by decide⟩
  rintro ⟨body, rest, hclose', hend⟩
  obtain ⟨rfl, -⟩ := Prod.mk.inj (Option.some.inj (hclose.symm.trans hclose'))
  exact absurd hend (by decide)

end Css

end PrettyPayload
