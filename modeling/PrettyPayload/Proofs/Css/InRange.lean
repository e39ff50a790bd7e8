import PrettyPayload.Proofs.Css.Parts
import PrettyPayload.Proofs.Css.RoundTrip
import PrettyPayload.Proofs.Css.Sliced

/-!
# Reading by byte offsets always has a result

The reader that works with byte offsets slices nothing out of range, across the end of a text or
inside a character, so that it has a result for every text. Each of its functions agrees with the
one over characters: `Agrees` says that all slices succeed and that, for texts too short to make a
counter overflow, the results are the same. The loop over the items of a block goes on from one
round to the next at an offset between two characters.
-/

namespace PrettyPayload

namespace Css

namespace Offset

variable {α β γ : Type} {small small' : Prop} {R S : α → β → Prop} {x : Checked α}
  {y y' : Except Error β} {d : Char} {t front rest before after input : Text}

/-! ## Agreement -/

/-- Two results with the same fault, or with related values. -/
inductive Related (R : α → β → Prop) : Except Error α → Except Error β → Prop
  | ok {a : α} {b : β} (h : R a b) : Related R (.ok a) (.ok b)
  | error (fault : Error) : Related R (.error fault) (.error fault)

/-- All slices of `x` succeed, and if the text is small, its result is related to `y`. -/
def Agrees (small : Prop) (R : α → β → Prop) (x : Checked α) (y : Except Error β) : Prop :=
  ∃ r r', x = checked r ∧ Related R r r' ∧ (small → r' = y)

theorem agrees_ok {a : α} {b : β} (h : R a b) : Agrees small R (pure a) (.ok b) :=
  ⟨.ok a, .ok b, rfl, .ok h, fun _ => rfl⟩

theorem agrees_error (fault : Error) : Agrees small R (checked (.error fault)) (.error fault) :=
  ⟨.error fault, .error fault, rfl, .error fault, fun _ => rfl⟩

theorem agrees_refuse (fault : Text → Error) (t : Text) :
    Agrees small R (refuse fault t) (.error (fault (Css.excerpt t))) :=
  refuse_eq fault t ▸ agrees_error _

theorem agrees_checked (r : Except Error α) : Agrees small Eq (checked r) r := by
  cases r with
  | ok a => exact agrees_ok rfl
  | error fault => exact agrees_error fault

theorem Agrees.mono (h : Agrees small R x y) (hsmall : small' → small) : Agrees small' R x y := by
  obtain ⟨r, r', hx, hr, hy⟩ := h
  exact ⟨r, r', hx, hr, fun hs => hy (hsmall hs)⟩

theorem Agrees.congr (h : Agrees small R x y) (hy : small → y = y') : Agrees small R x y' := by
  obtain ⟨r, r', hx, hr, hy'⟩ := h
  exact ⟨r, r', hx, hr, fun hs => (hy' hs).trans (hy hs)⟩

theorem Agrees.exists_eq {y : Except Error α} (h : Agrees small Eq x y) :
    ∃ r, x = checked r ∧ (small → r = y) := by
  obtain ⟨r, r', hx, hrel, hy⟩ := h
  obtain rfl : r = r' := by cases hrel <;> simp_all
  exact ⟨r, hx, hy⟩

/-- What is read is related to what is read over characters. -/
theorem Agrees.exists_of_pure {a : α} (h : Agrees small R (pure a) y) :
    ∃ b, R a b ∧ (small → y = .ok b) := by
  obtain ⟨r, r', hr, hrel, hy⟩ := h
  obtain rfl : .ok a = r := Option.some.inj hr
  cases hrel with
  | @ok _ b hab => exact ⟨b, hab, fun hsmall => (hy hsmall).symm⟩

theorem Agrees.eq_error {fault : Error} (h : Agrees small R (checked (.error fault)) y)
    (hsmall : small) : y = .error fault := by
  obtain ⟨r, r', hr, hrel, hy⟩ := h
  obtain rfl : .error fault = r := Option.some.inj hr
  cases hrel
  exact (hy hsmall).symm

theorem Agrees.bind {α' β' : Type} {S : α' → β' → Prop} {f : α → Checked α'}
    {g : β → Except Error β'} (h : Agrees small R x y)
    (hf : ∀ a b, R a b → (small → y = .ok b) → Agrees small S (f a) (g b)) :
    Agrees small S (x >>= f) (y >>= g) := by
  obtain ⟨r, r', rfl, hr, hy⟩ := h
  cases hr with
  | @ok a b hab =>
    obtain ⟨s, s', hs, hrel, hg⟩ := hf a b hab fun hsmall => (hy hsmall).symm
    refine ⟨s, s', hs, hrel, fun hsmall => ?_⟩
    rw [← hy hsmall]
    exact hg hsmall
  | error fault =>
    refine ⟨.error fault, .error fault, rfl, .error fault, fun hsmall => ?_⟩
    rw [← hy hsmall]
    rfl

theorem Agrees.read {α' β' : Type} {S : α' → β' → Prop} {y : Except Error α} {f : α → Checked α'}
    {g : α → Except Error β'} (h : Agrees small Eq x y)
    (hf : ∀ a, (small → y = .ok a) → Agrees small S (f a) (g a)) :
    Agrees small S (x >>= f) (y >>= g) :=
  h.bind fun a _ hab hy => hab ▸ hf a fun hsmall => hab ▸ hy hsmall

theorem Agrees.map {y : Except Error α} (h : Agrees small Eq x y) (f : α → β) :
    Agrees small Eq (f <$> x) (f <$> y) := by
  rw [map_eq_pure_bind, map_eq_pure_bind]
  exact h.read fun _ _ => agrees_ok rfl

theorem agrees_mapM {f : α → Checked β} {g : α → Except Error β} {l : List α}
    (h : ∀ a ∈ l, Agrees small Eq (f a) (g a)) : Agrees small Eq (l.mapM f) (l.mapM g) := by
  induction l with
  | nil => exact agrees_ok rfl
  | cons a l ih =>
    rw [List.forall_mem_cons] at h
    rw [List.mapM_cons, List.mapM_cons]
    exact h.1.read fun _ _ => (ih h.2).read fun _ _ => agrees_ok rfl

/-! ## Parts -/

theorem separates_eq
    (h : Text.isAscii d = true ∧ isQuote d = false ∧ d ∉ ['\\', '(', ')', '[', ']']) :
    Separates fun c => decide (c = d) :=
  fun _ hc => of_decide_eq_true hc ▸ h

theorem separates_endsItem : Separates endsItem := by
  intro c hc
  simp only [endsItem, Bool.or_eq_true, decide_eq_true_eq] at hc
  rcases hc with (rfl | rfl) | rfl <;> decide

theorem splitTop_of_findTop_eq_none {start : Nat}
    (h : findTop input start (fun c => decide (c = d)) = none) :
    splitTop d input start = (do return [← slice input start input.byteLength]) := by
  rw [splitTop]
  split
  · rfl
  next hcut => cases hcut.symm.trans h

theorem splitTop_of_findTop {start i : Nat} {c : Char}
    (h : findTop input start (fun c => decide (c = d)) = some (i, c)) :
    splitTop d input start = (do
      let part ← slice input start i
      let parts ← splitTop d input (i + 1)
      return part :: parts) := by
  rw [splitTop]
  split
  next hcut => cases hcut.symm.trans h
  next j e hcut =>
    obtain ⟨rfl, rfl⟩ := Prod.mk.inj (Option.some.inj (hcut.symm.trans h))
    rfl

theorem agrees_splitTop (hd : Separates fun c => decide (c = d)) (front rest : Text) :
    Agrees (rest.length < UInt32.size) Eq (splitTop d (front ++ rest) front.byteLength)
      (.ok (splitAtTop d rest)) := by
  induction hn : rest.length using Nat.strongRecOn generalizing front rest with
  | ind n ih =>
    subst hn
    have hfind := findTop_eq hd front rest
    cases hcut : cutTop (fun c => decide (c = d)) rest with
    | none =>
      rw [hcut] at hfind
      rw [splitTop_of_findTop_eq_none hfind, slice_to_end, pure_bind]
      refine (agrees_ok rfl).congr fun hsmall => ?_
      rw [cutTop_eq_breakAt hd hsmall] at hcut
      rw [splitAtTop, hcut]
    | some cut =>
      obtain ⟨before, stop, after⟩ := cut
      obtain ⟨hrest, hstop⟩ := cutTop_eq_some hcut
      obtain rfl : stop = d := of_decide_eq_true hstop
      obtain ⟨hascii, -⟩ := hd stop hstop
      subst hrest
      rw [hcut] at hfind
      have hslice := slice_append front before (stop :: after)
      have hnext := ih after.length (by simp; omega) (front ++ before ++ [stop]) after rfl
      rw [List.append_assoc] at hslice
      rw [List.append_assoc _ [stop], List.singleton_append, List.append_assoc front before,
        Text.byteLength_concat hascii] at hnext
      rw [splitTop_of_findTop hfind, hslice, pure_bind]
      refine Agrees.congr ((hnext.mono ?_).read fun parts _ => agrees_ok rfl) fun hsmall => ?_
      · intro hsmall
        simp only [List.length_append, List.length_cons] at hsmall
        omega
      · rw [cutTop_eq_breakAt hd hsmall] at hcut
        conv => rhs; rw [splitAtTop, hcut]
        rfl

/-! ## Declarations, heads and statements -/

theorem length_collapse_le (t : Text) : (collapse t).length ≤ t.length :=
  Nat.le_trans (Text.trim_sublist _ _).length_le (length_collapseFrom_le _ t)

theorem agrees_readDeclaration (t : Text) :
    Agrees (t.length < UInt32.size) Eq (readDeclaration t) (Css.readDeclaration t) := by
  have hsep : Separates fun c => decide (c = ':') := separates_eq (by decide)
  have hlength := (Text.trim_sublist Text.isBlank t).length_le
  have hfind := findTop_eq hsep [] (Text.trim Text.isBlank t)
  unfold readDeclaration Css.readDeclaration
  generalize Text.trim Text.isBlank t = trimmed at hlength hfind
  have hbreak (hsmall : t.length < UInt32.size) :=
    cutTop_eq_breakAt hsep (Nat.lt_of_le_of_lt hlength hsmall)
  rw [List.nil_append, Text.byteLength_nil] at hfind
  cases hcut : cutTop (fun c => decide (c = ':')) trimmed with
  | none =>
    rw [hcut] at hfind
    simp only [hfind, Option.map_none]
    refine (agrees_refuse _ _).congr fun hsmall => ?_
    rw [← hbreak hsmall, hcut]
  | some cut =>
    obtain ⟨before, stop, after⟩ := cut
    obtain ⟨rfl, hstop⟩ := cutTop_eq_some hcut
    have hbefore := slice_from_start before (stop :: after)
    have hafter := slice_to_end (before ++ [stop]) after
    rw [List.append_assoc, List.singleton_append, Text.byteLength_concat (hsep stop hstop).1]
      at hafter
    rw [hcut] at hfind
    simp only [hfind, Option.map_some, List.nil_append, hbefore, hafter, splitImportant_eq,
      pure_bind]
    refine Agrees.congr (y := if collapse before = []
      then .error (.emptyProperty (Css.excerpt (before ++ stop :: after)))
      else .ok ⟨collapse before, (Css.splitImportant (collapse after)).1,
        (Css.splitImportant (collapse after)).2⟩) ?_ fun hsmall => ?_
    · split
      · exact agrees_refuse _ _
      · exact agrees_ok rfl
    · rw [← hbreak hsmall, hcut]

theorem agrees_readSelectors (prelude : Text) :
    Agrees (prelude.length < UInt32.size) Eq (readSelectors prelude)
      (Css.readSelectors prelude) := by
  have hsep : Separates fun c => decide (c = ',') := separates_eq (by decide)
  refine (agrees_splitTop hsep [] prelude).read fun parts _ => agrees_mapM fun part _ => ?_
  dsimp only
  split
  · exact agrees_refuse _ _
  · exact agrees_ok rfl

theorem agrees_readHead (before body : Text) :
    Agrees (before.length < UInt32.size) Eq (readHead before body) (Css.readHead before body) := by
  have hlength := length_collapse_le before
  unfold readHead Css.readHead
  generalize collapse before = prelude at hlength
  by_cases hnil : prelude = []
  · subst hnil
    exact agrees_refuse _ _
  rw [if_neg hnil]
  cases hat : Text.dropPrefix? ['@'] prelude with
  | some rest =>
    obtain rfl : prelude = '@' :: rest := Text.dropPrefix?_eq_some_iff.1 hat
    change Agrees _ _ (splitAtName rest >>= _) _
    rw [splitAtName_eq, pure_bind]
    change Agrees _ _
      (if (Css.splitAtName rest).1 = [] then refuse .missingSelector ('@' :: rest)
        else pure (Head.atRule (Css.splitAtName rest).1 (Css.splitAtName rest).2))
      (if (Css.splitAtName rest).1 = [] then .error (.missingSelector (Css.excerpt ('@' :: rest)))
        else .ok (Head.atRule (Css.splitAtName rest).1 (Css.splitAtName rest).2))
    split
    · exact agrees_refuse _ _
    · exact agrees_ok rfl
  | none =>
    have hread := ((agrees_readSelectors prelude).mono fun hsmall : before.length < UInt32.size =>
      Nat.lt_of_le_of_lt hlength hsmall).map Head.style
    change Agrees _ _ (Head.style <$> readSelectors prelude) _
    split
    · exact absurd rfl hnil
    · exact absurd hat nofun
    · exact hread

theorem agrees_readStatement (top : Bool) (t : Text) :
    Agrees (t.length < UInt32.size) Eq (readStatement top t) (Css.readStatement top t) := by
  have hlength := (Text.trim_sublist Text.isBlank t).length_le
  unfold readStatement Css.readStatement
  generalize Text.trim Text.isBlank t = trimmed at hlength
  have hdeclaration : Agrees (t.length < UInt32.size) Eq
      (if top then refuse .strayDeclaration trimmed
        else Item.declaration <$> readDeclaration trimmed : Checked Item)
      (if top then .error (.strayDeclaration (Css.excerpt trimmed))
        else Item.declaration <$> Css.readDeclaration trimmed) := by
    split
    · exact agrees_refuse _ _
    · exact ((agrees_readDeclaration _).mono fun hsmall => Nat.lt_of_le_of_lt hlength hsmall).map _
  dsimp only
  generalize (if top = true then refuse Error.strayDeclaration trimmed
    else Item.declaration <$> readDeclaration trimmed : Checked Item) = asDeclaration
    at hdeclaration ⊢
  generalize (if top = true then Except.error (Error.strayDeclaration (Css.excerpt trimmed))
    else Item.declaration <$> Css.readDeclaration trimmed) = declaration at hdeclaration ⊢
  cases hat : Text.dropPrefix? ['@'] trimmed with
  | some rest =>
    obtain rfl : trimmed = '@' :: rest := Text.dropPrefix?_eq_some_iff.1 hat
    change Agrees _ _ (splitAtName (collapse rest) >>= _) _
    rw [splitAtName_eq, pure_bind]
    change Agrees _ _
      (if (Css.splitAtName (collapse rest)).1 = [] then asDeclaration
        else pure (Item.statement (Css.splitAtName (collapse rest)).1
          (Css.splitAtName (collapse rest)).2))
      (if (Css.splitAtName (collapse rest)).1 = [] then declaration
        else .ok (Item.statement (Css.splitAtName (collapse rest)).1
          (Css.splitAtName (collapse rest)).2))
    split
    · exact hdeclaration
    · exact agrees_ok rfl
  | none =>
    change Agrees _ _ asDeclaration _
    split
    · exact absurd hat nofun
    · exact hdeclaration

/-! ## Rounds -/

/-- One round of the loop over items for the reader over characters; what is left to be read takes
the place of an offset. -/
def roundOf (top : Bool) (t : Text) : Except Error (Round Text) :=
  match skipSeparators top t with
  | [] => return .finished
  | c :: u =>
    match breakAt endsItem Nesting.start (c :: u) with
    | none => do
      let item ← Css.readStatement top (c :: u)
      return .statement item []
    | some (before, stop, after) =>
      if stop = '}' then .error (.unexpectedCloseBrace (Css.excerpt (before ++ ['}'])))
      else if stop = '{' then
        match closeBlock Quoting.start 0 after with
        | none => .error (.unclosedBlock (Css.excerpt before))
        | some (body, rest) => do
          let head ← Css.readHead before body
          return .block head body rest
      else do
        let item ← Css.readStatement top before
        return .statement item after

theorem readItems_eq_roundOf (top : Bool) (t : Text) :
    Css.readItems top t = (do
      match ← roundOf top t with
      | .finished => return []
      | .statement item rest =>
        let more ← Css.readItems top rest
        return item :: more
      | .block head body rest =>
        let items ← Css.readItems false body
        let more ← Css.readItems top rest
        return .block head items :: more) := by
  rw [Css.readItems_eq, roundOf]
  cases skipSeparators top t with
  | nil => rfl
  | cons c u =>
    dsimp only
    cases breakAt endsItem Nesting.start (c :: u) with
    | none =>
      rw [bind_assoc]
      refine congrArg (_ >>= ·) (funext fun item => ?_)
      rw [pure_bind]
      dsimp only
      rw [Css.readItems_nil]
      rfl
    | some cut =>
      obtain ⟨before, stop, after⟩ := cut
      dsimp only
      split
      · rfl
      split
      · cases closeBlock Quoting.start 0 after with
        | none => rfl
        | some cut => simp only [bind_assoc, pure_bind]
      · simp only [bind_assoc, pure_bind]

/-- The same round over bytes and over characters: the next one starts between two characters, with
no more than `t` to be read. -/
inductive Round.Placed (input t : Text) : Round Nat → Round Text → Prop
  | finished : Placed input t .finished .finished
  | statement (item : Item) {front rest : Text} (hinput : input = front ++ rest)
      (hlength : rest.length ≤ t.length) :
      Placed input t (.statement item front.byteLength) (.statement item rest)
  | block (head : Head) {body front rest : Text} (hinput : input = front ++ rest)
      (hlength : body.length ≤ t.length ∧ rest.length ≤ t.length) :
      Placed input t (.block head body front.byteLength) (.block head body rest)

theorem agrees_statementAt (top : Bool) {front part rest after : Text} {next : Nat}
    (hinput : input = front ++ part ++ rest)
    (hafter : ∃ read, input = read ++ after ∧ read.byteLength = next)
    (hpart : part.length ≤ t.length) (hrest : after.length ≤ t.length) :
    Agrees (t.length < UInt32.size) (Round.Placed input t)
      (statementAt top input front.byteLength (front ++ part).byteLength next)
      (do
        let item ← Css.readStatement top part
        return .statement item after) := by
  obtain ⟨front', hnext, rfl⟩ := hafter
  have hread := (agrees_readStatement top part).mono fun hsmall => Nat.lt_of_le_of_lt hpart hsmall
  rw [statementAt, hinput, slice_append, pure_bind, ← hinput]
  exact hread.read fun item _ => agrees_ok (.statement item hnext hrest)

theorem agrees_blockAt (hinput : input = front ++ before ++ '{' :: after)
    (hlength : before.length + after.length < t.length) :
    Agrees (t.length < UInt32.size) (Round.Placed input t)
      (blockAt input front.byteLength (front ++ before).byteLength)
      (match closeBlock Quoting.start 0 after with
        | none => .error (.unclosedBlock (Css.excerpt before))
        | some (body, rest) => do
          let head ← Css.readHead before body
          return .block head body rest) := by
  have hclose (hsmall : t.length < UInt32.size) := cutClose_eq_closeBlock (t := after) (by omega)
  have hfind := findClose_eq (front ++ before) after
  have hbefore := slice_append front before ('{' :: after)
  rw [← hinput] at hfind hbefore
  rw [blockAt, hfind]
  cases hcut : cutClose after with
  | none =>
    simp only [Option.map_none, hbefore, pure_bind]
    refine (agrees_refuse _ _).congr fun hsmall => ?_
    rw [← hclose hsmall, hcut]
  | some cut =>
    obtain ⟨body, rest⟩ := cut
    obtain rfl := cutClose_eq_some hcut
    have hbody : slice input ((front ++ before).byteLength + 1)
        (front ++ before ++ '{' :: body).byteLength = pure body := by
      have h := slice_append (front ++ before ++ ['{']) body ('}' :: rest)
      rw [Text.byteLength_concat rfl, List.append_assoc _ ['{'] body,
        List.append_assoc _ _ ('}' :: rest)] at h
      rw [hinput]
      exact h
    have hnext : input = front ++ before ++ '{' :: body ++ ['}'] ++ rest := by rw [hinput]; simp
    have hshort : body.length ≤ t.length ∧ rest.length ≤ t.length := by
      simp only [List.length_append, List.length_cons] at hlength
      omega
    have hread : Agrees (t.length < UInt32.size) Eq (readHead before body)
        (Css.readHead before body) :=
      (agrees_readHead before body).mono (by omega)
    simp only [Option.map_some, hbefore, hbody, pure_bind]
    rw [← Text.byteLength_concat (c := '}') rfl]
    refine (hread.read fun head _ => agrees_ok (.block head hnext hshort)).congr fun hsmall => ?_
    rw [← hclose hsmall, hcut]
    rfl

theorem agrees_closeAt (hinput : input = front ++ before ++ '}' :: after) :
    Agrees (t.length < UInt32.size) (Round.Placed input t)
      (do
        let near ← slice input front.byteLength ((front ++ before).byteLength + 1)
        refuse .unexpectedCloseBrace near)
      (.error (.unexpectedCloseBrace (Css.excerpt (before ++ ['}'])))) := by
  have hnear : slice input front.byteLength ((front ++ before).byteLength + 1) =
      pure (before ++ ['}']) := by
    have h := slice_append front (before ++ ['}']) after
    rw [← List.append_assoc front before, Text.byteLength_concat rfl, List.append_assoc] at h
    rw [hinput]
    exact h
  rw [hnear, pure_bind]
  exact agrees_refuse _ _

theorem agrees_stopAt (top : Bool) {stop : Char} (hstop : endsItem stop = true)
    (hinput : input = front ++ before ++ stop :: after)
    (hlength : before.length + after.length < t.length) :
    Agrees (t.length < UInt32.size) (Round.Placed input t)
      (if stop = '}' then do
        let near ← slice input front.byteLength ((front ++ before).byteLength + 1)
        refuse .unexpectedCloseBrace near
      else if stop = '{' then blockAt input front.byteLength (front ++ before).byteLength
      else statementAt top input front.byteLength (front ++ before).byteLength
        ((front ++ before).byteLength + 1))
      (if stop = '}' then .error (.unexpectedCloseBrace (Css.excerpt (before ++ ['}'])))
      else if stop = '{' then
        match closeBlock Quoting.start 0 after with
        | none => .error (.unclosedBlock (Css.excerpt before))
        | some (body, rest) => do
          let head ← Css.readHead before body
          return .block head body rest
      else do
        let item ← Css.readStatement top before
        return .statement item after) := by
  by_cases hclose : stop = '}'
  · subst hclose
    rw [if_pos rfl, if_pos rfl]
    exact agrees_closeAt hinput
  by_cases hopen : stop = '{'
  · subst hopen
    rw [if_neg hclose, if_pos rfl, if_neg hclose, if_pos rfl]
    exact agrees_blockAt hinput hlength
  · obtain ⟨hascii, -⟩ := separates_endsItem stop hstop
    have hafter : input = front ++ before ++ [stop] ++ after := by rw [hinput]; simp
    rw [if_neg hclose, if_neg hopen, if_neg hclose, if_neg hopen]
    exact agrees_statementAt top hinput ⟨_, hafter, Text.byteLength_concat hascii _⟩ (by omega)
      (by omega)

theorem agrees_round (top : Bool) (front t : Text) :
    Agrees (t.length < UInt32.size) (Round.Placed (front ++ t) t)
      (round top (front ++ t) front.byteLength) (roundOf top t) := by
  obtain ⟨blanks, ht, hskip⟩ := skip_eq top front t
  have hlength : (skipSeparators top t).length ≤ t.length := length_skipSeparators_le top t
  rw [round, hskip, pure_bind, roundOf]
  generalize skipSeparators top t = rest at ht hlength ⊢
  obtain ⟨input, hinput⟩ : ∃ input, input = front ++ t := ⟨_, rfl⟩
  obtain ⟨start, hstart⟩ : ∃ start, start = front ++ blanks := ⟨_, rfl⟩
  have hsplit : input = start ++ rest := by rw [hinput, hstart, List.append_assoc, ← ht]
  rw [← hinput, ← hstart]
  cases rest with
  | nil =>
    rw [List.append_nil] at hsplit
    rw [if_pos (Nat.le_of_eq (by rw [hsplit]))]
    exact agrees_ok .finished
  | cons c u =>
    have hlong : ¬input.byteLength ≤ start.byteLength := by
      have hpos := c.utf8Size_pos
      rw [hsplit, Text.byteLength_append, Text.byteLength_cons]
      omega
    have hbreak (hsmall : t.length < UInt32.size) :=
      cutTop_eq_breakAt separates_endsItem (Nat.lt_of_le_of_lt hlength hsmall)
    have hfind := findTop_eq separates_endsItem start (c :: u)
    rw [← hsplit] at hfind
    rw [if_neg hlong, hfind]
    dsimp only
    cases hcut : cutTop endsItem (c :: u) with
    | none =>
      have hpart : input = start ++ c :: u ++ [] := by rw [hsplit, List.append_nil]
      have hread := agrees_statementAt top hpart ⟨input, (List.append_nil _).symm, rfl⟩ hlength
        (Nat.zero_le _)
      rw [← hsplit] at hread
      refine hread.congr fun hsmall => ?_
      rw [← hbreak hsmall, hcut]
    | some cut =>
      obtain ⟨before, stop, after⟩ := cut
      obtain ⟨hu, hstop⟩ := cutTop_eq_some hcut
      have hparts : input = start ++ before ++ stop :: after := by
        rw [hsplit, hu, List.append_assoc]
      have hshort : before.length + after.length < t.length := by
        rw [hu, List.length_append, List.length_cons] at hlength
        omega
      refine (agrees_stopAt top hstop hparts hshort).congr fun hsmall => ?_
      rw [← hbreak hsmall, hcut]

/-- The items of a text are read in the same rounds, each between two characters. -/
theorem agrees_readItems {top : Bool} {cursor : Nat} (hinput : input = front ++ t)
    (hcursor : cursor = front.byteLength) :
    Agrees (t.length < UInt32.size) Eq (readItems top input cursor) (Css.readItems top t) := by
  -- the induction is on the rounds over bytes, whose next offset is between two characters again
  have hround (top : Bool) {front t input : Text} {cursor : Nat} (hinput : input = front ++ t)
      (hcursor : cursor = front.byteLength) := hinput ▸ hcursor ▸ agrees_round top front t
  fun_induction readItems top input cursor generalizing front t with
  | case1 top input cursor hnone =>
    obtain ⟨r, -, hr, -⟩ := hround top hinput hcursor
    cases hnone.symm.trans hr
  | case2 top input cursor fault hfault =>
    have h := hround top hinput hcursor
    rw [hfault] at h
    refine (agrees_error fault).congr fun hsmall => ?_
    rw [readItems_eq_roundOf, h.eq_error hsmall]
    rfl
  | case3 top input cursor hfinished =>
    have h := hround top hinput hcursor
    rw [hfinished] at h
    obtain ⟨_, ⟨⟩, hfinish⟩ := h.exists_of_pure
    refine (agrees_ok rfl).congr fun hsmall => ?_
    rw [readItems_eq_roundOf, hfinish hsmall]
    rfl
  | case4 top input cursor item next hstatement ih =>
    have h := hround top hinput hcursor
    rw [hstatement] at h
    obtain ⟨_, hplaced, hstep⟩ := h.exists_of_pure
    cases hplaced with
    | @statement _ front' rest hrest hlength =>
      have hmore := (ih hrest rfl).mono fun hsmall : t.length < UInt32.size =>
        Nat.lt_of_le_of_lt hlength hsmall
      refine (hmore.read fun more _ => agrees_ok rfl).congr fun hsmall => ?_
      rw [readItems_eq_roundOf top t, hstep hsmall]
      rfl
  | case5 top input cursor head body next hblock ihbody ihrest =>
    have h := hround top hinput hcursor
    rw [hblock] at h
    obtain ⟨_, hplaced, hstep⟩ := h.exists_of_pure
    cases hplaced with
    | @block _ _ front' rest hrest hlength =>
      have hitems := (ihbody (List.nil_append body).symm rfl).mono
        fun hsmall : t.length < UInt32.size => Nat.lt_of_le_of_lt hlength.1 hsmall
      have hmore := (ihrest hrest rfl).mono fun hsmall : t.length < UInt32.size =>
        Nat.lt_of_le_of_lt hlength.2 hsmall
      refine (hitems.read fun items _ => hmore.read fun more _ => agrees_ok rfl).congr
        fun hsmall => ?_
      rw [readItems_eq_roundOf top t, hstep hsmall]
      rfl

/-! ## Whole texts -/

theorem agrees_parseStylesheet (t : Text) :
    Agrees (t.length < UInt32.size) Eq (parseStylesheet t) (Css.parseStylesheet t) := by
  rw [parseStylesheet, stripComments_eq]
  refine (agrees_checked _).read fun text htext => ?_
  refine Agrees.read ?_ fun items _ => agrees_ok rfl
  refine (agrees_readItems (List.nil_append text).symm rfl).mono fun hsmall => ?_
  exact Nat.lt_of_le_of_lt (stripping_of_stripComments (htext hsmall)).length_le.1 hsmall

theorem agrees_parseDeclarations (t : Text) :
    Agrees (t.length < UInt32.size) Eq (parseDeclarations t) (Css.parseDeclarations t) := by
  have hsep : Separates fun c => decide (c = ';') := separates_eq (by decide)
  rw [parseDeclarations, stripComments_eq]
  refine (agrees_checked _).read fun text htext => ?_
  have hlength (hsmall : t.length < UInt32.size) : text.length < UInt32.size :=
    Nat.lt_of_le_of_lt (stripping_of_stripComments (htext hsmall)).length_le.1 hsmall
  refine Agrees.read (g := fun parts =>
    (parts.filter fun part => Text.trim Text.isBlank part ≠ []).mapM Css.readDeclaration)
    ((agrees_splitTop hsep [] text).mono hlength) fun parts hparts => ?_
  refine agrees_mapM fun part hpart => (agrees_readDeclaration part).mono fun hsmall => ?_
  have hmem : part ∈ splitAtTop ';' text := by
    rw [Except.ok.inj (hparts hsmall)]
    exact List.mem_of_mem_filter hpart
  have hinfix := Text.infix_joinWith [';'] hmem
  rw [joinWith_splitAtTop] at hinfix
  exact Nat.lt_of_le_of_lt hinfix.length_le (hlength hsmall)

theorem exists_slice_iff {i j : Nat} : (∃ part, slice t i j = pure part) ↔
    i ≤ j ∧ j ≤ t.byteLength ∧ t.IsBoundary i ∧ t.IsBoundary j := by
  rw [← Text.isSome_slice?_iff, Option.isSome_iff_exists]
  exact exists_congr fun part => slice_eq_pure_iff

def Round.next? {ι : Type} : Round ι → Option ι
  | finished => none
  | statement _ next => some next
  | block _ _ next => some next

theorem Round.Placed.isBoundary {r : Round Nat} {r' : Round Text} (h : Round.Placed input t r r') :
    ∀ next, r.next? = some next → input.IsBoundary next := by
  intro next hnext
  cases h with
  | finished => cases hnext
  | @statement item front rest hinput _ =>
    obtain rfl := Option.some.inj hnext
    exact ⟨front, rest, hinput, rfl⟩
  | @block head body front rest hinput _ =>
    obtain rfl := Option.some.inj hnext
    exact ⟨front, rest, hinput, rfl⟩

/-- Between two characters a round has a result; the next one starts further on and again between
two characters, and a block body is shorter than the text around it. -/
theorem exists_round (top : Bool) {cursor : Nat} (h : input.IsBoundary cursor) :
    ∃ r, round top input cursor = checked r ∧ ∀ a, r = .ok a →
      a.Onward input cursor ∧ ∀ next, a.next? = some next → input.IsBoundary next := by
  obtain ⟨front, t, rfl, rfl⟩ := h
  obtain ⟨r, r', hr, hrel, -⟩ := agrees_round top front t
  refine ⟨r, hr, ?_⟩
  rintro a rfl
  cases hrel with
  | ok hplaced => exact ⟨onward_of_round hr, hplaced.isBoundary⟩

/-- Both readers have a result for every text, the one over characters if no counter can overflow. A
slice has a result exactly for two offsets in order that stand between characters and not beyond the
end, so that no other is ever used. The loop over items moves on in every round, and what it reads
again is shorter. -/
theorem every_slice_succeeds (t : Text) :
    (∃ r, parseStylesheet t = checked r ∧ (t.length < UInt32.size → r = Css.parseStylesheet t)) ∧
      (∃ r, parseDeclarations t = checked r ∧
        (t.length < UInt32.size → r = Css.parseDeclarations t)) ∧
      (∀ (u : Text) (i j : Nat), (∃ part, slice u i j = pure part) ↔
        i ≤ j ∧ j ≤ u.byteLength ∧ u.IsBoundary i ∧ u.IsBoundary j) ∧
      ∀ (top : Bool) (input : Text) (cursor : Nat), input.IsBoundary cursor →
        ∃ r, round top input cursor = checked r ∧ ∀ a, r = .ok a →
          a.Onward input cursor ∧ ∀ next, a.next? = some next → input.IsBoundary next :=
  ⟨(agrees_parseStylesheet t).exists_eq, (agrees_parseDeclarations t).exists_eq,
    fun _ _ _ => exists_slice_iff, fun top _ _ h => exists_round top h⟩

/-- A backslash before a character of two bytes, separators inside parentheses, and a backslash at
the end. -/
def brokenText : Text := "a\\é:(;);c:d\\".toList

/-- The sample is two declarations, although a search over it stands inside a character at offset 3
and behind the end of the text at its last backslash. -/
theorem every_slice_succeeds_brokenText :
    parseStylesheet brokenText = checked (.error (.strayDeclaration "a\\é:(;)".toList)) ∧
      parseDeclarations brokenText = checked (.ok
        [⟨"a\\é".toList, "(;)".toList, false⟩, ⟨"c".toList, "d\\".toList, false⟩]) ∧
      ¬brokenText.IsBoundary 3 ∧ ∃ r, round false brokenText 0 = checked r := by
  obtain ⟨⟨r, hsheet, hr⟩, ⟨r', hlist, hr'⟩, hslice, hround⟩ := every_slice_succeeds brokenText
  have hstart : brokenText.IsBoundary 0 := ⟨[], brokenText, rfl, rfl⟩
  refine ⟨?_, ?_, fun hinside => ?_, ?_⟩
  · rw [hsheet, hr (by decide)]
    exact congrArg checked (by decide +kernel)
  · rw [hlist, hr' (by decide)]
    exact congrArg checked (by decide +kernel)
  · obtain ⟨part, hpart⟩ := (hslice brokenText 0 3).2 ⟨by decide, by decide, hstart, hinside⟩
    have hnone : Text.slice? brokenText 0 3 = none := by decide
    cases hnone.symm.trans (slice_eq_pure_iff.1 hpart)
  · obtain ⟨r, hr, -⟩ := hround false brokenText 0 hstart
    exact ⟨r, hr⟩

end Offset

end Css

end PrettyPayload
