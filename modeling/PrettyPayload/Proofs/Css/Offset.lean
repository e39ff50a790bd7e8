import PrettyPayload.Css.Reader
import PrettyPayload.Proofs.Text.Slice

/-!
# Reading a stylesheet by byte offsets

`readItems` and its helpers cut a text into the texts before and behind a place. Over a text that is
held as UTF-8 the same reader works on one text and moves an offset through it: a search goes over
bytes and steps over two of them at a backslash, and what it finds is cut out with `slice`. This
module writes that reader down. A slice at a bad offset has no result, and then neither has the
reading that asked for it, so that a reading with a result has sliced nowhere else.

The two depths of a search and the depth of a block are counters of 32 bits, which start again at
zero behind their greatest value.

A round of the loop over the items of a block (`round`) leaves the offset at which the next one
starts. `lt_of_round` says that it is further on and that a block body is shorter than the text
around it, which is why `readItems` ends.
-/

namespace PrettyPayload

namespace Css

namespace Offset

variable {α β σ : Type}

/-! ## Readings that slice -/

/-- A reading that can refuse its text, and that has no result at all where a slice fails. -/
abbrev Checked (α : Type) := ExceptT Error Option α

/-- A reading whose slices have all succeeded. -/
def checked (r : Except Error α) : Checked α := ExceptT.mk (some r)

def slice (t : Text) (start stop : Nat) : Checked Text := ExceptT.lift (Text.slice? t start stop)

/-- The words of a text as they are quoted, cut in front of the character that is one too many. -/
def excerpt (t : Text) : Checked Text :=
  let collapsed := Text.joinWith [' '] (Text.words t)
  match (Text.charIndices collapsed)[40]? with
  | some (cut, _) => do
    let kept ← slice collapsed 0 cut
    return kept ++ ['.', '.', '.']
  | none => return collapsed

def refuse (fault : Text → Error) (t : Text) : Checked α := do
  let near ← excerpt t
  throw (fault near)

/-! ## Searches -/

/-- The first byte that counts from an offset on, and its offset. A byte inside a literal or behind
a backslash is passed over; every other one is shown to `visit`, which has no result where the
search ends. -/
def seek (visit : σ → Char → Option σ) (input : Text) (i : Nat) (quote : Option Char) (s : σ) :
    Option (Nat × Char) :=
  match _here : Text.byteAt? input i with
  | none => none
  | some b =>
    match quote with
    | some q =>
      if b = '\\' then seek visit input (i + 2) (some q) s
      else seek visit input (i + 1) (if b = q then none else some q) s
    | none =>
      if isQuote b then seek visit input (i + 1) (some b) s
      else if b = '\\' then seek visit input (i + 2) none s
      else
        match visit s b with
        | none => some (i, b)
        | some s => seek visit input (i + 1) none s
termination_by input.byteLength - i
decreasing_by all_goals have := Text.lt_of_byteAt? _here; omega

structure Depths where
  parens : UInt32
  brackets : UInt32

def less (n : UInt32) : UInt32 := if n = 0 then 0 else n - 1

def Depths.visit (stops : Char → Bool) (k : Depths) (b : Char) : Option Depths :=
  match b with
  | '(' => some ⟨k.parens + 1, k.brackets⟩
  | ')' => some ⟨less k.parens, k.brackets⟩
  | '[' => some ⟨k.parens, k.brackets + 1⟩
  | ']' => some ⟨k.parens, less k.brackets⟩
  | _ => if k.parens = 0 && k.brackets = 0 && stops b then none else some k

def findTop (input : Text) (start : Nat) (stops : Char → Bool) : Option (Nat × Char) :=
  seek (Depths.visit stops) input start none ⟨0, 0⟩

/-- One more byte of a search for the end of a block; `depth` blocks are open. -/
def visitBlock (depth : UInt32) (b : Char) : Option UInt32 :=
  match b with
  | '{' => some (depth + 1)
  | '}' => if depth - 1 = 0 then none else some (depth - 1)
  | _ => some depth

/-- The offset of the brace that closes the block whose opening brace is at `brace`. -/
def findClose (input : Text) (brace : Nat) : Option Nat :=
  (seek visitBlock input (brace + 1) none 1).map Prod.fst

/-- What a search finds is a byte of the text, and not in front of where the search starts. -/
theorem bounds_of_seek {visit : σ → Char → Option σ} {input : Text} {i j : Nat}
    {quote : Option Char} {s : σ} {b : Char} (h : seek visit input i quote s = some (j, b)) :
    i ≤ j ∧ j < input.byteLength := by
  fun_induction seek visit input i quote s with
  | case1 => cases h
  | case2 i s q _ ih => have := ih h; omega
  | case3 i s b hb q _ ih => have := ih h; omega
  | case4 i s b hb _ ih => have := ih h; omega
  | case5 i s _ _ ih => have := ih h; omega
  | case6 i s b hb hquote hslash hvisit =>
    obtain ⟨rfl, rfl⟩ := Prod.mk.inj (Option.some.inj h)
    exact ⟨Nat.le_refl _, Text.lt_of_byteAt? hb⟩
  | case7 i s b hb _ _ s' _ ih => have := ih h; omega

theorem bounds_of_findTop {input : Text} {start i : Nat} {stops : Char → Bool} {b : Char}
    (h : findTop input start stops = some (i, b)) : start ≤ i ∧ i < input.byteLength :=
  bounds_of_seek h

theorem bounds_of_findClose {input : Text} {brace i : Nat} (h : findClose input brace = some i) :
    brace < i ∧ i < input.byteLength := by
  obtain ⟨⟨j, b⟩, hseek, rfl⟩ := Option.map_eq_some_iff.1 h
  exact bounds_of_seek hseek

def splitTop (separator : Char) (input : Text) (start : Nat) : Checked (List Text) :=
  match _cut : findTop input start (· = separator) with
  | none => do
    let part ← slice input start input.byteLength
    return [part]
  | some (i, _) => do
    let part ← slice input start i
    let parts ← splitTop separator input (i + 1)
    return part :: parts
termination_by input.byteLength - start
decreasing_by have := bounds_of_findTop _cut; omega

/-! ## Comments -/

/-- Comment removal behind the character `last` of the result, for a rest of `input`. -/
def stripFrom (input : Text) (last : Option Char) : Text → Checked Text
  | [] => return []
  | c :: t =>
    if c = '/' ∧ t.head? = some '*' then
      match _comment : skipComment t.tail with
      | none => throw .unterminatedComment
      | some rest =>
        if fuses last rest.head? then (' ' :: ·) <$> stripFrom input (some ' ') rest
        else stripFrom input last rest
    else if isQuote c then
      match _literal : takeLiteral c t with
      | none => do
        let start := input.byteLength - Text.byteLength (c :: t)
        let unread ← slice input start input.byteLength
        refuse .unterminatedString unread
      | some (literal, rest) => (c :: literal ++ ·) <$> stripFrom input (some c) rest
    else (c :: ·) <$> stripFrom input (some c) t
termination_by t => t.length
decreasing_by
  · have := length_skipComment_le _comment; simp at this ⊢; omega
  · have := length_skipComment_le _comment; simp at this ⊢; omega
  · have := takeLiteral_eq_some _literal
    rw [this]
    simp only [List.length_cons, List.length_append]; omega
  · simp

def stripComments (t : Text) : Checked Text := stripFrom t none t

/-! ## Declarations, heads and statements -/

/-- A value without `!important` at its end, and whether it was there. The mark is looked for in
small letters, and the value is cut where it starts there. -/
def splitImportant (value : Text) : Checked (Text × Bool) :=
  let trimmed := Text.trimEnd Text.isBlank value
  match Text.dropSuffix? "important".toList (Text.lower trimmed) with
  | none => return (trimmed, false)
  | some head =>
    match Text.dropSuffix? ['!'] (Text.trimEnd Text.isBlank head) with
    | none => return (trimmed, false)
    | some bare => do
      let kept ← slice trimmed 0 bare.byteLength
      return (Text.trimEnd Text.isBlank kept, true)

def readDeclaration (t : Text) : Checked Declaration :=
  let trimmed := Text.trim Text.isBlank t
  match findTop trimmed 0 (· = ':') with
  | none => refuse .missingColon trimmed
  | some (colon, _) => do
    let before ← slice trimmed 0 colon
    let property := collapse before
    if property = [] then refuse .emptyProperty trimmed
    else
      let after ← slice trimmed (colon + 1) trimmed.byteLength
      let (value, important) ← splitImportant (collapse after)
      return ⟨property, value, important⟩

def splitAtName (t : Text) : Checked (Text × Text) := do
  let behind := (Text.charIndices t).find? fun entry => !isNameChar entry.2
  let stop := (behind.map Prod.fst).getD t.byteLength
  let name ← slice t 0 stop
  let prelude ← slice t stop t.byteLength
  return (name, Text.trim Text.isBlank prelude)

def readSelectors (prelude : Text) : Checked (List Text) := do
  let parts ← splitTop ',' prelude 0
  parts.mapM fun part =>
    let selector := Text.trim Text.isBlank part
    if selector = [] then refuse .missingSelector prelude else return selector

def readHead (before body : Text) : Checked Head :=
  let prelude := collapse before
  if prelude = [] then refuse .missingSelector body
  else
    match Text.dropPrefix? ['@'] prelude with
    | some rest => do
      let (name, atPrelude) ← splitAtName rest
      if name = [] then refuse .missingSelector prelude
      else return .atRule name atPrelude
    | none => Head.style <$> readSelectors prelude

def readStatement (top : Bool) (t : Text) : Checked Item :=
  let trimmed := Text.trim Text.isBlank t
  let asDeclaration : Checked Item :=
    if top then refuse .strayDeclaration trimmed
    else Item.declaration <$> readDeclaration trimmed
  match Text.dropPrefix? ['@'] trimmed with
  | some rest => do
    let (name, prelude) ← splitAtName (collapse rest)
    if name = [] then asDeclaration else return .statement name prelude
  | none => asDeclaration

/-! ## Items -/

def skip (top : Bool) (input : Text) (i : Nat) : Checked Nat :=
  match _here : Text.byteAt? input i with
  | none => return i
  | some b =>
    if Text.isAsciiBlank b || b = ';' then skip top input (i + 1)
    else if top then do
      let rest ← slice input i input.byteLength
      if Text.startsWith "<!--".toList rest then skip top input (i + 4)
      else if Text.startsWith "-->".toList rest then skip top input (i + 3)
      else return i
    else return i
termination_by input.byteLength - i
decreasing_by all_goals have := Text.lt_of_byteAt? _here; omega

/-- What one round of the loop over the items finds, and where the next round starts: nothing more,
a statement, or a block, whose body is still to be read. -/
inductive Round (ι : Type) where
  | finished
  | statement (item : Item) (next : ι)
  | block (head : Head) (body : Text) (next : ι)

def statementAt (top : Bool) (input : Text) (start stop next : Nat) : Checked (Round Nat) := do
  let text ← slice input start stop
  let item ← readStatement top text
  return .statement item next

def blockAt (input : Text) (start brace : Nat) : Checked (Round Nat) := do
  match findClose input brace with
  | none =>
    let before ← slice input start brace
    refuse .unclosedBlock before
  | some close =>
    let before ← slice input start brace
    let body ← slice input (brace + 1) close
    let head ← readHead before body
    return .block head body (close + 1)

def round (top : Bool) (input : Text) (cursor : Nat) : Checked (Round Nat) := do
  let start ← skip top input cursor
  if input.byteLength ≤ start then return .finished
  else
    match findTop input start endsItem with
    | none => statementAt top input start input.byteLength input.byteLength
    | some (stop, b) =>
      if b = '}' then
        let near ← slice input start (stop + 1)
        refuse .unexpectedCloseBrace near
      else if b = '{' then blockAt input start stop
      else statementAt top input start stop (stop + 1)

/-- A reading with a result goes through a first step with a result. -/
theorem exists_of_bind_eq_pure {x : Checked α} {f : α → Checked β} {b : β}
    (h : x >>= f = pure b) : ∃ a, x = pure a ∧ f a = pure b := by
  match x, h with
  | some (.ok a), h => exact ⟨a, rfl, h⟩
  | some (.error e), h => cases h
  | none, h => cases h

theorem refuse_ne_pure {fault : Text → Error} {t : Text} {a : α} : refuse fault t ≠ pure a := by
  intro h
  obtain ⟨near, -, hthrow⟩ := exists_of_bind_eq_pure h
  cases hthrow

theorem slice_eq_pure_iff {t part : Text} {i j : Nat} :
    slice t i j = pure part ↔ Text.slice? t i j = some part := by
  rw [slice]
  cases Text.slice? t i j with
  | none => exact ⟨nofun, nofun⟩
  | some p => exact ⟨fun h => congrArg some (Except.ok.inj (Option.some.inj h)), fun h => h ▸ rfl⟩

theorem byteLength_of_slice {t part : Text} {i j : Nat} (h : slice t i j = pure part) :
    i + part.byteLength = j := by
  obtain ⟨front, back, -, rfl, hj⟩ := Text.slice?_eq_some_iff.1 (slice_eq_pure_iff.1 h)
  exact hj

theorem le_of_skip {top : Bool} {input : Text} {i j : Nat} (h : skip top input i = pure j) :
    i ≤ j := by
  fun_induction skip top input i with
  | case1 i hb => cases h; exact Nat.le_refl _
  | case2 i b hb hblank ih => exact Nat.le_of_succ_le (ih h)
  | case3 i b hb hblank htop ihOpen ihClose =>
    obtain ⟨rest, -, hskip⟩ := exists_of_bind_eq_pure h
    split at hskip
    · exact Nat.le_trans (Nat.le_add_right _ _) (ihOpen hskip)
    · split at hskip
      · exact Nat.le_trans (Nat.le_add_right _ _) (ihClose hskip)
      · cases hskip; exact Nat.le_refl _
  | case4 i b hb hblank htop => cases h; exact Nat.le_refl _

/-- What a round leaves to be read: the next round starts further on, not behind the end of the
text, and the body of a block is shorter than the text. -/
def Round.Onward (input : Text) (cursor : Nat) : Round Nat → Prop
  | finished => True
  | statement _ next => cursor < next ∧ next ≤ input.byteLength
  | block _ body next =>
    cursor < next ∧ next ≤ input.byteLength ∧ body.byteLength < input.byteLength

theorem onward_of_statementAt {top : Bool} {input : Text} {cursor start stop next : Nat}
    {r : Round Nat} (h : statementAt top input start stop next = pure r) (hnext : cursor < next)
    (hend : next ≤ input.byteLength) : r.Onward input cursor := by
  obtain ⟨text, -, h⟩ := exists_of_bind_eq_pure h
  obtain ⟨item, -, h⟩ := exists_of_bind_eq_pure h
  cases h
  exact ⟨hnext, hend⟩

theorem onward_of_blockAt {input : Text} {cursor start brace : Nat} {r : Round Nat}
    (h : blockAt input start brace = pure r) (hbrace : cursor ≤ brace) : r.Onward input cursor := by
  rw [blockAt] at h
  split at h
  · obtain ⟨before, -, h⟩ := exists_of_bind_eq_pure h
    exact absurd h refuse_ne_pure
  next close hclose =>
    obtain ⟨before, -, h⟩ := exists_of_bind_eq_pure h
    obtain ⟨body, hbody, h⟩ := exists_of_bind_eq_pure h
    obtain ⟨head, -, h⟩ := exists_of_bind_eq_pure h
    cases h
    have hbounds := bounds_of_findClose hclose
    have hlength := byteLength_of_slice hbody
    exact ⟨by omega, by omega, by omega⟩

theorem onward_of_round {top : Bool} {input : Text} {cursor : Nat} {r : Round Nat}
    (h : round top input cursor = pure r) : r.Onward input cursor := by
  obtain ⟨start, hskip, h⟩ := exists_of_bind_eq_pure h
  have hstart := le_of_skip hskip
  split at h
  · cases h; trivial
  split at h
  · exact onward_of_statementAt h (by omega) (Nat.le_refl _)
  next stop b hfind =>
    obtain ⟨hstop, hend⟩ := bounds_of_findTop hfind
    split at h
    · obtain ⟨near, -, h⟩ := exists_of_bind_eq_pure h
      exact absurd h refuse_ne_pure
    split at h
    · exact onward_of_blockAt h (Nat.le_trans hstart hstop)
    · exact onward_of_statementAt h (by omega) (by omega)

def readItems (top : Bool) (input : Text) (cursor : Nat) : Checked (List Item) :=
  match _here : round top input cursor with
  | none => none
  | some (.error fault) => throw fault
  | some (.ok .finished) => return []
  | some (.ok (.statement item next)) => do
    let more ← readItems top input next
    return item :: more
  | some (.ok (.block head body next)) => do
    let items ← readItems false body 0
    let more ← readItems top input next
    return .block head items :: more
termination_by (input.byteLength, input.byteLength - cursor)
decreasing_by
  all_goals have honward := onward_of_round _here
  · obtain ⟨hnext, hend⟩ := honward
    exact Prod.Lex.right _ (by omega)
  · exact Prod.Lex.left _ _ honward.2.2
  · obtain ⟨hnext, hend, -⟩ := honward
    exact Prod.Lex.right _ (by omega)

def parseStylesheet (source : Text) : Checked Stylesheet := do
  let text ← stripComments source
  let items ← readItems true text 0
  return Stylesheet.ofItems items

def parseDeclarations (source : Text) : Checked (List Declaration) := do
  let text ← stripComments source
  let parts ← splitTop ';' text 0
  (parts.filter fun part => Text.trim Text.isBlank part ≠ []).mapM readDeclaration

end Offset

end Css

end PrettyPayload
