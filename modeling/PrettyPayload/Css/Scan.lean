import PrettyPayload.Text.Basic

/-!
# Finding separators in a stylesheet

A separator counts only where it is not part of something larger: outside string literals, not
escaped by a backslash, and outside parentheses and brackets. `Quoting` is the state of a scan
relative to literals and escapes, `Nesting` adds the two depths, and each changes by one character
at a time, so the state after a text is a fold over it.

`breakAt` cuts a text at the first separator that counts, `splitAtTop` at all of them, and
`closeBlock` cuts it at the brace that closes a block. `breakAt_eq_some` and `closeBlock_eq_some`
say that nothing is lost: the parts and the separator make up the text.
-/

namespace PrettyPayload

namespace Css

/-! ## Literals and escapes -/

def isQuote (c : Char) : Bool := c = '"' || c = '\''

/-- Where a scan stands: in which string literal, and right behind a backslash or not. -/
structure Quoting where
  quote : Option Char
  escaped : Bool
  deriving DecidableEq, Repr

namespace Quoting

def start : Quoting := ⟨none, false⟩

def isPlain (k : Quoting) : Bool := k.quote.isNone && !k.escaped

/-- The state behind one more character. A backslash hides the character after it, inside a
literal and outside. -/
def step (k : Quoting) (c : Char) : Quoting :=
  if k.escaped then { k with escaped := false }
  else if c = '\\' then { k with escaped := true }
  else
    match k.quote with
    | some q => if c = q then start else k
    | none => if isQuote c then ⟨some c, false⟩ else k

end Quoting

/-! ## Parentheses and brackets -/

/-- The state of a scan together with the number of open parentheses and brackets. -/
structure Nesting where
  quoting : Quoting
  parens : Nat
  brackets : Nat
  deriving DecidableEq, Repr

namespace Nesting

def start : Nesting := ⟨Quoting.start, 0, 0⟩

def isTop (k : Nesting) : Bool := k.quoting.isPlain && k.parens = 0 && k.brackets = 0

/-- The state behind one more character. A closing mark without an opening one changes nothing. -/
def step (k : Nesting) (c : Char) : Nesting :=
  let quoting := k.quoting.step c
  if k.quoting.isPlain then
    match c with
    | '(' => ⟨quoting, k.parens + 1, k.brackets⟩
    | ')' => ⟨quoting, k.parens - 1, k.brackets⟩
    | '[' => ⟨quoting, k.parens, k.brackets + 1⟩
    | ']' => ⟨quoting, k.parens, k.brackets - 1⟩
    | _ => ⟨quoting, k.parens, k.brackets⟩
  else ⟨quoting, k.parens, k.brackets⟩

theorem eq_start_of_isTop {k : Nesting} (h : k.isTop = true) : k = start := by
  obtain ⟨⟨q, e⟩, p, b⟩ := k
  cases q <;> cases e <;> simp_all [isTop, Quoting.isPlain, start, Quoting.start]

end Nesting

/-! ## Cutting at a separator -/

/-- The text before the first separator that counts, the separator, and what follows it. -/
def breakAt (stops : Char → Bool) : Nesting → Text → Option (Text × Char × Text)
  | _, [] => none
  | k, c :: t =>
    if k.isTop && stops c then some ([], c, t)
    else (breakAt stops (k.step c) t).map fun (before, d, after) => (c :: before, d, after)

theorem breakAt_eq_some {stops : Char → Bool} {k : Nesting} {t before after : Text} {d : Char}
    (h : breakAt stops k t = some (before, d, after)) :
    t = before ++ d :: after ∧ stops d = true := by
  induction t generalizing k before with
  | nil => simp [breakAt] at h
  | cons c t ih =>
    rw [breakAt] at h
    split at h
    next hc => simp_all
    next =>
      obtain ⟨⟨b, e, a⟩, hb, he⟩ := Option.map_eq_some_iff.1 h
      simp only [Prod.mk.injEq] at he
      obtain ⟨rfl, rfl, rfl⟩ := he
      obtain ⟨rfl, hd⟩ := ih hb
      exact ⟨rfl, hd⟩

theorem length_of_breakAt {stops : Char → Bool} {k : Nesting} {t before after : Text} {d : Char}
    (h : breakAt stops k t = some (before, d, after)) :
    t.length = before.length + after.length + 1 := by
  simp [(breakAt_eq_some h).1, Nat.add_assoc]

/-- The parts of a text between the occurrences of a separator that count. -/
def splitAtTop (separator : Char) (t : Text) : List Text :=
  match _cut : breakAt (· = separator) Nesting.start t with
  | none => [t]
  | some (before, _, after) => before :: splitAtTop separator after
termination_by t.length
decreasing_by have := length_of_breakAt _cut; omega

/-! ## Cutting at the end of a block -/

/-- The body of a block whose opening brace was just read and what follows its closing brace;
`depth` more blocks are open inside it. -/
def closeBlock : Quoting → (depth : Nat) → Text → Option (Text × Text)
  | _, _, [] => none
  | k, depth, c :: t =>
    if k.isPlain && c = '}' then
      match depth with
      | 0 => some ([], t)
      | d + 1 => (closeBlock (k.step c) d t).map fun (body, rest) => (c :: body, rest)
    else
      (closeBlock (k.step c) (if k.isPlain && c = '{' then depth + 1 else depth) t).map
        fun (body, rest) => (c :: body, rest)

theorem closeBlock_eq_some {k : Quoting} {depth : Nat} {t body rest : Text}
    (h : closeBlock k depth t = some (body, rest)) : t = body ++ '}' :: rest := by
  induction t generalizing k depth body with
  | nil => simp [closeBlock] at h
  | cons c t ih =>
    have onward {k : Quoting} {d : Nat}
        (h : (closeBlock k d t).map (fun (b, r) => (c :: b, r)) = some (body, rest)) :
        c :: t = body ++ '}' :: rest := by
      obtain ⟨⟨b, r⟩, hb, he⟩ := Option.map_eq_some_iff.1 h
      simp only [Prod.mk.injEq] at he
      obtain ⟨rfl, rfl⟩ := he
      rw [ih hb, List.cons_append]
    by_cases hc : (k.isPlain && c = '}') = true
    · cases depth with
      | zero => simp [closeBlock, hc] at h; simp_all
      | succ d => rw [closeBlock, if_pos hc] at h; exact onward h
    · cases depth <;> (rw [closeBlock, if_neg hc] at h; exact onward h)

theorem length_of_closeBlock {k : Quoting} {depth : Nat} {t body rest : Text}
    (h : closeBlock k depth t = some (body, rest)) :
    t.length = body.length + rest.length + 1 := by
  simp [closeBlock_eq_some h, Nat.add_assoc]

end Css

end PrettyPayload
