import PrettyPayload.Xml.Token

/-!
# Lexing content

`content?` cuts the content of an element or of an entity into tokens. It ends with the text, or
with an end tag for which there is no start tag in it: the end tag of the element in the first
case, and in an entity one of an element around the reference. What follows such an end tag is
left to the caller.
-/

namespace PrettyPayload

namespace Xml

/-! ## Tags -/

/-- The attributes of a start tag and its end, from behind the name. White space stands before
each attribute. -/
def attributes? : Text → Option ((List (Name × Text) × TagEnd) × Text)
  | [] => some (([], .missing), [])
  | c :: u =>
    match _s : skipSpaces (c :: u) with
    | '/' :: '>' :: rest => some (([], .empty), rest)
    | '>' :: rest => some (([], .content), rest)
    | v =>
      if isSpace c then
        match _h : attribute? v with
        | some (a, rest) =>
          (attributes? rest).map fun ((more, tagEnd), rest) => ((a :: more, tagEnd), rest)
        | none => none
      else none
termination_by t => t.length
decreasing_by
  have := length_skipSpaces_le (c :: u)
  have := length_of_attribute? _h
  simp_all only [List.length_cons]
  omega

theorem length_of_attributes? {t rest : Text} {found : List (Name × Text) × TagEnd}
    (h : attributes? t = some (found, rest)) : rest.length ≤ t.length := by
  fun_induction attributes? t generalizing found with
  | case1 => simp_all
  | case2 c u r hs =>
    have := length_skipSpaces_le (c :: u)
    rw [hs] at this
    simp_all; omega
  | case3 c u r hs =>
    have := length_skipSpaces_le (c :: u)
    rw [hs] at this
    simp_all; omega
  | case4 c u _ _ _ a r ha ih =>
    obtain ⟨⟨more, r'⟩, hm, he⟩ := Option.map_eq_some_iff.1 h
    obtain ⟨-, rfl⟩ := Prod.mk.inj he
    have := length_skipSpaces_le (c :: u)
    have := length_of_attribute? ha
    have := ih hm
    omega
  | case5 => cases h
  | case6 => cases h

/-- A start tag, from behind its opening mark, and what follows it. No element may be named as
declarations of namespaces are. -/
def startTag? (t : Text) : Option (Token × Text) := do
  let (name, t) ← qualifiedName? t
  if name.qualifier = "xmlns".toList then none
  else
    let ((attributes, tagEnd), t) ← attributes? t
    return (.startTag name attributes tagEnd, t)

def endTag? (t : Text) : Option (Token × Text) := do
  let (name, t) ← qualifiedName? t
  let t ← Text.dropPrefix? ['>'] (skipSpaces t)
  return (.endTag name, t)

theorem length_of_startTag? {t rest : Text} {token : Token}
    (h : startTag? t = some (token, rest)) : rest.length ≤ t.length := by
  simp only [startTag?, Option.bind_eq_bind, Option.bind_eq_some_iff, Prod.exists] at h
  obtain ⟨name, t₁, h₁, h⟩ := h
  split at h
  · cases h
  · simp only [Option.bind_eq_some_iff, Prod.exists, Option.pure_def, Option.some.injEq,
      Prod.mk.injEq] at h
    obtain ⟨as, e, t₂, h₂, -, rfl⟩ := h
    have := length_of_qualifiedName? h₁
    have := length_of_attributes? h₂
    omega

theorem length_of_endTag? {t rest : Text} {token : Token}
    (h : endTag? t = some (token, rest)) : rest.length ≤ t.length := by
  simp only [endTag?, Option.bind_eq_bind, Option.bind_eq_some_iff, Prod.exists, Option.pure_def,
    Option.some.injEq, Prod.mk.injEq] at h
  obtain ⟨name, t₁, h₁, t₂, h₂, -, rfl⟩ := h
  have := length_of_qualifiedName? h₁
  have := length_skipSpaces_le t₁
  have := length_of_dropPrefix? h₂
  omega

/-! ## Texts -/

/-- The tokens of a text: its stretches, as far as there is something in them, and its entities. -/
def textTokens (inEntity : Bool) (pieces : List Piece) : List Token :=
  let (first, more) := stretches inEntity pieces
  let stretch (final : Bool) (chars : List (Char × Bool)) : List Token :=
    match settle final chars with
    | [] => []
    | t => [.characters t]
  let rec tokens : List (Text × List (Char × Bool)) → List Token
    | [] => []
    | (name, chars) :: rest => .entity name :: stretch rest.isEmpty chars ++ tokens rest
  stretch more.isEmpty first ++ tokens more

def text? (inEntity : Bool) (t : Text) : Option (List Token × Text) :=
  let written := t.takeWhile (· ≠ '<')
  if written.all isAllowed ∧ (Text.breakAt? "]]>".toList written).isNone then
    (pieces? written).map fun pieces => (textTokens inEntity pieces, t.dropWhile (· ≠ '<'))
  else none

/-- Character data without references, from behind the mark that opens it, and what follows it. -/
def plainData? (t : Text) : Option (Token × Text) :=
  (upTo? "]]>".toList t).map fun (data, rest) =>
    (.characters (settle true (data.map fun c => (c, false))), rest)

theorem length_of_text? {inEntity : Bool} {c : Char} {t rest : Text} {tokens : List Token}
    (hc : c ≠ '<') (h : text? inEntity (c :: t) = some (tokens, rest)) :
    rest.length ≤ t.length := by
  simp only [text?] at h
  split at h
  · obtain ⟨pieces, -, he⟩ := Option.map_eq_some_iff.1 h
    obtain ⟨-, rfl⟩ := Prod.mk.inj he
    simpa [hc] using length_dropWhile_le (fun c => decide (c ≠ '<')) t
  · cases h

theorem length_of_plainData? {t rest : Text} {token : Token}
    (h : plainData? t = some (token, rest)) : rest.length ≤ t.length := by
  obtain ⟨⟨data, r⟩, hu, he⟩ := Option.map_eq_some_iff.1 h
  obtain ⟨-, rfl⟩ := Prod.mk.inj he
  exact length_of_upTo? hu

/-! ## Content -/

/-- A mark of the content, from behind the bracket that opens it, and what follows it. -/
def markup? (t : Text) : Option (Token × Text) :=
  match t with
  | '!' :: u =>
    match Text.dropPrefix? "--".toList u with
    | some v => (comment? v).map fun (comment, rest) => (.comment comment, rest)
    | none => (Text.dropPrefix? "[CDATA[".toList u).bind plainData?
  | '?' :: _ =>
    (instruction? ('<' :: t)).map fun ((target, data), rest) => (.instruction target data, rest)
  | '/' :: u => endTag? u
  | _ => startTag? t

theorem length_of_markup? {t rest : Text} {token : Token}
    (h : markup? t = some (token, rest)) : rest.length ≤ t.length := by
  unfold markup? at h
  split at h
  next u =>
    split at h
    next v hv =>
      obtain ⟨⟨comment, r⟩, hc, he⟩ := Option.map_eq_some_iff.1 h
      obtain ⟨-, rfl⟩ := Prod.mk.inj he
      have := length_of_dropPrefix? hv
      have := length_of_comment? hc
      simp only [List.length_cons]; omega
    next =>
      obtain ⟨v, hv, hp⟩ := Option.bind_eq_some_iff.1 h
      have := length_of_dropPrefix? hv
      have := length_of_plainData? hp
      simp only [List.length_cons]; omega
  next u =>
    obtain ⟨⟨i, r⟩, hi, he⟩ := Option.map_eq_some_iff.1 h
    obtain ⟨-, rfl⟩ := Prod.mk.inj he
    have := length_of_instruction? hi
    simp only [List.length_cons] at this ⊢; omega
  next u =>
    have := length_of_endTag? h
    simp only [List.length_cons]; omega
  next => exact length_of_startTag? h

def next? (inEntity : Bool) (c : Char) (t : Text) : Option (List Token × Text) :=
  if c = '<' then (markup? t).map fun (token, rest) => ([token], rest)
  else text? inEntity (c :: t)

theorem length_of_next? {inEntity : Bool} {c : Char} {t rest : Text} {tokens : List Token}
    (h : next? inEntity c t = some (tokens, rest)) : rest.length ≤ t.length := by
  unfold next? at h
  split at h
  · obtain ⟨⟨token, r⟩, hm, he⟩ := Option.map_eq_some_iff.1 h
    obtain ⟨-, rfl⟩ := Prod.mk.inj he
    exact length_of_markup? hm
  next hc => exact length_of_text? hc h

/-- The number of elements that are open after a token; none where the last of those counted was
open before them. -/
def Token.levelAfter? (level : Nat) : Token → Option Nat
  | .startTag _ _ .content => some (level + 1)
  | .endTag _ => if level = 0 then none else some (level - 1)
  | _ => some level

def levelAfter? (level : Nat) (tokens : List Token) : Option Nat :=
  tokens.foldlM Token.levelAfter? level

def content? (inEntity : Bool) (level : Nat) (t : Text) : Option (List Token × Text) :=
  match t with
  | [] => some ([], [])
  | c :: u =>
    match _h : next? inEntity c u with
    | none => none
    | some (tokens, rest) =>
      match levelAfter? level tokens with
      | none => some (tokens, rest)
      | some level =>
        (content? inEntity level rest).map fun (more, rest) => (tokens ++ more, rest)
termination_by t.length
decreasing_by
  have := length_of_next? _h
  simp only [List.length_cons]; omega

def element? (t : Text) : Option (List Token × Text) := do
  let t ← Text.dropPrefix? ['<'] t
  let (tag, t) ← startTag? t
  match tag with
  | .startTag _ _ .content => (content? false 0 t).map fun (more, rest) => (tag :: more, rest)
  | _ => some ([tag], t)

end Xml

end PrettyPayload
