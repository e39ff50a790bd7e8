import PrettyPayload.Xml.Name
import PrettyPayload.Xml.Reference

/-!
# Tokens of XML

The content of an element, or of an entity, is a sequence of tags, texts, references to entities,
comments and instructions. This module reads the words that these are made of: names, quoted
literals, attributes, comments and instructions. Each reader takes a text and gives what it read
together with the rest, and is paired with a bound on the length of that rest.
-/

namespace PrettyPayload

namespace Xml

inductive TagEnd where
  /-- Content follows. -/
  | content
  /-- The element is empty. -/
  | empty
  /-- The text ends within the tag, which can happen in an entity. -/
  | missing
  deriving DecidableEq, Repr

inductive Token where
  | startTag (name : Name) (attributes : List (Name × Text)) (tagEnd : TagEnd)
  | endTag (name : Name)
  /-- Character data with its references to characters replaced. -/
  | characters (t : Text)
  | entity (name : Text)
  | comment (t : Text)
  | instruction (target data : Text)
  deriving DecidableEq, Repr

/-! ## Words of the grammar -/

def skipSpaces (t : Text) : Text := t.dropWhile isSpace

def spaces? : Text → Option Text
  | [] => none
  | c :: t => if isSpace c then some (skipSpaces t) else none

/-- What stands before a mark, which has to come and to have only allowed characters before it, and
what follows the mark. -/
def upTo? (mark t : Text) : Option (Text × Text) :=
  match Text.breakAt? mark t with
  | some (before, rest) => if before.all isAllowed then some (before, rest) else none
  | none => none

def Name.ofWritten (written : Text) : Name :=
  match Text.breakAt? [':'] written with
  | some (qualifier, localName) => ⟨qualifier, localName⟩
  | none => ⟨[], written⟩

/-- Whether both parts of a name start as names do and there is no second colon. -/
def Name.isProper (name : Name) : Bool :=
  name.qualifier.head?.all isNameStart && name.localName.head?.any isNameStart &&
    !name.localName.contains ':'

def qualifiedName? (t : Text) : Option (Name × Text) :=
  if (Name.ofWritten (t.takeWhile isNameChar)).isProper then
    some (Name.ofWritten (t.takeWhile isNameChar), t.dropWhile isNameChar)
  else none

/-- A quoted literal at the start of a text, of characters of a class, and what follows it. -/
def quotedWith? (p : Char → Bool) (t : Text) : Option (Text × Text) :=
  match t with
  | [] => none
  | q :: t =>
    if q = '"' ∨ q = '\'' then
      match t.dropWhile fun c => c ≠ q && p c with
      | c :: rest => if c = q then some (t.takeWhile fun c => c ≠ q && p c, rest) else none
      | [] => none
    else none

def quoted? (t : Text) : Option (Text × Text) := quotedWith? (fun _ => true) t

def attribute? (t : Text) : Option ((Name × Text) × Text) := do
  let (name, t) ← qualifiedName? t
  let t ← Text.dropPrefix? ['='] (skipSpaces t)
  let (value, t) ← quotedWith? (fun c => c ≠ '<' && isAllowed c) (skipSpaces t)
  return ((name, value), t)

def comment? (t : Text) : Option (Text × Text) := do
  let (comment, rest) ← upTo? "-->".toList t
  if (Text.breakAt? "--".toList comment).isSome ∨ comment.getLast? = some '-' then none
  else some (comment, rest)

/-- An instruction, from its opening mark on: its target, its data and what follows. Something that
looks like the declaration of a document is none. -/
def instruction? (t : Text) : Option ((Text × Text) × Text) := do
  if Text.startsWith "<?xml ".toList t then none
  else
    let t ← Text.dropPrefix? "<?".toList t
    let (target, t) ← name? t
    let (data, t) ← upTo? "?>".toList (skipSpaces t)
    return ((target, data), t)

/-! ## What is read is not read again -/

theorem length_of_dropPrefix? {p t rest : Text} (h : Text.dropPrefix? p t = some rest) :
    t.length = p.length + rest.length := by
  rw [Text.dropPrefix?_eq_some_iff] at h
  simp [h]

theorem length_of_breakAt? {mark t before rest : Text}
    (h : Text.breakAt? mark t = some (before, rest)) :
    t.length = before.length + mark.length + rest.length := by
  induction t generalizing before with
  | nil =>
    simp only [Text.breakAt?] at h
    split at h
    next hm => simp_all
    next => cases h
  | cons c t ih =>
    simp only [Text.breakAt?] at h
    split at h
    next rest' hd =>
      have := length_of_dropPrefix? hd
      simp only [Option.some.injEq, Prod.mk.injEq] at h
      obtain ⟨rfl, rfl⟩ := h
      simp at this ⊢; omega
    next =>
      obtain ⟨⟨b, r⟩, hb, he⟩ := Option.map_eq_some_iff.1 h
      simp only [Prod.mk.injEq] at he
      obtain ⟨rfl, rfl⟩ := he
      have := ih hb
      simp only [List.length_cons]; omega

theorem length_skipSpaces_le (t : Text) : (skipSpaces t).length ≤ t.length :=
  length_dropWhile_le _ _

theorem length_of_upTo? {mark t before rest : Text} (h : upTo? mark t = some (before, rest)) :
    rest.length ≤ t.length := by
  unfold upTo? at h
  split at h
  next b r hb =>
    split at h
    · obtain ⟨rfl, rfl⟩ := Prod.mk.inj (Option.some.inj h)
      have := length_of_breakAt? hb
      omega
    · cases h
  next => cases h

theorem length_of_qualifiedName? {t rest : Text} {name : Name}
    (h : qualifiedName? t = some (name, rest)) : rest.length ≤ t.length := by
  unfold qualifiedName? at h
  split at h
  · obtain ⟨-, rfl⟩ := Prod.mk.inj (Option.some.inj h)
    exact length_dropWhile_le _ _
  · cases h

theorem length_of_quotedWith? {p : Char → Bool} {t value rest : Text}
    (h : quotedWith? p t = some (value, rest)) : rest.length < t.length := by
  unfold quotedWith? at h
  split at h
  · cases h
  next q t =>
    split at h
    · split at h
      next c r hd =>
        split at h
        · obtain ⟨-, rfl⟩ := Prod.mk.inj (Option.some.inj h)
          have := length_dropWhile_le (fun c => c ≠ q && p c) t
          rw [hd] at this
          simp only [List.length_cons] at this ⊢; omega
        · cases h
      next => cases h
    · cases h

theorem length_of_attribute? {t rest : Text} {a : Name × Text}
    (h : attribute? t = some (a, rest)) : rest.length < t.length := by
  simp only [attribute?, Option.bind_eq_bind, Option.bind_eq_some_iff, Option.pure_def,
    Option.some.injEq, Prod.mk.injEq, Prod.exists] at h
  obtain ⟨name, t₁, h₁, t₂, h₂, value, t₃, h₃, -, rfl⟩ := h
  have := length_of_qualifiedName? h₁
  have := length_skipSpaces_le t₁
  have := length_of_dropPrefix? h₂
  have := length_skipSpaces_le t₂
  have := length_of_quotedWith? h₃
  omega

theorem length_of_comment? {t comment rest : Text} (h : comment? t = some (comment, rest)) :
    rest.length ≤ t.length := by
  simp only [comment?, Option.bind_eq_bind, Option.bind_eq_some_iff, Prod.exists] at h
  obtain ⟨c, r, hu, hc⟩ := h
  split at hc
  · cases hc
  · obtain ⟨-, rfl⟩ := Prod.mk.inj (Option.some.inj hc)
    exact length_of_upTo? hu

theorem length_of_instruction? {t rest : Text} {i : Text × Text}
    (h : instruction? t = some (i, rest)) : rest.length < t.length := by
  unfold instruction? at h
  split at h
  · cases h
  · simp only [Option.bind_eq_bind, Option.bind_eq_some_iff, Option.pure_def,
      Option.some.injEq, Prod.mk.injEq, Prod.exists] at h
    obtain ⟨t₁, h₁, target, t₂, h₂, data, t₃, h₃, -, rfl⟩ := h
    have := length_of_dropPrefix? h₁
    have := length_of_name? h₂
    have := length_skipSpaces_le t₂
    have := length_of_upTo? h₃
    omega

end Xml

end PrettyPayload
