import PrettyPayload.Proofs.Text.Break
import PrettyPayload.Proofs.Toml.Number

/-!
# Tables that are written

A header and entries, each on a line of its own, are read as one table that holds the items of the
entries in their order. `Entry.Sound` says what an entry needs for that: a key without quotes, and a
value that is read as its item wherever the line ends behind it. Truth values, numbers and strings
without escapes are such values.
-/

namespace PrettyPayload

namespace Toml

variable {key name t rest : Text} {c : Char} {n : Nat} {item : Item} {line : Line}
  {members : Members} {e : Entry} {es : List Entry}

/-! ## Keys -/

/-- A key without quotes. -/
structure IsBareKey (key : Text) : Prop where
  ne_nil : key ≠ []
  isBare : ∀ c ∈ key, isBare c = true

theorem isBlank_of_class {q : Char → Bool} (hc : q c = true) (hspace : q ' ' = false)
    (htab : q '\t' = false) : isBlank c = false := by
  simp [isBlank, Text.ne_of_class hc hspace, Text.ne_of_class hc htab]

theorem isBlank_of_isBare (h : isBare c = true) : isBlank c = false :=
  isBlank_of_class h (by decide) (by decide)

theorem skipBlanks_cons (h : isBlank c = false) (t : Text) : skipBlanks (c :: t) = c :: t := by
  simp [skipBlanks, h]

theorem skipBlanks_append (hne : t ≠ []) (h : ∀ c ∈ t, isBlank c = false) :
    skipBlanks (t ++ rest) = t ++ rest := by
  obtain ⟨c, u, rfl⟩ := List.exists_cons_of_ne_nil hne
  exact skipBlanks_cons (h c List.mem_cons_self) _

theorem keyPart?_append (h : IsBareKey key) (hrest : ∀ c, rest.head? = some c → isBare c = false) :
    keyPart? (key ++ rest) = some (key, rest) := by
  obtain ⟨htake, hdrop⟩ := Text.takeWhile_append_of_head? h.isBare hrest
  rw [keyPart?]
  · rw [htake, hdrop]
    split
    next => exact absurd rfl h.ne_nil
    next => rfl
  · exact fun u => Text.append_ne_cons h.ne_nil h.isBare (by decide)
  · exact fun u => Text.append_ne_cons h.ne_nil h.isBare (by decide)

theorem key?_append (h : IsBareKey key) (hrest : ∀ c, rest.head? = some c → isBare c = false)
    (hdot : (skipBlanks rest).head? ≠ some '.') :
    key? (key ++ rest) = some (([], key), skipBlanks rest) := by
  have hskip : skipBlanks (key ++ rest) = key ++ rest :=
    skipBlanks_append h.ne_nil fun c hc => isBlank_of_isBare (h.isBare c hc)
  have hparts : keyParts? (key ++ rest) = some ([key], skipBlanks rest) := by
    rw [keyParts?, hskip, keyPart?_append h hrest]
    simp only [Option.bind_eq_bind, Option.bind_some]
    split
    next u hu =>
      rw [hu] at hdot
      exact absurd rfl hdot
    next => rfl
  rw [key?, hparts]
  rfl

/-! ## Values -/

/-- A value is read as an item between the equals sign, with a blank behind it, and the end of the
line. -/
def Reads (written : Text) (item : Item) : Prop :=
  ∀ rest, value? nestingLimit (skipBlanks (' ' :: (written ++ '\n' :: rest))) =
    some (item, '\n' :: rest)

theorem reads_true : Reads "true".toList (.bool true) := fun _ => rfl

theorem reads_false : Reads "false".toList (.bool false) := fun _ => rfl

theorem basicString?_append (h : ∀ c ∈ t, isPrintable c = true ∧ c ≠ '"' ∧ c ≠ '\\') :
    basicString? (t ++ '"' :: rest) = some (t, rest) := by
  induction t with
  | nil => rw [List.nil_append, basicString?]
  | cons c t ih =>
    obtain ⟨⟨hprint, hquote, hback⟩, ht⟩ := List.forall_mem_cons.1 h
    rw [List.cons_append, basicString?]
    · rw [if_pos hprint, ih ht]
      rfl
    · exact hquote
    · exact hback

theorem reads_string (h : ∀ c ∈ t, isPrintable c = true ∧ c ≠ '"' ∧ c ≠ '\\') :
    Reads ('"' :: (t ++ ['"'])) (.string t) := by
  intro rest
  have hvalue : value? nestingLimit (skipBlanks (' ' :: ('"' :: (t ++ ['"']) ++ '\n' :: rest))) =
      scalar? ('"' :: (t ++ '"' :: '\n' :: rest)) := by
    rw [List.cons_append, List.append_assoc]
    rfl
  have hstring : string? ('"' :: (t ++ '"' :: '\n' :: rest)) = some (t, '\n' :: rest) := by
    rw [string?]
    · exact basicString?_append h
    · -- two more quotes would be the first character of the text, or the end of the line
      intro u hu
      cases t with
      | nil => cases hu
      | cons c t => exact (h c List.mem_cons_self).2.1 (List.cons.inj hu).1
  rw [hvalue, scalar?, hstring]

theorem reads_decimal (h : n < 0x8000000000000000) : Reads (Text.decimal n) (.integer n) := by
  intro rest
  have hds : ∀ c ∈ Text.decimal n, c.isDigit = true := fun c => Text.isDigit_of_mem_decimal
  have hne : Text.decimal n ≠ [] := (isPlain_decimal n).ne_nil
  have hskip : skipBlanks (' ' :: (Text.decimal n ++ '\n' :: rest)) =
      Text.decimal n ++ '\n' :: rest :=
    skipBlanks_append hne fun c hc => isBlank_of_class (hds c hc) rfl rfl
  rw [hskip, show nestingLimit = 78 + 1 from rfl, value?]
  · exact scalar?_decimal h rest
  · exact fun u => Text.append_ne_cons hne hds rfl
  · exact fun u => Text.append_ne_cons hne hds rfl

/-! ## Lines -/

/-- A key, the value that is written for it, and the item that the value stands for. -/
structure Entry where
  key : Text
  written : Text
  item : Item

namespace Entry

def text (e : Entry) : Text := e.key ++ ' ' :: '=' :: ' ' :: e.written

def member (e : Entry) : Text × Item := (e.key, e.item)

structure Sound (e : Entry) : Prop where
  key : IsBareKey e.key
  reads : Reads e.written e.item

end Entry

def headerText (name : Text) : Text := '[' :: (name ++ [']'])

def tableLines (name : Text) (es : List Entry) : List Text := headerText name :: es.map Entry.text

theorem statement?_headerText (h : IsBareKey name) (rest : Text) :
    statement? (headerText name ++ '\n' :: rest) = some (.table [] name, '\n' :: rest) := by
  have hkey : key? (name ++ ']' :: '\n' :: rest) = some (([], name), ']' :: '\n' :: rest) :=
    key?_append h (fun c hc => Option.some.inj hc ▸ by decide) (show some ']' ≠ some '.' by decide)
  have hsplit : headerText name ++ '\n' :: rest = '[' :: (name ++ ']' :: '\n' :: rest) := by
    simp [headerText]
  rw [hsplit, statement?, hkey]
  · rfl
  · exact fun u => Text.append_ne_cons h.ne_nil h.isBare (by decide)

theorem Entry.Sound.statement?_text (h : e.Sound) (rest : Text) :
    statement? (e.text ++ '\n' :: rest) = some (.entry [] e.key e.item, '\n' :: rest) := by
  have hkey : key? (e.key ++ ' ' :: '=' :: ' ' :: (e.written ++ '\n' :: rest)) =
      some (([], e.key), '=' :: ' ' :: (e.written ++ '\n' :: rest)) :=
    key?_append h.key (fun c hc => Option.some.inj hc ▸ by decide)
      (show some '=' ≠ some '.' by decide)
  have hsplit : e.text ++ '\n' :: rest =
      e.key ++ ' ' :: '=' :: ' ' :: (e.written ++ '\n' :: rest) := by
    simp [Entry.text]
  rw [hsplit, statement?, hkey]
  · simp only [Option.bind_eq_bind, Option.bind_some, Text.dropPrefix?, if_true, h.reads rest]
    rfl
  · exact fun u => Text.append_ne_cons h.key.ne_nil h.key.isBare (by decide)
  · exact fun u => Text.append_ne_cons h.key.ne_nil h.key.isBare (by decide)

/-- A line that starts so says something: it is neither empty nor a comment. -/
def StartsStatement (c : Char) : Prop := isBlank c = false ∧ c ≠ '#' ∧ c ≠ '\n' ∧ c ≠ '\r'

theorem startsStatement_of_isBare (h : isBare c = true) : StartsStatement c :=
  ⟨isBlank_of_isBare h, Text.ne_of_class h (by decide), Text.ne_of_class h (by decide),
    Text.ne_of_class h (by decide)⟩

theorem lines?_append (hc : StartsStatement c)
    (hline : statement? (c :: t ++ '\n' :: rest) = some (line, '\n' :: rest)) :
    lines? (c :: t ++ '\n' :: rest) = (lines? rest).map (line :: ·) := by
  obtain ⟨hblank, hcomment, hnewline, hreturn⟩ := hc
  rw [List.cons_append] at hline ⊢
  have hskip : skipBlanks (c :: (t ++ '\n' :: rest)) = c :: (t ++ '\n' :: rest) :=
    skipBlanks_cons hblank _
  have hend : lineEnd? (c :: (t ++ '\n' :: rest)) = none := by
    have hnone : skipComment (c :: (t ++ '\n' :: rest)) = c :: (t ++ '\n' :: rest) := by
      rw [skipComment]
      exact fun v hv => hcomment (List.cons.inj hv).1
    rw [lineEnd?, hskip, hnone]
    simp only
    rw [newline?]
    · exact fun v hv => hnewline (List.cons.inj hv).1
    · exact fun v hv => hreturn (List.cons.inj hv).1
  have hrest : lineEnd? ('\n' :: rest) = some rest := rfl
  rw [lines?, hend, hskip]
  simp only [hline, hrest, Option.bind_eq_bind, Option.bind_some]
  rw [if_pos (by simp only [List.length_cons, List.length_append]; omega)]
  cases lines? rest <;> rfl

theorem lines?_entries (h : ∀ e ∈ es, e.Sound) :
    lines? ((es.map Entry.text).flatMap (· ++ ['\n'])) =
      some (es.map fun e => .entry [] e.key e.item) := by
  induction es with
  | nil => rw [List.map_nil, List.flatMap_nil, lines?]; rfl
  | cons e es ih =>
    obtain ⟨he, hes⟩ := List.forall_mem_cons.1 h
    obtain ⟨c, k, hkey⟩ := List.exists_cons_of_ne_nil he.key.ne_nil
    have hc : isBare c = true := he.key.isBare c (hkey ▸ List.mem_cons_self)
    have hcons : e.text = c :: (k ++ ' ' :: '=' :: ' ' :: e.written) := by
      rw [Entry.text, hkey]
      rfl
    have hline := he.statement?_text ((es.map Entry.text).flatMap (· ++ ['\n']))
    rw [hcons] at hline
    rw [List.map_cons, List.flatMap_cons, List.append_assoc, List.singleton_append, hcons,
      lines?_append (startsStatement_of_isBare hc) hline, ih hes]
    rfl

/-! ## Tables -/

theorem addNew_eq_some (h : ∀ m ∈ members, m.1 ≠ key) :
    members.addNew key item = some (members ++ [(key, item)]) := by
  induction members with
  | nil => rfl
  | cons m members ih =>
    obtain ⟨hm, hmembers⟩ := List.forall_mem_cons.1 h
    have ih := ih hmembers
    rw [Members.addNew] at ih ⊢
    rw [Members.alter, if_neg hm, ih]
    rfl

/-- An entry whose key is new goes to the end of the table that was opened. -/
theorem step?_entry (h : ∀ m ∈ members, m.1 ≠ key) :
    State.step? ⟨[(name, .table .header members)], [name]⟩ (.entry [] key item) =
      some ⟨[(name, .table .header (members ++ [(key, item)]))], [name]⟩ := by
  have hinsert : Members.insert [] key item members = some (members ++ [(key, item)]) :=
    addNew_eq_some h
  simp only [State.step?, Members.atPath, Members.alter, if_true, Members.passHeader, hinsert,
    Option.map_some]

theorem foldlM_step?_entries (h : (members.map Prod.fst ++ es.map Entry.key).Nodup) :
    (es.map fun e => Line.entry [] e.key e.item).foldlM State.step?
        ⟨[(name, .table .header members)], [name]⟩ =
      some ⟨[(name, .table .header (members ++ es.map Entry.member))], [name]⟩ := by
  induction es generalizing members with
  | nil => simp
  | cons e es ih =>
    have hnew : ∀ m ∈ members, m.1 ≠ e.key := fun m hm =>
      (List.nodup_append.1 h).2.2 m.1 (List.mem_map_of_mem hm) e.key List.mem_cons_self
    rw [List.map_cons, List.foldlM_cons, step?_entry hnew, Option.bind_eq_bind, Option.bind_some,
      ih]
    · simp [Entry.member]
    · simpa using h

/-- A table of entries with different keys is read as the items of the entries, in their order. -/
theorem parse?_tableLines (hname : IsBareKey name) (hes : ∀ e ∈ es, e.Sound)
    (hkeys : (es.map Entry.key).Nodup) :
    parse? ((tableLines name es).flatMap (· ++ ['\n'])) =
      some [(name, .table .header (es.map Entry.member))] := by
  have hlines : lines? ((tableLines name es).flatMap (· ++ ['\n'])) =
      some (.table [] name :: es.map fun e => .entry [] e.key e.item) := by
    have hbracket : StartsStatement '[' := ⟨rfl, by decide, by decide, by decide⟩
    rw [tableLines, List.flatMap_cons, List.append_assoc, List.singleton_append, headerText,
      lines?_append hbracket (statement?_headerText hname _), lines?_entries hes]
    rfl
  have hmark : dropMark ((tableLines name es).flatMap (· ++ ['\n'])) =
      (tableLines name es).flatMap (· ++ ['\n']) := rfl
  have hopen : State.step? ⟨[], []⟩ (.table [] name) =
      some ⟨[(name, .table .header [])], [name]⟩ := rfl
  rw [parse?, hmark, hlines]
  simp only [Option.bind_eq_bind, Option.bind_some, List.foldlM_cons, hopen]
  rw [foldlM_step?_entries (by simpa using hkeys)]
  rfl

end Toml

end PrettyPayload
