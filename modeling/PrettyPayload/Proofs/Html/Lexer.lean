import PrettyPayload.Markup.Layout
import PrettyPayload.Html.Lexer
import PrettyPayload.Proofs.Html.Reference
import PrettyPayload.Proofs.Text.Break

/-!
# Written HTML cut into tokens

A tag, a comment or a text that is written as HTML is read as one token, whatever follows it. What
this asks of their parts is what every part that was read has, but for null characters and carriage
returns, which references may bring in and no way of writing keeps.
-/

namespace PrettyPayload

namespace Html

open Markup

variable {t rest : Text} {c : Char}

/-! ## Definitions -/

/-- A text of which reading changes no character. -/
def IsPlainText (t : Text) : Prop := '\r' ∉ t ∧ '\x00' ∉ t

instance (t : Text) : Decidable (IsPlainText t) := inferInstanceAs (Decidable (_ ∧ _))

/-- A name of a tag as reading gives it: it starts with a letter and is in lower case. -/
def IsTagName (name : Text) : Bool :=
  name.head?.any isLetter &&
    name.all fun c => !endsTagName c && Text.lowerChar c = c && c ≠ '\x00'

/-- A name of an attribute as reading gives it, but that it has no equals sign at its start. -/
def IsAttributeName (name : Text) : Bool :=
  name ≠ [] && name.all fun c => !endsAttributeName c && Text.lowerChar c = c && c ≠ '\x00'

/-- Whether the reading of a comment goes on through a text. -/
def staysInComment : CommentSpot → Text → Bool
  | _, [] => true
  | .start, c :: t =>
    if c = '-' then staysInComment .startDash t else c ≠ '>' && staysInComment .body t
  | .startDash, c :: t =>
    if c = '-' then staysInComment .dashes t else c ≠ '>' && staysInComment .body t
  | .body, c :: t => staysInComment (if c = '-' then .dash else .body) t
  | .dash, c :: t => staysInComment (if c = '-' then .dashes else .body) t
  | .dashes, c :: t =>
    if c = '!' then staysInComment .bang t
    else if c = '-' then staysInComment .dashes t
    else c ≠ '>' && staysInComment .body t
  | .bang, c :: t =>
    if c = '-' then staysInComment .dash t else c ≠ '>' && staysInComment .body t

/-- A comment that is written and read again as it is. -/
def IsCommentText (t : Text) : Prop := IsPlainText t ∧ staysInComment .start t = true

instance (t : Text) : Decidable (IsCommentText t) := inferInstanceAs (Decidable (_ ∧ _))

def tagOf (e : Element) : Tag :=
  ⟨String.ofList e.name, e.attributes.map fun a => (String.ofList a.1, a.2), false⟩

/-- The tag of an element can be written and read again. -/
structure IsTag (e : Element) : Prop where
  name : IsTagName e.name = true
  attributes : ∀ a ∈ e.attributes, IsAttributeName a.1 = true ∧ IsPlainText a.2
  distinct : (e.attributes.map Prod.fst).Nodup

instance (e : Element) : Decidable (IsTag e) :=
  decidable_of_iff
    (IsTagName e.name = true ∧ (∀ a ∈ e.attributes, IsAttributeName a.1 = true ∧ IsPlainText a.2) ∧
      (e.attributes.map Prod.fst).Nodup)
    ⟨fun h => ⟨h.1, h.2.1, h.2.2⟩, fun h => ⟨h.name, h.attributes, h.distinct⟩⟩

/-! ## Characters that stay -/

theorem withoutNull_eq_self (h : '\x00' ∉ t) : withoutNull t = t := by
  rw [withoutNull]
  conv => rhs; rw [← List.map_id t]
  refine List.map_congr_left ?_
  intro c hc
  rw [if_neg, id]
  rintro rfl
  exact h hc

theorem withLineFeeds_eq_self (h : '\r' ∉ t) : withLineFeeds t = t := by
  fun_induction withLineFeeds t with
  | case1 => rfl
  | case2 t ih => exact absurd List.mem_cons_self h
  | case3 t _ ih => exact absurd List.mem_cons_self h
  | case4 c t _ _ ih => rw [ih fun hmem => h (List.mem_cons_of_mem c hmem)]

theorem lower_eq_self (h : ∀ c ∈ t, Text.lowerChar c = c) : Text.lower t = t := by
  rw [Text.lower]
  conv => rhs; rw [← List.map_id t]
  exact List.map_congr_left h

theorem nameOf_eq (h : ∀ c ∈ t, Text.lowerChar c = c ∧ c ≠ '\x00') :
    nameOf t = String.ofList t := by
  rw [nameOf, lower_eq_self fun c hc => (h c hc).1,
    withoutNull_eq_self fun hmem => (h _ hmem).2 rfl]

/-! ## Attributes -/

theorem isSpace_of_endsTagName_eq_false (h : endsTagName c = false) :
    isSpace c = false ∧ c ≠ '/' ∧ c ≠ '>' := by
  simpa [endsTagName, not_or, and_assoc] using h

theorem mem_isAttributeName {name : Text} (h : IsAttributeName name = true) :
    ∀ c ∈ name, endsAttributeName c = false ∧ Text.lowerChar c = c ∧ c ≠ '\x00' := by
  intro c hc
  have hall := List.all_eq_true.1 (Bool.and_eq_true_iff.1 h).2 c hc
  simpa [and_assoc] using hall

theorem exists_cons_of_isAttributeName {name : Text} (h : IsAttributeName name = true) :
    ∃ c u, name = c :: u ∧ endsAttributeName c = false ∧ isSpace c = false ∧ c ≠ '/' ∧ c ≠ '>' ∧
      c ≠ '=' := by
  cases name with
  | nil => cases h
  | cons c u =>
    have hc := (mem_isAttributeName h c List.mem_cons_self).1
    have hsplit : endsTagName c = false ∧ c ≠ '=' := by simpa [endsAttributeName] using hc
    obtain ⟨h1, h2, h3⟩ := isSpace_of_endsTagName_eq_false hsplit.1
    exact ⟨c, u, rfl, hc, h1, h2, h3, hsplit.2⟩

theorem attributeValue?_append {v : Text} (hv : IsPlainText v) (rest : Text) :
    attributeValue? ('"' :: (escapeAttribute .html v ++ '"' :: rest)) = some (v, rest) := by
  have hquote : '"' ∉ escapeAttribute .html v :=
    not_mem_flatMap writes_escapeAttributeChar (by decide) (by decide) v
  obtain ⟨htake, hdrop⟩ := Text.takeWhile_append_of_head? (q := fun c => c ≠ '"')
    (t := escapeAttribute .html v) (r := '"' :: rest)
    (fun c hc => by simpa using ne_of_mem_of_not_mem hc hquote)
    (fun c hc => by obtain rfl := Option.some.inj hc; rfl)
  have hskip : ∀ u : Text, skipToValue false ('"' :: u) = '"' :: u := by
    intro u
    rw [skipToValue.eq_def]
    rfl
  rw [attributeValue?, hskip]
  simp only [true_or, if_true, hdrop, htake, valueOf, decode_escapeAttribute hv.1,
    withoutNull_eq_self hv.2]

def EndsWrittenName (t : Text) : Prop :=
  ∀ c, t.head? = some c → endsAttributeName c = true

theorem takeWhile_attributeName {name u : Text} (h : IsAttributeName (c :: name) = true)
    (hu : EndsWrittenName u) :
    (name ++ u).takeWhile (fun d => !endsAttributeName d) = name ∧
      (name ++ u).dropWhile (fun d => !endsAttributeName d) = u := by
  refine Text.takeWhile_append_of_head? ?_ fun d hd => by rw [hu d hd]; rfl
  intro d hd
  rw [(mem_isAttributeName h d (List.mem_cons_of_mem c hd)).1]
  rfl

theorem nameOf_attributeName {name : Text} (h : IsAttributeName name = true) :
    nameOf name = String.ofList name :=
  nameOf_eq fun c hc => (mem_isAttributeName h c hc).2

theorem attribute?_of_value {name v : Text} (h : IsAttributeName name = true) (hv : IsPlainText v)
    (rest : Text) :
    attribute? (name ++ '=' :: '"' :: (escapeAttribute .html v ++ '"' :: rest)) =
      some ((String.ofList name, v), rest) := by
  obtain ⟨c, u, rfl, -⟩ := exists_cons_of_isAttributeName h
  obtain ⟨htake, hdrop⟩ := takeWhile_attributeName h
    (u := '=' :: '"' :: (escapeAttribute .html v ++ '"' :: rest))
    (fun d hd => by obtain rfl := Option.some.inj hd; rfl)
  have hequals : ∀ w : Text, ('=' :: w).dropWhile isSpace = '=' :: w := fun w => rfl
  rw [List.cons_append, attribute?]
  simp only [htake, hdrop, hequals, nameOf_attributeName h, attributeValue?_append hv,
    Option.map_some]

/-- An attribute without a value is read up to what follows it and is no equals sign. -/
theorem attribute?_of_empty {name : Text} (h : IsAttributeName name = true)
    (hrest : EndsWrittenName rest) (hequals : (rest.dropWhile isSpace).head? ≠ some '=') :
    attribute? (name ++ rest) = some ((String.ofList name, []), rest.dropWhile isSpace) := by
  obtain ⟨c, u, rfl, -⟩ := exists_cons_of_isAttributeName h
  obtain ⟨htake, hdrop⟩ := takeWhile_attributeName h hrest
  rw [List.cons_append, attribute?]
  simp only [htake, hdrop, nameOf_attributeName h]
  split
  next hstart => rw [hstart] at hequals; exact absurd rfl hequals
  next => rfl

theorem attributes?_of_mark {found : List (String × Text)}
    (h : t.dropWhile isSpace = '>' :: rest) : attributes? found t = some (found, false, rest) := by
  rw [attributes?]
  split
  next hs => rw [h] at hs; cases hs
  next hs => rw [h] at hs; rw [(List.cons.inj hs).2]
  next hs => rw [h] at hs; cases hs
  next hs => rw [h] at hs; cases hs
  next _ hnot _ _ => exact absurd h (hnot rest)

theorem attributes?_of_attribute? {found : List (String × Text)} {new : String × Text} {u : Text}
    (h : t.dropWhile isSpace = c :: u) (hc : c ≠ '/' ∧ c ≠ '>')
    (hread : attribute? (c :: u) = some (new, rest)) (hlength : rest.length ≤ u.length) :
    attributes? found t = attributes? (addAttribute found new) rest := by
  have hle : (t.dropWhile isSpace).length ≤ t.length := (List.dropWhile_suffix _).length_le
  have hlt : rest.length < t.length := by
    rw [h, List.length_cons] at hle
    omega
  rw [attributes?]
  split
  next hs => rw [h] at hs; cases hs
  next hs => rw [h] at hs; exact absurd (List.cons.inj hs).1 hc.2
  next hs => rw [h] at hs; exact absurd (List.cons.inj hs).1 hc.1
  next hs => rw [h] at hs; exact absurd (List.cons.inj hs).1 hc.1
  next =>
    rw [h, hread]
    exact dif_pos hlt

def attributesText (attributes : List (Text × Text)) : Text :=
  attributes.flatMap fun a => attributeText .html a.1 a.2

theorem addAttribute_of_fresh {found : List (String × Text)} {name : Text} {v : Text}
    (h : ∀ a ∈ found, a.1 ≠ String.ofList name) :
    addAttribute found (String.ofList name, v) = found ++ [(String.ofList name, v)] := by
  rw [addAttribute, if_neg]
  rw [List.any_eq_true]
  rintro ⟨b, hb, hname⟩
  exact h b hb (of_decide_eq_true hname)

/-- What follows the name of an attribute, or the last one. -/
theorem head?_attributesText (attributes : List (Text × Text)) (rest : Text) :
    ∃ c, (attributesText attributes ++ '>' :: rest).head? = some c ∧ (c = ' ' ∨ c = '>') := by
  cases attributes with
  | nil => exact ⟨'>', rfl, Or.inr rfl⟩
  | cons a attributes =>
    refine ⟨' ', ?_, Or.inl rfl⟩
    rw [attributesText, List.flatMap_cons, attributeText]
    split <;> rfl

theorem endsWrittenName_attributesText (attributes : List (Text × Text)) (rest : Text) :
    EndsWrittenName (attributesText attributes ++ '>' :: rest) := by
  intro c hc
  obtain ⟨d, hd, hspace⟩ := head?_attributesText attributes rest
  obtain rfl := Option.some.inj (hd.symm.trans hc)
  rcases hspace with rfl | rfl <;> rfl

/-- Behind white space, written attributes start with a name, or their tag ends. -/
theorem dropWhile_attributesText {attributes : List (Text × Text)}
    (h : ∀ a ∈ attributes, IsAttributeName a.1 = true) (rest : Text) :
    (attributes = [] ∧ (attributesText attributes ++ '>' :: rest).dropWhile isSpace =
      '>' :: rest) ∨
    ∃ a more, attributes = a :: more ∧
      (attributesText attributes ++ '>' :: rest).dropWhile isSpace =
        a.1 ++ ((if a.2 = [] then [] else '=' :: '"' :: (escapeAttribute .html a.2 ++ ['"'])) ++
          (attributesText more ++ '>' :: rest)) := by
  cases attributes with
  | nil => exact Or.inl ⟨rfl, rfl⟩
  | cons a more =>
    obtain ⟨c, u, hname, -, hspace, -⟩ :=
      exists_cons_of_isAttributeName (h a List.mem_cons_self)
    refine Or.inr ⟨a, more, rfl, ?_⟩
    have hskip : ∀ w : Text, (' ' :: (a.1 ++ w)).dropWhile isSpace = a.1 ++ w := by
      intro w
      have hblank : isSpace ' ' = true := rfl
      rw [List.dropWhile_cons_of_pos hblank, hname, List.cons_append,
        List.dropWhile_cons_of_neg (by rw [hspace]; exact Bool.false_ne_true)]
    rw [← hskip, attributesText, attributesText, List.flatMap_cons, attributeText]
    congr 1
    split
    next hnil => rw [if_pos hnil.2]; simp
    next hne =>
      rw [if_neg fun hnil => hne ⟨rfl, hnil⟩]
      simp

theorem head?_dropWhile_attributesText {attributes : List (Text × Text)}
    (h : ∀ a ∈ attributes, IsAttributeName a.1 = true) (rest : Text) :
    ((attributesText attributes ++ '>' :: rest).dropWhile isSpace).head? ≠ some '=' := by
  rcases dropWhile_attributesText h rest with ⟨-, hend⟩ | ⟨a, more, rfl, hend⟩
  · rw [hend]
    simp
  · obtain ⟨c, u, hname, -, -, -, -, hequals⟩ :=
      exists_cons_of_isAttributeName (h a List.mem_cons_self)
    rw [hend, hname]
    simpa using hequals

/-- The first of some written attributes is read. Without a value, the white space behind its name
is read along with it. -/
theorem attribute?_append {name v : Text} (hname : IsAttributeName name = true)
    (hv : IsPlainText v) {more : List (Text × Text)}
    (hmore : ∀ a ∈ more, IsAttributeName a.1 = true) (rest : Text) :
    ∃ t, attribute? (name ++ ((if v = [] then []
          else '=' :: '"' :: (escapeAttribute .html v ++ ['"'])) ++
            (attributesText more ++ '>' :: rest))) = some ((String.ofList name, v), t) ∧
      t.dropWhile isSpace = (attributesText more ++ '>' :: rest).dropWhile isSpace ∧
      t.length ≤ (attributesText more ++ '>' :: rest).length := by
  by_cases hnil : v = []
  · have hread := attribute?_of_empty hname (endsWrittenName_attributesText more rest)
      (head?_dropWhile_attributesText hmore rest)
    rw [if_pos hnil, List.nil_append, hnil]
    exact ⟨_, hread, Text.trimStart_eq_self fun _ hc => Text.head?_trimStart hc,
      (List.dropWhile_suffix isSpace).length_le⟩
  · have hread := attribute?_of_value hname hv (attributesText more ++ '>' :: rest)
    rw [if_neg hnil, List.cons_append, List.cons_append, List.append_assoc, List.singleton_append]
    exact ⟨_, hread, rfl, Nat.le_refl _⟩

/-- Written attributes are read up to the end of their tag. -/
theorem attributes?_append {attributes : List (Text × Text)}
    (h : ∀ a ∈ attributes, IsAttributeName a.1 = true ∧ IsPlainText a.2)
    (hdistinct : (attributes.map Prod.fst).Nodup) {found : List (String × Text)}
    (hfresh : ∀ a ∈ attributes, ∀ b ∈ found, b.1 ≠ String.ofList a.1)
    (ht : t.dropWhile isSpace = (attributesText attributes ++ '>' :: rest).dropWhile isSpace) :
    attributes? found t =
      some (found ++ attributes.map fun a => (String.ofList a.1, a.2), false, rest) := by
  induction attributes generalizing found t with
  | nil => rw [List.map_nil, List.append_nil]; exact attributes?_of_mark ht
  | cons a more ih =>
    rcases dropWhile_attributesText (fun a ha => (h a ha).1) rest with ⟨hnil, -⟩ | hsplit
    · cases hnil
    obtain ⟨a', more', heq, hdrop⟩ := hsplit
    obtain ⟨rfl, rfl⟩ := List.cons.inj heq
    rw [List.forall_mem_cons] at h hfresh
    rw [List.map_cons, List.nodup_cons] at hdistinct
    obtain ⟨⟨hname, hvalue⟩, hmore⟩ := h
    obtain ⟨c, u, hcons, -, -, hslash, hmark, -⟩ := exists_cons_of_isAttributeName hname
    obtain ⟨behind, hread, hbehind, hlength⟩ :=
      attribute?_append hname hvalue (fun b hb => (hmore b hb).1) rest
    have hadd := addAttribute_of_fresh (v := a.2) hfresh.1
    have hfresh' : ∀ b ∈ more, ∀ d ∈ found ++ [(String.ofList a.1, a.2)],
        d.1 ≠ String.ofList b.1 := by
      intro b hb
      refine List.forall_mem_append.2 ⟨hfresh.2 b hb, List.forall_mem_singleton.2 ?_⟩
      intro hsame
      exact hdistinct.1 (String.ofList_injective hsame ▸ List.mem_map_of_mem hb)
    have hresult : (found ++ [(String.ofList a.1, a.2)]) ++
        (more.map fun a => (String.ofList a.1, a.2)) =
          found ++ (a :: more).map fun a => (String.ofList a.1, a.2) := by simp
    rw [hdrop, hcons, List.cons_append] at ht
    rw [hcons, List.cons_append, ← hcons] at hread
    rw [attributes?_of_attribute? ht ⟨hslash, hmark⟩ hread ?_, hadd,
      ih hmore hdistinct.2 hfresh' hbehind, hresult]
    rw [List.length_append, List.length_append]
    omega

/-! ## Tags -/

theorem mem_isTagName {name : Text} (h : IsTagName name = true) :
    ∀ c ∈ name, endsTagName c = false ∧ Text.lowerChar c = c ∧ c ≠ '\x00' := by
  intro c hc
  have hall := List.all_eq_true.1 (Bool.and_eq_true_iff.1 h).2 c hc
  simpa [and_assoc] using hall

theorem exists_cons_of_isTagName {name : Text} (h : IsTagName name = true) :
    ∃ c u, name = c :: u ∧ isLetter c = true := by
  cases name with
  | nil => cases h
  | cons c u => exact ⟨c, u, rfl, (Bool.and_eq_true_iff.1 h).1⟩

theorem tag?_append {e : Element} (h : IsTag e) (rest : Text) :
    tag? (e.name ++ (attributesText e.attributes ++ '>' :: rest)) = some (tagOf e, rest) := by
  have hends : ∀ c, (attributesText e.attributes ++ '>' :: rest).head? = some c →
      (!endsTagName c) = false := by
    intro c hc
    obtain ⟨d, hd, hspace⟩ := head?_attributesText e.attributes rest
    obtain rfl := Option.some.inj (hd.symm.trans hc)
    rcases hspace with rfl | rfl <;> rfl
  obtain ⟨htake, hdrop⟩ := Text.takeWhile_append_of_head? (q := fun c => !endsTagName c)
    (t := e.name) (fun c hc => by rw [(mem_isTagName h.name c hc).1]; rfl) hends
  have hname : nameOf e.name = String.ofList e.name :=
    nameOf_eq fun c hc => (mem_isTagName h.name c hc).2
  rw [tag?, htake, hdrop, attributes?_append h.attributes h.distinct
    (fun _ _ _ hb => absurd hb List.not_mem_nil) rfl]
  simp only [Option.map_some, hname, List.nil_append]
  rfl

def bare (e : Element) : Element := ⟨e.name, []⟩

theorem isTag_bare {e : Element} (h : IsTag e) : IsTag (bare e) :=
  ⟨h.name, List.forall_mem_nil _, List.nodup_nil⟩

/-! ## The next token -/

variable {rules : ContentRules}

theorem lexData_startTag {e : Element} (h : IsTag e) (rest : Text) :
    lexData rules (startTag .html e false ++ rest) = ([.startTag (tagOf e)], rest) := by
  obtain ⟨c, u, hname, hc⟩ := exists_cons_of_isTagName h.name
  have hslash : c ≠ '/' := Text.ne_of_class hc rfl
  have hsplit : startTag .html e false ++ rest =
      '<' :: c :: (u ++ (attributesText e.attributes ++ '>' :: rest)) := by
    simp [startTag, hname, attributesText]
  have hread := tag?_append h rest
  rw [hname, List.cons_append] at hread
  have hmarkup : lexMarkup rules.cdata (c :: (u ++ (attributesText e.attributes ++ '>' :: rest))) =
      ([.startTag (tagOf e)], rest) := by
    rw [lexMarkup, if_pos hc, hread]
    · exact Text.ne_of_class hc rfl
    · exact Text.ne_of_class hc rfl
    · exact fun h _ => hslash h
    · exact fun _ h _ => hslash h
    · exact fun _ _ h _ => hslash h
  rw [hsplit]
  exact hmarkup

theorem lexData_endTag {e : Element} (h : IsTag e) (rest : Text) :
    lexData rules (endTag e ++ rest) = ([.endTag (tagOf (bare e))], rest) := by
  obtain ⟨c, u, hname, hc⟩ := exists_cons_of_isTagName h.name
  have hsplit : endTag e ++ rest = '<' :: '/' :: c :: (u ++ '>' :: rest) := by
    simp [endTag, hname]
  have hread := tag?_append (isTag_bare h) rest
  have hbare : (bare e).name ++ (attributesText (bare e).attributes ++ '>' :: rest) =
      c :: (u ++ '>' :: rest) := by
    rw [bare, hname]
    rfl
  rw [hbare] at hread
  have hmarkup : lexMarkup rules.cdata ('/' :: c :: (u ++ '>' :: rest)) =
      ([.endTag (tagOf (bare e))], rest) := by
    rw [lexMarkup, if_pos hc, hread]
    exact Text.ne_of_class hc rfl
  rw [hsplit]
  exact hmarkup

def CommentSpot.held : CommentSpot → Text
  | .start => []
  | .startDash => ['-']
  | .body => []
  | .dash => ['-']
  | .dashes => ['-', '-']
  | .bang => ['-', '-', '!']

/-- What a character gives to the text of a comment, and where the reading stands behind it; nothing
if the character ends the comment. -/
def commentNext? (c : Char) : CommentSpot → Option (Text × CommentSpot)
  | .start =>
    if c = '-' then some ([], .startDash) else if c = '>' then none else some ([c], .body)
  | .startDash =>
    if c = '-' then some ([], .dashes) else if c = '>' then none else some (['-', c], .body)
  | .body => if c = '-' then some ([], .dash) else some ([c], .body)
  | .dash => if c = '-' then some ([], .dashes) else some (['-', c], .body)
  | .dashes =>
    if c = '>' then none
    else if c = '!' then some ([], .bang)
    else if c = '-' then some (['-'], .dashes)
    else some (['-', '-', c], .body)
  | .bang =>
    if c = '>' then none
    else if c = '-' then some (['-', '-', '!'], .dash)
    else some (['-', '-', '!', c], .body)

theorem commentFrom_cons (spot : CommentSpot) (c : Char) (t : Text) :
    commentFrom spot (c :: t) = (commentNext? c spot).elim ([], t) fun found =>
      (found.1 ++ (commentFrom found.2 t).1, (commentFrom found.2 t).2) := by
  cases spot
  all_goals
    rw [commentFrom, commentNext?]
    repeat' split
    all_goals rfl

theorem staysInComment_cons (spot : CommentSpot) (c : Char) (t : Text) :
    staysInComment spot (c :: t) =
      (commentNext? c spot).any fun found => staysInComment found.2 t := by
  cases spot with
  | start | startDash | bang =>
    rw [staysInComment, commentNext?]
    by_cases hdash : c = '-'
    · simp [hdash]
    · by_cases hmark : c = '>' <;> simp [hdash, hmark]
  | body | dash =>
    rw [staysInComment, commentNext?]
    split <;> rfl
  | dashes =>
    rw [staysInComment, commentNext?]
    by_cases hmark : c = '>'
    · simp [hmark]
    · by_cases hbang : c = '!'
      · simp [hbang]
      · by_cases hdash : c = '-' <;> simp [hmark, hbang, hdash]

/-- No character is lost on the way. -/
theorem append_held_of_mem_commentNext? (spot : CommentSpot) (c : Char) :
    ∀ found ∈ commentNext? c spot, found.1 ++ found.2.held = spot.held ++ [c] := by
  cases spot
  all_goals
    rw [commentNext?]
    repeat' split
    all_goals simp_all [CommentSpot.held]

/-- A comment that goes on through a text is closed by the mark behind it, whatever follows. -/
theorem commentFrom_append {spot : CommentSpot} (h : staysInComment spot t = true) (rest : Text) :
    commentFrom spot (t ++ "-->".toList ++ rest) = (spot.held ++ t, rest) := by
  induction t generalizing spot with
  | nil => cases spot <;> simp [commentFrom, CommentSpot.held]
  | cons c t ih =>
    rw [staysInComment_cons, Option.any_eq_true] at h
    obtain ⟨⟨text, next⟩, hnext, hstays⟩ := h
    have htext : text ++ next.held = spot.held ++ [c] :=
      append_held_of_mem_commentNext? spot c _ hnext
    rw [List.cons_append, List.cons_append, commentFrom_cons, hnext, Option.elim_some, ih hstays,
      ← List.append_assoc, htext, List.append_assoc, List.singleton_append]

theorem lexData_comment (h : IsCommentText t) (rest : Text) :
    lexData rules (commentText t ++ rest) = ([.comment t], rest) := by
  have hread := commentFrom_append h.2 rest
  have htoken : commentToken t = .comment t := by
    rw [commentToken, withLineFeeds_eq_self h.1.1, withoutNull_eq_self h.1.2]
  have hsplit : commentText t ++ rest =
      '<' :: '!' :: ("--".toList ++ (t ++ "-->".toList ++ rest)) := by
    simp [commentText]
  have hmarkup : lexMarkup rules.cdata ('!' :: ("--".toList ++ (t ++ "-->".toList ++ rest))) =
      ([.comment t], rest) := by
    rw [lexMarkup, lexDeclaration, Text.dropPrefix?_append]
    simp only [hread, CommentSpot.held, List.nil_append, htoken]
  rw [hsplit]
  exact hmarkup

/-- An escaped text never starts like a number reference that lacks its semicolon. -/
theorem startsUnterminated_escapeText (t : Text) :
    startsUnterminated (escapeText .html t) = false := by
  cases t with
  | nil => rfl
  | cons c t =>
    rw [escapeText, List.flatMap_cons]
    unfold escapeTextChar
    repeat' split
    all_goals try rfl
    next hamp _ _ _ =>
      rw [startsUnterminated]
      rintro u hu
      exact hamp (List.cons.inj hu).1

def EndsText (rest : Text) : Prop := ∀ c, rest.head? = some c → c = '<'

/-- An escaped text is read up to the next markup. -/
theorem lexData_escapeText (hne : t ≠ []) (ht : IsPlainText t) (hrest : EndsText rest) :
    lexData ⟨false, false⟩ (escapeText .html t ++ rest) = ([.chars t], rest) := by
  have hrun : ∀ c ∈ escapeText .html t, (!endsRun c) = true := by
    intro c hc
    rcases mem_of_mem_flatMap writes_escapeTextChar hc with ⟨entry, hentry, hc⟩ | ⟨hc, hplain⟩
    · have hreferences : (writtenReferences.all fun entry => entry.1.all (!endsRun ·)) = true := by
        decide
      exact List.all_eq_true.1 (List.all_eq_true.1 hreferences entry hentry) c hc
    · have hmark : c ≠ '<' := fun h => absurd (h ▸ hplain) (by decide)
      have hnull : c ≠ '\x00' := fun h => ht.2 (h ▸ hc)
      simp [endsRun, hmark, hnull]
  obtain ⟨htake, hdrop⟩ := Text.takeWhile_append_of_head? (q := fun c => !endsRun c) hrun
    fun c hc => by rw [hrest c hc]; rfl
  obtain ⟨c, u, hcons⟩ : ∃ c u, escapeText .html t = c :: u := by
    refine List.exists_cons_of_ne_nil ?_
    intro hnil
    have hdecode := decode_escapeText ht.1
    rw [hnil, decode] at hdecode
    exact hne hdecode.symm
  have hc := hrun c (hcons ▸ List.mem_cons_self)
  rw [hcons, List.cons_append] at htake hdrop ⊢
  rw [lexData]
  · simp only [htake, hdrop]
    rw [← hcons, startsUnterminated_escapeText, decode_escapeText ht.1]
    simp [charsToken, hne]
  · exact List.cons_ne_nil _ _
  · rintro v hv
    rw [(List.cons.inj hv).1] at hc
    exact absurd hc (by decide)
  · rintro v hv
    rw [(List.cons.inj hv).1] at hc
    exact absurd hc (by decide)

end Html

end PrettyPayload
