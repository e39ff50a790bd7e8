import PrettyPayload.Proofs.Html.Lexer

/-!
# Written content without markup

The text of a script, a style sheet and the like is written as it is, that of a title or a text area
with references only. It is read up to the end tag behind it, whatever follows, if no end tag of its
own starts earlier.
-/

namespace PrettyPayload

namespace Html

open Markup

variable {t rest element : Text} {c : Char}

/-! ## Definitions -/

def closing (element : Text) : Text := '<' :: '/' :: (element ++ ['>'])

def scriptEnd : Text := closing "script".toList

/-- A text that is written in a script and read again as it is. -/
def IsScriptText (t : Text) : Prop :=
  IsPlainText t ∧ scriptFrom .body (t ++ scriptEnd) = (t, scriptEnd)

instance (t : Text) : Decidable (IsScriptText t) := inferInstanceAs (Decidable (_ ∧ _))

/-- A text that is written in an element without references and read again as it is. -/
def IsRawText (element t : Text) : Prop :=
  IsPlainText t ∧ untilEndTag element (t ++ closing element) = (t, closing element)

instance (element t : Text) : Decidable (IsRawText element t) :=
  inferInstanceAs (Decidable (_ ∧ _))

/-! ## End tags -/

theorem dropPrefixIgnoringCase?_append {p : Text} (h : p.length ≤ t.length) (rest : Text) :
    Text.dropPrefixIgnoringCase? p (t ++ rest) =
      (Text.dropPrefixIgnoringCase? p t).map (· ++ rest) := by
  induction p generalizing t with
  | nil => rfl
  | cons a p ih =>
    cases t with
    | nil => cases h
    | cons b t =>
      rw [List.cons_append, Text.dropPrefixIgnoringCase?, Text.dropPrefixIgnoringCase?]
      split
      · exact ih (Nat.le_of_succ_le_succ h)
      · rfl

theorem length_of_dropPrefixIgnoringCase? {p : Text}
    (h : Text.dropPrefixIgnoringCase? p t = some rest) : t.length = p.length + rest.length := by
  induction p generalizing t with
  | nil => simp [← Option.some.inj h]
  | cons a p ih =>
    cases t with
    | nil => cases h
    | cons b t =>
      rw [Text.dropPrefixIgnoringCase?] at h
      split at h
      · rw [List.length_cons, List.length_cons, ih h]
        omega
      · cases h

/-- Behind its opening mark, a name that is followed by something is found whatever comes later. -/
theorem head?_dropPrefixIgnoringCase?_append {p : Text} (h : p.length < t.length) (rest : Text) :
    (Text.dropPrefixIgnoringCase? p (t ++ rest)).bind List.head? =
      (Text.dropPrefixIgnoringCase? p t).bind List.head? := by
  rw [dropPrefixIgnoringCase?_append (Nat.le_of_lt h)]
  cases hdrop : Text.dropPrefixIgnoringCase? p t with
  | none => rfl
  | some u =>
    have hlength := length_of_dropPrefixIgnoringCase? hdrop
    cases u with
    | nil =>
      rw [List.length_nil] at hlength
      omega
    | cons c u => rfl

theorem startsEndTag_append (h : element.length + 2 < t.length) (rest : Text) :
    startsEndTag element (t ++ rest) = startsEndTag element t := by
  by_cases hmark : ∃ u, t = '<' :: '/' :: u
  · obtain ⟨u, rfl⟩ := hmark
    rw [List.length_cons, List.length_cons] at h
    rw [List.cons_append, List.cons_append, startsEndTag, startsEndTag,
      head?_dropPrefixIgnoringCase?_append (by omega)]
  · have hother : ∀ u, t ++ rest ≠ '<' :: '/' :: u := by
      intro u hu
      match t with
      | [] => cases h
      | [_] => rw [List.length_singleton] at h; omega
      | c :: d :: t =>
        have hc := List.cons.inj hu
        have hd := List.cons.inj hc.2
        exact hmark ⟨t, by rw [hc.1, hd.1]⟩
    rw [startsEndTag.eq_2 _ _ hother, startsEndTag.eq_2 _ _ fun u hu => hmark ⟨u, hu⟩]

theorem length_closing (element : Text) : (closing element).length = element.length + 3 := by
  simp [closing]

/-- Where a text stands in front of an end tag, no more than this counts for whether one starts. -/
theorem startsEndTag_append_closing (element t rest : Text) :
    startsEndTag element (t ++ closing element ++ rest) =
      startsEndTag element (t ++ closing element) := by
  refine startsEndTag_append ?_ rest
  rw [List.length_append, length_closing]
  omega

theorem dropPrefixIgnoringCase?_append_self (p rest : Text) :
    Text.dropPrefixIgnoringCase? p (p ++ rest) = some rest := by
  induction p with
  | nil => rfl
  | cons a p ih => rw [List.cons_append, Text.dropPrefixIgnoringCase?, if_pos rfl, ih]

theorem startsEndTag_closing (element rest : Text) :
    startsEndTag element (closing element ++ rest) = true := by
  rw [closing, List.cons_append, List.cons_append, startsEndTag, List.append_assoc,
    dropPrefixIgnoringCase?_append_self]
  rfl

/-! ## Text up to an end tag -/

theorem untilEndTag_closing (element rest : Text) :
    untilEndTag element (closing element ++ rest) = ([], closing element ++ rest) := by
  have hends := startsEndTag_closing element rest
  rw [closing, List.cons_append] at hends ⊢
  rw [untilEndTag, if_pos hends]

theorem untilEndTag_append (h : untilEndTag element (t ++ closing element) = (t, closing element))
    (rest : Text) :
    untilEndTag element (t ++ closing element ++ rest) = (t, closing element ++ rest) := by
  induction t with
  | nil => exact untilEndTag_closing element rest
  | cons c t ih =>
    have hends := startsEndTag_append_closing element (c :: t) rest
    rw [List.cons_append, List.cons_append] at hends
    rw [List.cons_append, untilEndTag] at h
    rw [List.cons_append, List.cons_append, untilEndTag, hends]
    split at h
    next => exact absurd (congrArg Prod.fst h) (List.cons_ne_nil c t).symm
    next hopen =>
      obtain ⟨htext, hrest⟩ := Prod.mk.inj h
      rw [if_neg hopen, ih (Prod.ext (List.cons.inj htext).2 hrest)]

theorem untilEndTag_of_not_mem (h : '<' ∉ t) (rest : Text) :
    untilEndTag element (t ++ closing element ++ rest) = (t, closing element ++ rest) := by
  induction t with
  | nil => exact untilEndTag_closing element rest
  | cons c t ih =>
    rw [List.mem_cons, not_or] at h
    have hends : startsEndTag element (c :: (t ++ closing element ++ rest)) = false :=
      startsEndTag.eq_2 _ _ fun v hv => h.1 (List.cons.inj hv).1.symm
    rw [List.cons_append, List.cons_append, untilEndTag, hends, if_neg Bool.false_ne_true,
      ih h.2]

/-! ## Scripts -/

theorem afterScriptName?_append (h : "script".toList.length < t.length) (rest : Text) :
    (afterScriptName? (t ++ rest)).isSome = (afterScriptName? t).isSome := by
  rw [afterScriptName?, afterScriptName?, dropPrefixIgnoringCase?_append (Nat.le_of_lt h)]
  cases hdrop : Text.dropPrefixIgnoringCase? "script".toList t with
  | none => rfl
  | some u =>
    have hlength := length_of_dropPrefixIgnoringCase? hdrop
    cases u with
    | nil =>
      rw [List.length_nil] at hlength
      omega
    | cons c u =>
      rw [Option.map_some, List.cons_append]
      dsimp only
      split <;> rfl

theorem startsEndTag_scriptEnd (t rest : Text) :
    startsEndTag "script".toList (t ++ scriptEnd ++ rest) =
      startsEndTag "script".toList (t ++ scriptEnd) :=
  startsEndTag_append_closing _ t rest

theorem afterScriptName?_scriptEnd (t rest : Text) :
    (afterScriptName? (t ++ scriptEnd ++ rest)).isSome =
      (afterScriptName? (t ++ scriptEnd)).isSome := by
  refine afterScriptName?_append ?_ rest
  rw [List.length_append, scriptEnd, length_closing]
  omega

/-- Where the text of a script goes on behind a character, if it does. An end tag may start with the
character (`ends`), and the name of a script may stand behind it (`named`). -/
def scriptNext? (c : Char) (ends named : Bool) : ScriptSpot → Option ScriptSpot
  | .body => if ends then none else some .body
  | .opening hyphens =>
    if c = '-' then some (if hyphens = 0 then .opening 1 else .comment 2)
    else if ends then none
    else some .body
  | .comment hyphens =>
    if ends then none
    else if c = '-' then some (.comment (min 2 (hyphens + 1)))
    else if c = '>' ∧ hyphens = 2 then some .body
    else if c = '<' ∧ named then some (.nested 0)
    else some (.comment 0)
  | .nested hyphens =>
    if c = '-' then some (.nested (min 2 (hyphens + 1)))
    else if c = '>' ∧ hyphens = 2 then some .body
    else if ends then some (.comment 0)
    else some (.nested 0)

/-- The places of a script where a bracket with an exclamation mark is read in one. -/
def ScriptSpot.opensComment : ScriptSpot → Bool
  | body | opening _ => true
  | comment _ | nested _ => false

theorem scriptFrom_of_bang {spot : ScriptSpot} (h : spot.opensComment = true) (u : Text) :
    scriptFrom spot ('<' :: '!' :: u) =
      ('<' :: '!' :: (scriptFrom (.opening 0) u).1, (scriptFrom (.opening 0) u).2) := by
  have hends : startsEndTag "script".toList ('<' :: '!' :: u) = false := rfl
  cases spot with
  | body => rw [scriptFrom, hends, if_neg Bool.false_ne_true]
  | opening hyphens => rw [scriptFrom, hends, if_neg (by decide), if_neg Bool.false_ne_true]
  | comment hyphens => cases h
  | nested hyphens => cases h

theorem scriptFrom_cons {spot : ScriptSpot}
    (h : spot.opensComment = true → ∀ u, c = '<' → t ≠ '!' :: u) :
    scriptFrom spot (c :: t) =
      (scriptNext? c (startsEndTag "script".toList (c :: t)) (afterScriptName? t).isSome spot).elim
        ([], c :: t) fun next => (c :: (scriptFrom next t).1, (scriptFrom next t).2) := by
  cases spot with
  | body =>
    rw [scriptFrom, scriptNext?]
    · split <;> rfl
    · exact h rfl
  | opening hyphens =>
    rw [scriptFrom, scriptNext?]
    · split
      · rfl
      · split <;> rfl
    · exact h rfl
  | comment hyphens | nested hyphens =>
    rw [scriptFrom, scriptNext?]
    repeat' split
    all_goals rfl

theorem scriptFrom_scriptEnd {spot : ScriptSpot} (hspot : ∀ hyphens, spot ≠ .nested hyphens)
    (rest : Text) : scriptFrom spot (scriptEnd ++ rest) = ([], scriptEnd ++ rest) := by
  have hends : startsEndTag "script".toList ('<' :: ('/' :: ("script".toList ++ '>' :: rest))) =
      true := startsEndTag_closing "script".toList rest
  have hplain : ∀ u, '<' = '<' → '/' :: ("script".toList ++ '>' :: rest) ≠ '!' :: u :=
    fun u _ hu => absurd (List.cons.inj hu).1 (by decide)
  change scriptFrom spot ('<' :: ('/' :: ("script".toList ++ '>' :: rest))) = _
  rw [scriptFrom_cons fun _ => hplain, hends]
  cases spot with
  | body | opening | comment => rfl
  | nested hyphens => exact absurd rfl (hspot hyphens)

/-- A script that ends at its end tag does so whatever follows the tag. -/
theorem scriptFrom_append (rest : Text) : (t : Text) → (spot : ScriptSpot) →
    scriptFrom spot (t ++ scriptEnd) = (t, scriptEnd) →
      scriptFrom spot (t ++ scriptEnd ++ rest) = (t, scriptEnd ++ rest)
  | [], spot, h => by
    refine scriptFrom_scriptEnd ?_ rest
    rintro hyphens rfl
    change scriptFrom (.nested hyphens) ('<' :: scriptEnd.tail) = _ at h
    rw [scriptFrom, if_neg (by decide), if_neg (by simp)] at h
    split at h <;> exact List.cons_ne_nil _ _ (congrArg Prod.fst h)
  | c :: t, spot, h => by
    have hends := startsEndTag_scriptEnd (c :: t) rest
    rw [List.cons_append] at h
    rw [List.cons_append, List.cons_append] at hends ⊢
    by_cases hbang : spot.opensComment = true ∧ c = '<' ∧ ∃ u, t = '!' :: u
    · obtain ⟨hspot, rfl, u, rfl⟩ := hbang
      rw [List.cons_append, scriptFrom_of_bang hspot] at h
      obtain ⟨htext, hrest⟩ := Prod.mk.inj h
      have hu := (List.cons.inj (List.cons.inj htext).2).2
      rw [List.cons_append, List.cons_append, scriptFrom_of_bang hspot,
        scriptFrom_append rest u (.opening 0) (Prod.ext hu hrest)]
    have hplain (more : Text) : spot.opensComment = true →
        ∀ u, c = '<' → t ++ scriptEnd ++ more ≠ '!' :: u := by
      intro hspot u hc hu
      cases t with
      | nil => exact absurd (List.cons.inj hu).1 (by decide)
      | cons d t => exact hbang ⟨hspot, hc, t, by rw [(List.cons.inj hu).1]⟩
    rw [scriptFrom_cons (by simpa using hplain [])] at h
    rw [scriptFrom_cons (hplain rest), hends, afterScriptName?_scriptEnd]
    -- Both texts go on from the same place, since the end tag decides what is ahead.
    cases hnext : scriptNext? c (startsEndTag "script".toList (c :: (t ++ scriptEnd)))
        (afterScriptName? (t ++ scriptEnd)).isSome spot with
    | none =>
      rw [hnext] at h
      cases congrArg Prod.fst h
    | some next =>
      rw [hnext] at h
      obtain ⟨htext, hrest⟩ := Prod.mk.inj h
      rw [Option.elim_some,
        scriptFrom_append rest t next (Prod.ext (List.cons.inj htext).2 hrest)]
termination_by t => t.length

/-! ## The next tokens -/

theorem endTagFrom_closing (name : Text) (h : IsTagName name = true) (rest : Text) :
    endTagFrom (closing name ++ rest) = ([.endTag (Tag.plain (String.ofList name))], rest) := by
  have hread := tag?_append (isTag_bare (e := ⟨name, []⟩)
    ⟨h, List.forall_mem_nil _, List.nodup_nil⟩) rest
  have hbare : (bare ⟨name, []⟩).name ++ (attributesText (bare ⟨name, []⟩).attributes ++
      '>' :: rest) = name ++ ['>'] ++ rest := by simp [bare, attributesText]
  rw [hbare] at hread
  rw [closing, List.cons_append, List.cons_append, endTagFrom, hread]
  rfl

theorem lex_script (h : IsScriptText t) (rules : ContentRules) (rest : Text) :
    lex .script rules (t ++ scriptEnd ++ rest) =
      (charsToken t ++ [.endTag (Tag.plain "script")], rest) := by
  have hend : endTagFrom (scriptEnd ++ rest) = ([.endTag (Tag.plain "script")], rest) :=
    endTagFrom_closing "script".toList (by decide) rest
  rw [lex, scriptFrom_append rest t .body h.2]
  simp only [hend, withLineFeeds_eq_self h.1.1, withoutNull_eq_self h.1.2]

theorem lex_rawtext {name : String} (hname : IsTagName name.toList = true)
    (h : IsRawText name.toList t) (rules : ContentRules) (rest : Text) :
    lex (.rawtext name) rules (t ++ closing name.toList ++ rest) =
      (charsToken t ++ [.endTag (Tag.plain name)], rest) := by
  rw [lex, untilEndTag_append h.2]
  simp only [endTagFrom_closing _ hname, String.ofList_toList, withLineFeeds_eq_self h.1.1,
    withoutNull_eq_self h.1.2]

theorem lex_rcdata {name : String} (hname : IsTagName name.toList = true) (h : IsPlainText t)
    (rules : ContentRules) (rest : Text) :
    lex (.rcdata name) rules (escapeText .html t ++ closing name.toList ++ rest) =
      (charsToken t ++ [.endTag (Tag.plain name)], rest) := by
  have hmark : '<' ∉ escapeText .html t :=
    not_mem_flatMap writes_escapeTextChar (by decide) (by decide) t
  rw [lex, untilEndTag_of_not_mem hmark]
  simp only [endTagFrom_closing _ hname, String.ofList_toList, startsUnterminated_escapeText,
    decode_escapeText h.1, withoutNull_eq_self h.2]
  rfl

/-! ## Text without end tags -/

/-- A text without the opening of an end tag is read again as it is. -/
theorem isRawText_of_not_infix (element : Text) (ht : IsPlainText t) (h : ¬['<', '/'] <:+: t) :
    IsRawText element t := by
  refine ⟨ht, ?_⟩
  have hfrom : ∀ u : Text, ¬['<', '/'] <:+: u →
      untilEndTag element (u ++ closing element) = (u, closing element) := by
    intro u hu
    induction u with
    | nil => simpa using untilEndTag_closing element []
    | cons c u ih =>
      rw [List.infix_cons_iff, not_or] at hu
      have hends : startsEndTag element (c :: (u ++ closing element)) = false := by
        rw [startsEndTag.eq_2]
        intro v hv
        obtain ⟨rfl, htail⟩ := List.cons.inj hv
        cases u with
        | nil => cases htail
        | cons d u =>
          obtain ⟨rfl, -⟩ := List.cons.inj htail
          exact hu.1 ⟨u, rfl⟩
      rw [List.cons_append, untilEndTag, hends, if_neg Bool.false_ne_true, ih hu.2]
  exact hfrom t h

end Html

end PrettyPayload
