import PrettyPayload.Html.Document
import PrettyPayload.Proofs.Html.Lexer

/-!
# How a page is told from a fragment

`looksLikeDocument` goes through the characters of a text, and the lexer cuts it into tokens. What
the first of these tokens is besides blanks and comments (`firstToken?`) decides whether there is a
page to be read.

`looksLikeDocument_iff` compares the two. A text is taken apart into the blanks and comments it
leads with and the rest. If each of these comments goes on to the first end mark for the lexer, too,
then a text is taken for a page exactly where the first token opens one and stands at the start of
the rest. It may also stand behind something else that the lexer makes a comment of, or a blank:
then the page is not seen.
-/

namespace PrettyPayload

namespace Html

variable {c : Char} {t u : Text} {token : Token}

/-! ## Definitions -/

namespace Token

def isIdle : Token → Bool
  | .comment _ => true
  | .chars t => t.all Text.isAsciiBlank
  | .fault => true
  | _ => false

def opensPage : Token → Bool
  | .doctype _ => true
  | .startTag tag => ["html", "head", "body"].contains tag.name
  | _ => false

end Token

/-- How a text is read up to the first token that counts. -/
def leadRules : ContentRules := ⟨false, false⟩

def firstToken? (t : Text) : Option Token :=
  if t = [] then none
  else
    let (tokens, rest) := lexData leadRules t
    match tokens.find? (!·.isIdle) with
    | some token => some token
    | none => if _h : rest.length < t.length then firstToken? rest else none
termination_by t.length

/-- Blanks and comments, which for the lexer go on to their first end mark. -/
inductive IsLead : Text → Prop
  | nil : IsLead []
  | blank {c : Char} {t : Text} (hc : Text.isAsciiBlank c = true) (ht : IsLead t) : IsLead (c :: t)
  | comment {comment t : Text} (hcomment : staysInComment .start comment = true) (ht : IsLead t) :
      IsLead ("<!--".toList ++ (comment ++ ("-->".toList ++ t)))

/-- What stands behind all blanks and comments at the start of a text. -/
structure EndsLead (t : Text) : Prop where
  blank : ∀ c, t.head? = some c → Text.isAsciiBlank c = false
  comment : ¬"<!--".toList <+: t

def startsIdle (t : Text) : Bool := (lexData leadRules t).1.all Token.isIdle

def startsName (name t : Text) : Bool :=
  match Text.dropPrefixIgnoringCase? name t with
  | none => false
  | some [] => true
  | some (c :: _) => Text.isAsciiBlank c || c = '>' || c = '/'

/-- Whether a text starts with a document type or a tag that starts a page. -/
def startsPage (t : Text) : Bool :=
  (Text.dropPrefixIgnoringCase? "<!doctype".toList t).isSome ||
    documentTags.any fun tag => startsName tag t

/-! ## The front of a text -/

theorem looksLikeDocument_eq (h : t.head? ≠ some '\uFEFF') :
    looksLikeDocument t = (skipProlog? t).any startsPage := by
  have hmark : t.dropWhile (· = '\uFEFF') = t := by
    cases t with
    | nil => rfl
    | cons c t =>
      have hc : c ≠ '\uFEFF' := fun hc => h (congrArg some hc)
      simp [hc]
  rw [looksLikeDocument, hmark]
  cases skipProlog? t <;> rfl

theorem skipProlog?_eq (t : Text) :
    skipProlog? t =
      match Text.dropPrefix? "<!--".toList (t.dropWhile Text.isAsciiBlank) with
      | none => some (t.dropWhile Text.isAsciiBlank)
      | some comment =>
        (Text.breakAt? "-->".toList comment).bind fun found => skipProlog? found.2 := by
  rw [skipProlog?]
  cases hdrop : Text.dropPrefix? "<!--".toList (t.dropWhile Text.isAsciiBlank) with
  | none => rfl
  | some comment =>
    dsimp only
    cases hbreak : Text.breakAt? "-->".toList comment with
    | none => rfl
    | some found =>
      have hle := (List.dropWhile_suffix Text.isAsciiBlank (l := t)).length_le
      rw [Text.dropPrefix?_eq_some_iff.1 hdrop, Text.eq_append_of_breakAt? hbreak] at hle
      simp only [List.length_append] at hle
      have hmark : "-->".toList.length = 3 := rfl
      exact dif_pos (by omega)

theorem not_infix_of_mem_commentNext? (spot : CommentSpot) (c : Char) :
    ∀ found ∈ commentNext? c spot, ¬['-', '-', '>'] <:+: found.2.held ++ t →
      ¬['-', '-', '>'] <:+: found.1 ++ (found.2.held ++ t) := by
  cases spot
  all_goals
    rw [commentNext?]
    repeat' split
    all_goals simp_all [CommentSpot.held, List.infix_cons_iff, Ne.symm]

/-- A comment that the lexer goes on reading has no end mark in it. -/
theorem not_infix_of_staysInComment {spot : CommentSpot} (h : staysInComment spot t = true) :
    ¬['-', '-', '>'] <:+: spot.held ++ t := by
  induction t generalizing spot with
  | nil => cases spot <;> decide
  | cons c t ih =>
    rw [staysInComment_cons, Option.any_eq_true] at h
    obtain ⟨⟨text, next⟩, hnext, hstays⟩ := h
    have hsplit : spot.held ++ c :: t = text ++ (next.held ++ t) := by
      rw [← List.append_assoc, append_held_of_mem_commentNext? spot c _ hnext, List.append_assoc,
        List.singleton_append]
    rw [hsplit]
    exact not_infix_of_mem_commentNext? spot c _ hnext (ih hstays)

theorem skipProlog?_append {lead : Text} (h : IsLead lead) (t : Text) :
    skipProlog? (lead ++ t) = skipProlog? t := by
  induction h with
  | nil => rfl
  | @blank c lead hc _ ih =>
    rw [← ih, List.cons_append, skipProlog?_eq, skipProlog?_eq, List.dropWhile_cons_of_pos hc]
  | @comment comment lead hcomment _ ih =>
    have hnot : ¬"-->".toList <:+: comment := not_infix_of_staysInComment hcomment
    have hbreak := Text.breakAt?_append_of_not_infix (lead ++ t) (by decide) (by decide) hnot
    have hskip : ("<!--".toList ++ (comment ++ ("-->".toList ++ (lead ++ t)))).dropWhile
        Text.isAsciiBlank = "<!--".toList ++ (comment ++ ("-->".toList ++ (lead ++ t))) := rfl
    simp only [List.append_assoc]
    rw [skipProlog?_eq, hskip, Text.dropPrefix?_append]
    simp only [hbreak, Option.bind_some, ih]

theorem skipProlog?_of_endsLead (h : EndsLead t) : skipProlog? t = some t := by
  have hskip : t.dropWhile Text.isAsciiBlank = t := by
    cases t with
    | nil => rfl
    | cons c t => rw [List.dropWhile_cons_of_neg (by simp [h.blank c rfl])]
  rw [skipProlog?_eq, hskip, Text.dropPrefix?_eq_none_iff.2 h.comment]

/-! ## The first token -/

/-- What is read first decides, unless it is passed over. -/
theorem firstToken?_eq {tokens : List Token} (ht : t ≠ []) (h : lexData leadRules t = (tokens, u))
    (hu : u.length < t.length) :
    firstToken? t = (tokens.find? (!·.isIdle)).or (firstToken? u) := by
  rw [firstToken?, if_neg ht, h]
  dsimp only
  cases tokens.find? (!·.isIdle) with
  | some token => rfl
  | none => exact dif_pos hu

theorem firstToken?_comment {comment : Text} (h : staysInComment .start comment = true) (t : Text) :
    firstToken? ("<!--".toList ++ (comment ++ ("-->".toList ++ t))) = firstToken? t := by
  have hread := commentFrom_append h t
  have hlex : lexData leadRules ("<!--".toList ++ (comment ++ ("-->".toList ++ t))) =
      ([commentToken comment], t) := by
    change lexMarkup false ('!' :: ("--".toList ++ (comment ++ ("-->".toList ++ t)))) = _
    rw [lexMarkup, lexDeclaration, Text.dropPrefix?_append, ← List.append_assoc]
    simp only [hread, CommentSpot.held, List.nil_append]
  rw [firstToken?_eq (List.append_ne_nil_of_left_ne_nil (by decide) _) hlex]
  · rfl
  · simp only [List.length_append]
    have hmark : "<!--".toList.length = 4 := rfl
    omega

theorem find?_run (unterminated : Bool) (t : Text) :
    ((if unterminated then [Token.fault] else []) ++ charsToken t).find?
        (fun token => !token.isIdle) =
      if t.all Text.isAsciiBlank then none else some (.chars t) := by
  cases t with
  | nil => cases unterminated <;> rfl
  | cons c t =>
    cases unterminated <;>
      cases h : (c :: t).all Text.isAsciiBlank <;>
        simp [charsToken, Token.isIdle, h]

/-- Character data is read up to the next markup. -/
theorem lexData_run (hc : endsRun c = false) (t : Text) :
    lexData leadRules (c :: t) =
      ((if startsUnterminated (c :: t.takeWhile fun c => !endsRun c) then [.fault] else []) ++
        charsToken (decode false (c :: t.takeWhile fun c => !endsRun c)),
        t.dropWhile fun c => !endsRun c) := by
  have hnull : c ≠ '\x00' := by
    rintro rfl
    cases hc
  have hmark : c ≠ '<' := by
    rintro rfl
    cases hc
  have hrun : (c :: t).takeWhile (fun c => !endsRun c) = c :: t.takeWhile fun c => !endsRun c := by
    rw [List.takeWhile_cons_of_pos (by rw [hc]; rfl)]
  have hrest : (c :: t).dropWhile (fun c => !endsRun c) = t.dropWhile fun c => !endsRun c := by
    rw [List.dropWhile_cons_of_pos (by rw [hc]; rfl)]
  rw [lexData]
  · simp only [hrun, hrest]
    rfl
  · exact List.cons_ne_nil c t
  · exact fun _ h => hnull (List.cons.inj h).1
  · exact fun _ h => hmark (List.cons.inj h).1

/-- Character data is passed over if there are only blanks in it when its references are
replaced. -/
theorem firstToken?_run (hc : endsRun c = false) (t : Text) :
    firstToken? (c :: t) =
      if (decode false (c :: t.takeWhile fun c => !endsRun c)).all Text.isAsciiBlank then
        firstToken? (t.dropWhile fun c => !endsRun c)
      else some (.chars (decode false (c :: t.takeWhile fun c => !endsRun c))) := by
  rw [firstToken?_eq (List.cons_ne_nil c t) (lexData_run hc t), find?_run]
  · split <;> rfl
  · exact Nat.lt_succ_of_le (List.dropWhile_suffix _).length_le

theorem all_decode_cons (hc : Text.isAsciiBlank c = true) (t : Text) :
    (decode false (c :: t)).all Text.isAsciiBlank = (decode false t).all Text.isAsciiBlank := by
  have hamp : c ≠ '&' := by
    rintro rfl
    cases hc
  by_cases hreturn : c = '\r'
  · subst hreturn
    by_cases hfeed : ∃ u, t = '\n' :: u
    · obtain ⟨u, rfl⟩ := hfeed
      rw [decode_cons_of_ne (c := '\n') (by decide) (by decide), decode]
    · rw [decode]
      · rfl
      · exact fun u h => hfeed ⟨u, h⟩
  · rw [decode_cons_of_ne hamp hreturn, List.all_cons, hc, Bool.true_and]

theorem opensPage_firstToken?_blank (hc : Text.isAsciiBlank c = true) (t : Text) :
    (firstToken? (c :: t)).map Token.opensPage = (firstToken? t).map Token.opensPage := by
  have hends {c : Char} (hc : Text.isAsciiBlank c = true) : endsRun c = false := by
    simp only [Text.isAsciiBlank, Bool.or_eq_true, decide_eq_true_eq] at hc
    rcases hc with (((rfl | rfl) | rfl) | rfl) | rfl <;> rfl
  have hnil : (decode false []).all Text.isAsciiBlank = true := by rw [decode]; rfl
  rw [firstToken?_run (hends hc), all_decode_cons hc]
  cases t with
  | nil => simp [hnil]
  | cons d t =>
    cases hd : endsRun d with
    | true =>
      rw [List.takeWhile_cons_of_neg (by rw [hd]; decide),
        List.dropWhile_cons_of_neg (by rw [hd]; decide), if_pos hnil]
    | false =>
      rw [List.takeWhile_cons_of_pos (by rw [hd]; rfl),
        List.dropWhile_cons_of_pos (by rw [hd]; rfl), firstToken?_run hd]
      split <;> rfl

theorem opensPage_firstToken?_append {lead : Text} (h : IsLead lead) (t : Text) :
    (firstToken? (lead ++ t)).map Token.opensPage = (firstToken? t).map Token.opensPage := by
  induction h with
  | nil => rfl
  | blank hc _ ih => rw [List.cons_append, opensPage_firstToken?_blank hc, ih]
  | comment hcomment _ ih =>
    simp only [List.append_assoc]
    rw [firstToken?_comment hcomment, ih]

/-! ## Names of tags -/

def capitals : Text := (List.range' 65 26).map Char.ofNat

theorem lowerChar_eq_or (c : Char) : Text.lowerChar c = c ∨ c ∈ capitals := by
  rw [Text.lowerChar]
  split
  next h =>
    refine Or.inr (List.mem_map.2 ⟨c.toNat, ?_, Char.ofNat_toNat c⟩)
    have hfirst : 65 ≤ c.toNat := UInt32.le_iff_toNat_le.1 h.1
    have hlast : c.toNat ≤ 90 := UInt32.le_iff_toNat_le.1 h.2
    rw [List.mem_range'_1]
    omega
  next => exact Or.inl rfl

theorem endsTagName_lowerChar (c : Char) : endsTagName (Text.lowerChar c) = endsTagName c := by
  rcases lowerChar_eq_or c with h | h
  · rw [h]
  · have hall : ∀ c ∈ capitals, endsTagName (Text.lowerChar c) = endsTagName c :=
      Text.forall_mem_of_all (by decide)
    exact hall c h

theorem startsName_iff {name : Text} (hname : ∀ c ∈ name, endsTagName c = false) :
    startsName name t = true ↔
      Text.lower (t.takeWhile fun c => !endsTagName c) = Text.lower name := by
  induction name generalizing t with
  | nil =>
    cases t with
    | nil => exact iff_of_true rfl rfl
    | cons c t =>
      have hends : startsName [] (c :: t) = endsTagName c := by
        simp [startsName, Text.dropPrefixIgnoringCase?, endsTagName, isSpace, Bool.or_right_comm]
      rw [hends]
      cases h : endsTagName c <;> simp [h, Text.lower]
  | cons a name ih =>
    rw [List.forall_mem_cons] at hname
    cases t with
    | nil => simp [startsName, Text.dropPrefixIgnoringCase?, Text.lower]
    | cons c t =>
      by_cases hsame : Text.lowerChar a = Text.lowerChar c
      · have hends : endsTagName c = false := by
          rw [← endsTagName_lowerChar, ← hsame, endsTagName_lowerChar, hname.1]
        have hstep : startsName (a :: name) (c :: t) = startsName name t := by
          rw [startsName, Text.dropPrefixIgnoringCase?, if_pos hsame, startsName]
        rw [hstep, ih hname.2, List.takeWhile_cons_of_pos (by rw [hends]; rfl), Text.lower,
          Text.lower, Text.lower, Text.lower, List.map_cons, List.map_cons, hsame, List.cons.injEq,
          and_iff_right rfl]
      · have hstep : startsName (a :: name) (c :: t) = false := by
          rw [startsName, Text.dropPrefixIgnoringCase?, if_neg hsame]
        rw [hstep]
        refine iff_of_false Bool.false_ne_true fun h => ?_
        cases hends : endsTagName c with
        | true =>
          rw [List.takeWhile_cons_of_neg (by rw [hends]; decide)] at h
          cases h
        | false =>
          rw [List.takeWhile_cons_of_pos (by rw [hends]; rfl)] at h
          exact hsame (List.cons.inj h).1.symm

theorem nameOf_eq_iff {name : String} (hname : ∀ c ∈ name.toList, c ≠ '\x00' ∧ c ≠ replacement) :
    nameOf t = name ↔ Text.lower t = name.toList := by
  rw [nameOf, ← String.toList_inj, String.toList_ofList]
  constructor
  · intro h
    rw [withoutNull_eq_self] at h
    · exact h
    · intro hnull
      have hmem : replacement ∈ withoutNull (Text.lower t) :=
        List.mem_map.2 ⟨'\x00', hnull, if_pos rfl⟩
      exact (hname _ (h ▸ hmem)).2 rfl
  · intro h
    rw [h]
    exact withoutNull_eq_self fun hnull => (hname _ hnull).1 rfl

theorem name_of_tag? {tag : Tag} (h : tag? t = some (tag, u)) :
    tag.name = nameOf (t.takeWhile fun c => !endsTagName c) := by
  obtain ⟨found, -, hmap⟩ := Option.map_eq_some_iff.1 h
  rw [← (Prod.mk.inj hmap).1]

theorem opensPage_of_tag? {tag : Tag} (h : tag? t = some (tag, u)) :
    (Token.startTag tag).opensPage =
      ["html", "head", "body"].any fun name => startsName name.toList t := by
  have hnames : ∀ name ∈ ["html", "head", "body"], tag.name = name ↔
      startsName name.toList t = true := by
    have hall : ∀ name ∈ ["html", "head", "body"], Text.lower name.toList = name.toList ∧
        (name.toList.all fun c => decide (endsTagName c = false)) = true ∧
          (name.toList.all fun c => decide (c ≠ '\x00' ∧ c ≠ replacement)) = true := by decide
    intro name hname
    obtain ⟨hlower, hends, hplain⟩ := hall name hname
    rw [name_of_tag? h, nameOf_eq_iff (Text.forall_mem_of_all hplain),
      startsName_iff (Text.forall_mem_of_all hends), hlower]
  rw [Token.opensPage, Bool.eq_iff_iff, List.contains_iff_mem, List.any_eq_true]
  constructor
  · exact fun hmem => ⟨tag.name, hmem, (hnames _ hmem).1 rfl⟩
  · rintro ⟨name, hname, hstarts⟩
    exact (hnames name hname).2 hstarts ▸ hname

/-! ## What opens a page -/

/-- A character that no capital letter becomes is not another one in another case. -/
theorem lowerChar_ne {d : Char}
    (hd : (capitals.all fun a => decide (Text.lowerChar a ≠ d)) = true) (h : c ≠ d) :
    Text.lowerChar c ≠ d := by
  rcases lowerChar_eq_or c with hc | hc
  · rw [hc]
    exact h
  · exact Text.forall_mem_of_all hd c hc

theorem exists_cons_of_dropPrefixIgnoringCase? {a : Char} {p : Text}
    (h : (Text.dropPrefixIgnoringCase? (a :: p) t).isSome = true) :
    ∃ c u, t = c :: u ∧ Text.lowerChar a = Text.lowerChar c ∧
      (Text.dropPrefixIgnoringCase? p u).isSome = true := by
  cases t with
  | nil => cases h
  | cons c u =>
    rw [Text.dropPrefixIgnoringCase?] at h
    split at h
    next hsame => exact ⟨c, u, rfl, hsame, h⟩
    next => cases h

theorem isLetter_of_startsName {name : Text}
    (hname : name.head?.any (fun a => isLetter (Text.lowerChar a)) = true)
    (h : startsName name t = true) : ∃ c u, t = c :: u ∧ isLetter c = true := by
  cases name with
  | nil => cases hname
  | cons a name =>
    have hdrop : (Text.dropPrefixIgnoringCase? (a :: name) t).isSome = true := by
      cases hnone : Text.dropPrefixIgnoringCase? (a :: name) t with
      | none =>
        rw [startsName, hnone] at h
        cases h
      | some u => rfl
    obtain ⟨c, u, rfl, hsame, -⟩ := exists_cons_of_dropPrefixIgnoringCase? hdrop
    refine ⟨c, u, rfl, ?_⟩
    have ha : isLetter (Text.lowerChar a) = true := hname
    rcases lowerChar_eq_or c with hc | hc
    · rw [← hc, ← hsame, ha]
    · have hall : ∀ c ∈ capitals, isLetter c = true := Text.forall_mem_of_all (by decide)
      exact hall c hc

theorem startsPage_of_head?_ne (h : t.head? ≠ some '<') : startsPage t = false := by
  cases t with
  | nil => rfl
  | cons c t =>
    have hc : Text.lowerChar c ≠ '<' := lowerChar_ne (by decide) fun hc => h (congrArg some hc)
    have hdrop (p : Text) : Text.dropPrefixIgnoringCase? ('<' :: p) (c :: t) = none := by
      rw [Text.dropPrefixIgnoringCase?, if_neg]
      exact fun hsame => hc hsame.symm
    have hname (p : Text) : startsName ('<' :: p) (c :: t) = false := by
      rw [startsName, hdrop]
    have hdoctype := hdrop "!doctype".toList
    simp [startsPage, documentTags, hname]
    exact hdoctype

theorem startsPage_cons (t : Text) :
    startsPage ('<' :: t) =
      ((Text.dropPrefixIgnoringCase? "!doctype".toList t).isSome ||
        ["html", "head", "body"].any fun name => startsName name.toList t) := rfl

theorem lexMarkup_of_isLetter (hc : isLetter c = true) (cdata : Bool) (t : Text) :
    lexMarkup cdata (c :: t) =
      match tag? (c :: t) with
      | some (tag, rest) => ([.startTag tag], rest)
      | none => ([], []) := by
  have hslash : c ≠ '/' := Text.ne_of_class hc rfl
  rw [lexMarkup]
  · exact if_pos hc
  · exact Text.ne_of_class hc rfl
  · exact Text.ne_of_class hc rfl
  · exact fun h _ => hslash h
  · exact fun _ h _ => hslash h
  · exact fun _ _ h _ => hslash h

/-- What starts a page is read as the token that opens it, unless the text ends in it. -/
theorem lexData_of_startsPage (h : startsPage t = true) :
    (∃ token rest, lexData leadRules t = ([token], rest) ∧ token.opensPage = true) ∨
      lexData leadRules t = ([], []) := by
  cases t with
  | nil => cases h
  | cons c t =>
    have hc : c = '<' := by
      refine Classical.byContradiction fun hc => ?_
      have hhead : (c :: t).head? ≠ some '<' := fun h => hc (Option.some.inj h)
      rw [startsPage_of_head?_ne hhead] at h
      cases h
    subst hc
    change (∃ token rest, lexMarkup false t = ([token], rest) ∧ token.opensPage = true) ∨
      lexMarkup false t = ([], [])
    rw [startsPage_cons, Bool.or_eq_true] at h
    rcases h with hdoctype | hname
    · obtain ⟨c, t, rfl, hsame, hsome⟩ := exists_cons_of_dropPrefixIgnoringCase? hdoctype
      have hc : c = '!' := by
        refine Classical.byContradiction fun hc => ?_
        exact lowerChar_ne (by decide) hc hsame.symm
      subst hc
      have hdash : Text.dropPrefix? "--".toList t = none := by
        obtain ⟨c, u, rfl, hsame, -⟩ := exists_cons_of_dropPrefixIgnoringCase? hsome
        rw [Text.dropPrefix?_eq_none_iff]
        intro hbegins
        obtain rfl := (List.cons_prefix_cons.1 hbegins).1
        exact absurd hsame (by decide)
      obtain ⟨u, hu⟩ := Option.isSome_iff_exists.1 hsome
      have hdrop : Text.dropPrefixIgnoringCase? "doctype".toList t = some u := hu
      refine Or.inl ⟨.doctype (doctypeFrom u).1, (doctypeFrom u).2, ?_, rfl⟩
      rw [lexMarkup, lexDeclaration, hdash, hdrop]
    · obtain ⟨name, hmem, hstarts⟩ := List.any_eq_true.1 hname
      have hall : ∀ name ∈ ["html", "head", "body"],
          name.toList.head?.any (fun a => isLetter (Text.lowerChar a)) = true := by decide
      obtain ⟨c, u, rfl, hc⟩ := isLetter_of_startsName (hall name hmem) hstarts
      rw [lexMarkup_of_isLetter hc]
      cases htag : tag? (c :: u) with
      | none => exact Or.inr rfl
      | some found =>
        obtain ⟨tag, rest⟩ := found
        exact Or.inl ⟨.startTag tag, rest, rfl, (opensPage_of_tag? htag).trans hname⟩

theorem startsPage_of_lexMarkup (h : token ∈ (lexMarkup false t).1)
    (hopens : token.opensPage = true) : startsPage ('<' :: t) = true := by
  have hnone {tokens : List Token} (hall : (tokens.all fun token => !token.opensPage) = true)
      (h : token ∈ tokens) : startsPage ('<' :: t) = true := by
    have := List.all_eq_true.1 hall token h
    rw [hopens] at this
    cases this
  unfold lexMarkup at h
  split at h
  next u =>
    unfold lexDeclaration at h
    split at h
    next => exact hnone rfl h
    next =>
      split at h
      next v hdoctype =>
        have hdrop : Text.dropPrefixIgnoringCase? "!doctype".toList ('!' :: u) = some v := hdoctype
        rw [startsPage_cons, hdrop]
        rfl
      next => exact hnone rfl h
  next => exact hnone rfl h
  next => exact hnone rfl h
  next => exact hnone rfl h
  next =>
    repeat' split at h
    all_goals exact hnone rfl h
  next c u _ _ _ _ _ =>
    split at h
    next hc =>
      split at h
      next tag rest htag =>
        obtain rfl := List.mem_singleton.1 h
        rw [opensPage_of_tag? htag] at hopens
        rw [startsPage_cons, hopens, Bool.or_true]
      next => exact hnone rfl h
    next =>
      split at h
      · exact hnone rfl h
      · exact hnone rfl h
  next => exact hnone rfl h

theorem startsPage_of_lexData (h : token ∈ (lexData leadRules t).1)
    (hopens : token.opensPage = true) : startsPage t = true := by
  unfold lexData at h
  split at h
  next => cases h
  next =>
    obtain rfl := List.mem_singleton.1 h
    cases hopens
  next rest => exact startsPage_of_lexMarkup h hopens
  next =>
    rcases List.mem_append.1 h with h | h
    · split at h
      next =>
        obtain rfl := List.mem_singleton.1 h
        cases hopens
      next => cases h
    · change token ∈ charsToken _ at h
      unfold charsToken at h
      split at h
      next => cases h
      next =>
        obtain rfl := List.mem_singleton.1 h
        cases hopens

theorem isIdle_of_opensPage (h : token.opensPage = true) : token.isIdle = false := by
  cases token with
  | doctype d => rfl
  | startTag tag => rfl
  | _ => cases h

/-- A text starts a page exactly where its first token opens one and nothing was passed over before
it. -/
theorem startsPage_iff (htoken : firstToken? t = some token) :
    startsPage t = true ↔ token.opensPage = true ∧ startsIdle t = false := by
  constructor
  · intro h
    rw [firstToken?] at htoken
    split at htoken
    next => cases htoken
    next =>
      rcases lexData_of_startsPage h with ⟨opening, rest, hlex, hopens⟩ | hlex
      · have hidle := isIdle_of_opensPage hopens
        rw [hlex] at htoken
        simp only [List.find?_cons, hidle, Bool.not_false] at htoken
        obtain rfl := Option.some.inj htoken
        refine ⟨hopens, ?_⟩
        rw [startsIdle, hlex, List.all_cons, hidle, Bool.false_and]
      · rw [hlex] at htoken
        have hnil : firstToken? [] = none := by rw [firstToken?, if_pos rfl]
        simp only [List.find?_nil, hnil] at htoken
        split at htoken <;> cases htoken
  · rintro ⟨hopens, hidle⟩
    rw [firstToken?] at htoken
    split at htoken
    next => cases htoken
    next =>
      cases hfind : (lexData leadRules t).1.find? (!·.isIdle) with
      | some found =>
        simp only [hfind] at htoken
        obtain rfl := Option.some.inj htoken
        exact startsPage_of_lexData (List.mem_of_find?_eq_some hfind) hopens
      | none =>
        rw [startsIdle, List.all_eq_false] at hidle
        obtain ⟨passed, hmem, hpassed⟩ := hidle
        exact absurd (by simpa using List.find?_eq_none.1 hfind passed hmem) hpassed

/-- Behind blanks and comments that go on to their first end mark, a text is taken for a page
exactly where the first token opens one and the lexer did not pass over anything else before it. -/
theorem looksLikeDocument_iff {lead rest : Text} (hlead : IsLead lead) (hrest : EndsLead rest)
    (hmark : (lead ++ rest).head? ≠ some '\uFEFF')
    (htoken : firstToken? (lead ++ rest) = some token) :
    looksLikeDocument (lead ++ rest) = true ↔
      token.opensPage = true ∧ startsIdle rest = false := by
  have hopens := opensPage_firstToken?_append hlead rest
  rw [htoken, Option.map_some] at hopens
  obtain ⟨found, hfound, hsame⟩ := Option.map_eq_some_iff.1 hopens.symm
  rw [looksLikeDocument_eq hmark, skipProlog?_append hlead, skipProlog?_of_endsLead hrest, ← hsame]
  exact startsPage_iff hfound

theorem looksLikeDocument_iff_comment :
    IsLead "\n<!--a-->".toList ∧ EndsLead "<HTML lang=b>".toList ∧
      firstToken? "\n<!--a--><HTML lang=b>".toList =
        some (.startTag ⟨"html", [("lang", ['b'])], false⟩) ∧
      looksLikeDocument "\n<!--a--><HTML lang=b>".toList = true := by
  have hcomment : IsLead ("<!--".toList ++ (['a'] ++ ("-->".toList ++ []))) := .comment rfl .nil
  have hlead : IsLead "\n<!--a-->".toList := .blank rfl hcomment
  have hrest : EndsLead "<HTML lang=b>".toList := by
    refine ⟨fun c hc => ?_, ?_⟩
    · obtain rfl := Option.some.inj hc
      rfl
    · rw [← Text.dropPrefix?_eq_none_iff]
      rfl
  have htoken : firstToken? "\n<!--a--><HTML lang=b>".toList =
      some (.startTag ⟨"html", [("lang", ['b'])], false⟩) := by decide +kernel
  exact ⟨hlead, hrest, htoken,
    (looksLikeDocument_iff hlead hrest (by decide) htoken).2 ⟨rfl, by decide +kernel⟩⟩

/-- Pages that are not seen: behind a comment that is closed as soon as it is opened, and behind an
instruction, which the lexer makes a comment of. And a page that is none: behind the second mark,
the text of the first comment does not go on. -/
theorem looksLikeDocument_misled :
    (looksLikeDocument "<!--><html>".toList = false ∧
        firstToken? "<!--><html>".toList = some (.startTag (.plain "html"))) ∧
      (looksLikeDocument "<?x?><html>".toList = false ∧
        firstToken? "<?x?><html>".toList = some (.startTag (.plain "html"))) ∧
      looksLikeDocument "<!-->--><html>".toList = true ∧
        firstToken? "<!-->--><html>".toList = some (.chars "-->".toList) := by
  decide +kernel

end Html

end PrettyPayload
