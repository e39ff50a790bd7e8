import PrettyPayload.Proofs.Xml.Reference

/-!
# What the lexer finds

Each token of a text is made of proper words and allowed characters, and its carriage returns, if it
has any, are those of the text or written by reference. A start tag without an end ends the text.
-/

namespace PrettyPayload

namespace Xml

variable {t rest : Text} {c : Char} {token : Token} {tokens : List Token}

/-! ## Definitions -/

/-- An attribute with a proper name and a value of allowed characters. -/
def Lexed (a : Name × Text) : Prop :=
  isName a.1.localName = true ∧ ∀ c ∈ a.2, isAllowed c = true

def Token.Lexed : Token → Prop
  | .startTag name attributes _ => isName name.localName = true ∧ ∀ a ∈ attributes, Xml.Lexed a
  | .endTag _ => True
  | .characters t => ∀ c ∈ t, isAllowed c = true
  | .entity _ => True
  | .comment t => isComment t = true ∧ '\r' ∉ t
  | .instruction target data => isTarget target = true ∧ isData data = true ∧ '\r' ∉ data

/-- A part of a text: characters or an entity. -/
def Token.IsTextual : Token → Prop
  | .characters _ => True
  | .entity _ => True
  | _ => False

/-! ## Tags -/

theorem suffix_of_skipSpaces (t : Text) : skipSpaces t <:+ t := List.dropWhile_suffix _

theorem suffix_of_dropPrefix? {p : Text} (h : Text.dropPrefix? p t = some rest) : rest <:+ t :=
  ⟨p, (Text.dropPrefix?_eq_some_iff.1 h).symm⟩

theorem suffix_of_qualifiedName? {name : Name} (h : qualifiedName? t = some (name, rest)) :
    rest <:+ t := by
  obtain ⟨w, hw, -⟩ := eq_append_of_qualifiedName? h
  exact ⟨w, hw.symm⟩

theorem suffix_of_attribute? {a : Name × Text} (h : attribute? t = some (a, rest)) :
    rest <:+ t := by
  obtain ⟨name, value⟩ := a
  obtain ⟨-, -, u, q, -, ht, -⟩ := attribute?_eq_some h
  exact ⟨u ++ [q], by rw [ht]; simp⟩

theorem attributes?_eq_some {found : List (Name × Text) × TagEnd}
    (h : attributes? t = some (found, rest)) :
    (∀ a ∈ found.1, Lexed a) ∧ (found.2 = .missing → rest = []) ∧ rest <:+ t := by
  fun_induction attributes? t generalizing found with
  | case1 =>
    obtain ⟨rfl, rfl⟩ := Prod.mk.inj (Option.some.inj h)
    exact ⟨List.forall_mem_nil _, fun _ => rfl, List.suffix_refl _⟩
  | case2 c u r hs =>
    obtain ⟨rfl, rfl⟩ := Prod.mk.inj (Option.some.inj h)
    have hsuffix := suffix_of_skipSpaces (c :: u)
    rw [hs] at hsuffix
    refine ⟨List.forall_mem_nil _, ?_, (List.suffix_append ['/', '>'] r).trans hsuffix⟩
    intro hmissing
    cases hmissing
  | case3 c u r hs =>
    obtain ⟨rfl, rfl⟩ := Prod.mk.inj (Option.some.inj h)
    have hsuffix := suffix_of_skipSpaces (c :: u)
    rw [hs] at hsuffix
    refine ⟨List.forall_mem_nil _, ?_, (List.suffix_append ['>'] r).trans hsuffix⟩
    intro hmissing
    cases hmissing
  | case4 c u _ a r _ _ ha ih =>
    obtain ⟨⟨⟨more, tagEnd⟩, r'⟩, hm, he⟩ := Option.map_eq_some_iff.1 h
    obtain ⟨rfl, rfl⟩ := Prod.mk.inj he
    obtain ⟨hmore, hmissing, hsuffix⟩ := ih hm
    obtain ⟨name, value⟩ := a
    obtain ⟨hname, hvalue, -⟩ := attribute?_eq_some ha
    refine ⟨List.forall_mem_cons.2 ⟨⟨hname, fun c hc => (hvalue c hc).2⟩, hmore⟩, hmissing, ?_⟩
    exact (hsuffix.trans (suffix_of_attribute? ha)).trans (suffix_of_skipSpaces _)
  | case5 => cases h
  | case6 => cases h

theorem startTag?_eq_some (h : startTag? t = some (token, rest)) :
    ∃ name attributes tagEnd, token = .startTag name attributes tagEnd ∧ token.Lexed ∧
      (tagEnd = .missing → rest = []) ∧ rest <:+ t := by
  simp only [startTag?, Option.bind_eq_bind, Option.bind_eq_some_iff, Prod.exists] at h
  obtain ⟨name, t₁, h₁, h⟩ := h
  split at h
  next => cases h
  next =>
    simp only [Option.bind_eq_some_iff, Prod.exists, Option.pure_def, Option.some.injEq,
      Prod.mk.injEq] at h
    obtain ⟨attributes, tagEnd, t₂, h₂, rfl, rfl⟩ := h
    obtain ⟨hattributes, hmissing, hsuffix⟩ := attributes?_eq_some h₂
    exact ⟨name, attributes, tagEnd, rfl, ⟨isName_of_qualifiedName? h₁, hattributes⟩, hmissing,
      hsuffix.trans (suffix_of_qualifiedName? h₁)⟩

theorem endTag?_eq_some (h : endTag? t = some (token, rest)) :
    (∃ name, token = .endTag name) ∧ rest <:+ t := by
  simp only [endTag?, Option.bind_eq_bind, Option.bind_eq_some_iff, Prod.exists, Option.pure_def,
    Option.some.injEq, Prod.mk.injEq] at h
  obtain ⟨name, t₁, h₁, t₂, h₂, rfl, rfl⟩ := h
  exact ⟨⟨name, rfl⟩, ((suffix_of_dropPrefix? h₂).trans (suffix_of_skipSpaces t₁)).trans
    (suffix_of_qualifiedName? h₁)⟩

/-! ## Character data -/

theorem allowed_of_settle {final : Bool} {chars : List (Char × Bool)}
    (h : ∀ p ∈ chars, isAllowed p.1 = true) : ∀ c ∈ settle final chars, isAllowed c = true := by
  intro c hc
  rcases mem_settleOnto hc with rfl | hnil | hmem
  · decide
  · cases hnil
  · obtain ⟨p, hp, rfl⟩ := List.mem_map.1 hmem
    exact h p hp

theorem allowed_of_stretches (inEntity : Bool) {pieces : List Piece}
    (h : ∀ piece ∈ pieces, piece.Allowed) :
    (∀ p ∈ (stretches inEntity pieces).1, isAllowed p.1 = true) ∧
      ∀ s ∈ (stretches inEntity pieces).2, ∀ p ∈ s.2, isAllowed p.1 = true := by
  induction pieces with
  | nil => exact ⟨List.forall_mem_nil _, List.forall_mem_nil _⟩
  | cons piece pieces ih =>
    rw [List.forall_mem_cons] at h
    obtain ⟨hfirst, hmore⟩ := ih h.2
    cases piece with
    | plain c => exact ⟨List.forall_mem_cons.2 ⟨h.1, hfirst⟩, hmore⟩
    | escaped c => exact ⟨List.forall_mem_cons.2 ⟨h.1, hfirst⟩, hmore⟩
    | entity name => exact ⟨List.forall_mem_nil _, List.forall_mem_cons.2 ⟨hfirst, hmore⟩⟩

theorem lexed_of_tokens {stretch : Bool → List (Char × Bool) → List Token}
    (hstretch : ∀ final chars, (∀ p ∈ chars, isAllowed p.1 = true) →
      ∀ token ∈ stretch final chars, token.Lexed ∧ token.IsTextual)
    {more : List (Text × List (Char × Bool))}
    (hmore : ∀ s ∈ more, ∀ p ∈ s.2, isAllowed p.1 = true) :
    ∀ token ∈ textTokens.tokens stretch more, token.Lexed ∧ token.IsTextual := by
  induction more with
  | nil => exact List.forall_mem_nil _
  | cons s more ih =>
    obtain ⟨name, chars⟩ := s
    rw [List.forall_mem_cons] at hmore
    rw [textTokens.tokens, List.cons_append, List.forall_mem_cons, List.forall_mem_append]
    exact ⟨⟨trivial, trivial⟩, hstretch _ _ hmore.1, ih hmore.2⟩

theorem lexed_of_textTokens {inEntity : Bool} {pieces : List Piece}
    (h : ∀ piece ∈ pieces, piece.Allowed) :
    ∀ token ∈ textTokens inEntity pieces, token.Lexed ∧ token.IsTextual := by
  obtain ⟨hfirst, hmore⟩ := allowed_of_stretches inEntity h
  rw [textTokens, List.forall_mem_append]
  refine (fun hstretch => ⟨hstretch _ _ hfirst, lexed_of_tokens hstretch hmore⟩) ?_
  intro final chars hchars
  split
  next => exact List.forall_mem_nil _
  next => exact List.forall_mem_singleton.2 ⟨allowed_of_settle hchars, trivial⟩

theorem text?_eq_some {inEntity : Bool} (h : text? inEntity t = some (tokens, rest)) :
    (∀ token ∈ tokens, token.Lexed ∧ token.IsTextual) ∧ rest <:+ t := by
  simp only [text?] at h
  split at h
  next hall =>
    obtain ⟨pieces, hpieces, hmap⟩ := Option.map_eq_some_iff.1 h
    obtain ⟨rfl, rfl⟩ := Prod.mk.inj hmap
    exact ⟨lexed_of_textTokens (allowed_of_pieces? hpieces (List.all_eq_true.1 hall.1)),
      List.dropWhile_suffix _⟩
  next => cases h

theorem upTo?_eq_some {mark before : Text} (h : upTo? mark t = some (before, rest)) :
    t = before ++ (mark ++ rest) ∧ ∀ c ∈ before, isAllowed c = true := by
  unfold upTo? at h
  split at h
  next b r hbreak =>
    split at h
    next hall =>
      obtain ⟨rfl, rfl⟩ := Prod.mk.inj (Option.some.inj h)
      exact ⟨Text.eq_append_of_breakAt? hbreak, List.all_eq_true.1 hall⟩
    next => cases h
  next => cases h

theorem plainData?_eq_some (h : plainData? t = some (token, rest)) :
    token.Lexed ∧ token.IsTextual ∧ rest <:+ t := by
  obtain ⟨⟨data, r⟩, hupTo, hmap⟩ := Option.map_eq_some_iff.1 h
  obtain ⟨rfl, rfl⟩ := Prod.mk.inj hmap
  obtain ⟨ht, hall⟩ := upTo?_eq_some hupTo
  refine ⟨allowed_of_settle ?_, trivial, ⟨data ++ "]]>".toList, by rw [ht, List.append_assoc]⟩⟩
  intro p hp
  obtain ⟨c, hc, rfl⟩ := List.mem_map.1 hp
  exact hall c hc

/-! ## Content -/

/-- A mark of the content is a proper token, and the text ends behind a start tag without an
end. -/
theorem markup?_eq_some (ht : '\r' ∉ t) (h : markup? t = some (token, rest)) :
    token.Lexed ∧ (∀ name attributes, token = .startTag name attributes .missing → rest = []) ∧
      rest <:+ t := by
  unfold markup? at h
  split at h
  next u =>
    split at h
    next v hv =>
      obtain ⟨⟨comment, r⟩, hc, he⟩ := Option.map_eq_some_iff.1 h
      obtain ⟨rfl, rfl⟩ := Prod.mk.inj he
      obtain ⟨hsplit, hcomment⟩ := comment?_eq_some hc
      have hu := Text.dropPrefix?_eq_some_iff.1 hv
      have hsuffix : v <:+ '!' :: u := (suffix_of_dropPrefix? hv).trans (List.suffix_cons _ _)
      refine ⟨⟨hcomment, ?_⟩, by simp, ?_⟩
      · intro hmem
        refine ht (hsuffix.subset ?_)
        rw [hsplit]
        exact List.mem_append_left _ hmem
      · refine List.IsSuffix.trans ?_ hsuffix
        exact ⟨comment ++ "-->".toList, by rw [hsplit, List.append_assoc]⟩
    next =>
      obtain ⟨v, hv, hp⟩ := Option.bind_eq_some_iff.1 h
      obtain ⟨hlexed, htextual, hsuffix⟩ := plainData?_eq_some hp
      refine ⟨hlexed, ?_, ?_⟩
      · rintro name attributes rfl
        cases htextual
      · exact (hsuffix.trans (suffix_of_dropPrefix? hv)).trans (List.suffix_cons _ _)
  next u =>
    obtain ⟨⟨⟨target, data⟩, r⟩, hi, he⟩ := Option.map_eq_some_iff.1 h
    obtain ⟨rfl, rfl⟩ := Prod.mk.inj he
    obtain ⟨htarget, hdata, s, hsplit⟩ := instruction?_eq_some hi
    have hu : u = target ++ (s ++ (data ++ ("?>".toList ++ r))) :=
      (List.cons.inj (List.cons.inj hsplit).2).2
    refine ⟨⟨htarget, hdata, ?_⟩, by simp, ?_⟩
    · intro hmem
      refine ht (List.mem_cons_of_mem _ ?_)
      rw [hu]
      simp [hmem]
    · refine ⟨'?' :: (target ++ (s ++ (data ++ "?>".toList))), ?_⟩
      rw [hu]
      simp
  next u =>
    obtain ⟨⟨name, rfl⟩, hsuffix⟩ := endTag?_eq_some h
    exact ⟨trivial, by simp, hsuffix.trans (List.suffix_cons _ _)⟩
  next =>
    obtain ⟨name, attributes, tagEnd, rfl, hlexed, hmissing, hsuffix⟩ := startTag?_eq_some h
    refine ⟨hlexed, ?_, hsuffix⟩
    intro name' attributes' htoken
    exact hmissing (Token.startTag.inj htoken).2.2

end Xml

end PrettyPayload
