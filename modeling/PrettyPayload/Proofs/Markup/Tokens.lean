import PrettyPayload.Proofs.Markup.OfXml
import PrettyPayload.Proofs.Markup.Serializer

/-!
# Written content read again

Trees that are written without layout are read token by token. A text is no token by itself: it is
joined with the texts beside it, so the reader is followed with the characters that are pending, up
to the next tag.
-/

namespace PrettyPayload

namespace Markup

open PrettyPayload.Tree Xml

/-! ## Definitions -/

def Element.readName (e : Element) : Name := Name.ofWritten e.name

def Element.readAttributes (e : Element) : List (Name × Text) :=
  e.attributes.map fun a => (Name.ofWritten a.1, escapeAttribute .xml a.2)

mutual

def tokensOf : Tree Node → List Token
  | .node v ts =>
    match v with
    | .element e =>
      if ts.isEmpty then [.startTag e.readName e.readAttributes .empty]
      else
        .startTag e.readName e.readAttributes .content ::
          (tokensAfter [] ts ++ [.endTag e.readName])
    | .comment t => [.comment t]
    | .instruction target content => [.instruction target content]
    | _ => []

def tokensAfter (pending : Text) : List (Tree Node) → List Token
  | [] => flush pending
  | t :: ts =>
    match t.value with
    | .text s => tokensAfter (pending ++ s) ts
    | _ => flush pending ++ (tokensOf t ++ tokensAfter [] ts)

end

theorem tokensAfter_of_isText_eq_false {t : Tree Node} {ts : List (Tree Node)} {pending : Text}
    (h : t.value.isText = false) :
    tokensAfter pending (t :: ts) = flush pending ++ (tokensOf t ++ tokensAfter [] ts) := by
  rw [tokensAfter]
  split
  next hv =>
    rw [hv] at h
    cases h
  next => rfl

/-! ## Tags -/

variable {t rest : Text} {e : Element} {level : Nat}

theorem attributeText_xml (name value : Text) :
    attributeText .xml name value = ' ' :: (name ++ '=' :: '"' ::
      (escapeAttribute .xml value ++ ['"'])) := by
  simp [attributeText]

theorem attributes?_of_content {c : Char} {u : Text} (h : skipSpaces (c :: u) = '>' :: rest) :
    attributes? (c :: u) = some (([], .content), rest) := by
  rw [attributes?]
  split
  next hs =>
    rw [h] at hs
    cases hs
  next hs =>
    rw [h] at hs
    rw [(List.cons.inj hs).2]
  next hnot => exact absurd h (hnot rest)

theorem attributes?_of_empty {c : Char} {u : Text}
    (h : skipSpaces (c :: u) = '/' :: '>' :: rest) :
    attributes? (c :: u) = some (([], .empty), rest) := by
  rw [attributes?]
  split
  next hs =>
    rw [h] at hs
    rw [(List.cons.inj (List.cons.inj hs).2).2]
  next hs =>
    rw [h] at hs
    cases hs
  next hnot _ => exact absurd h (hnot rest)

theorem attributes?_of_attribute? {c : Char} {u : Text} {a : Name × Text} (hc : isSpace c = true)
    (hhead : ∀ d, (skipSpaces (c :: u)).head? = some d → d ≠ '/' ∧ d ≠ '>')
    (h : attribute? (skipSpaces (c :: u)) = some (a, rest)) :
    attributes? (c :: u) =
      (attributes? rest).map fun found => ((a :: found.1.1, found.1.2), found.2) := by
  rw [attributes?]
  split
  next hs => exact absurd rfl (hhead '/' (by rw [hs]; rfl)).1
  next hs => exact absurd rfl (hhead '>' (by rw [hs]; rfl)).2
  next =>
    rw [if_pos hc]
    split
    next a' rest' ha =>
      obtain ⟨rfl, rfl⟩ := Prod.mk.inj (Option.some.inj (ha.symm.trans h))
      rfl
    next hnone =>
      rw [h] at hnone
      cases hnone

theorem attributes?_append {attributes : List (Text × Text)} {mark : Text} {tagEnd : TagEnd}
    (h : ∀ a ∈ attributes, IsAttributeName a.1 ∧ ∀ c ∈ a.2, isAllowed c = true)
    (hmark : mark = ['>'] ∧ tagEnd = .content ∨ mark = ['/', '>'] ∧ tagEnd = .empty) :
    attributes? (attributes.flatMap (fun a => attributeText .xml a.1 a.2) ++ (mark ++ rest)) =
      some ((attributes.map fun a => (Name.ofWritten a.1, escapeAttribute .xml a.2), tagEnd),
        rest) := by
  induction attributes with
  | nil =>
    rcases hmark with ⟨rfl, rfl⟩ | ⟨rfl, rfl⟩
    · exact attributes?_of_content rfl
    · exact attributes?_of_empty rfl
  | cons a attributes ih =>
    rw [List.forall_mem_cons] at h
    obtain ⟨⟨hname, hvalue⟩, hattributes⟩ := h
    obtain ⟨d, n, hn, hd⟩ := hname.head?
    have hskip : ∀ v, skipSpaces (' ' :: (a.1 ++ v)) = a.1 ++ v := by
      intro v
      have hspace : ∀ c, (a.1 ++ v).head? = some c → isSpace c = false := by
        rw [hn]
        intro c hc
        exact Option.some.inj hc ▸ isSpace_of_isNameChar hd
      exact (skipSpaces_append (s := [' ']) (Text.forall_mem_of_all (by decide)) _).trans
        (skipSpaces_of_head? hspace)
    have hread := attribute?_append hname (fun c hc => mem_escapeAttribute hvalue hc)
      (attributes.flatMap (fun a => attributeText .xml a.1 a.2) ++ (mark ++ rest))
    have hsplit : (a :: attributes).flatMap (fun a => attributeText .xml a.1 a.2) ++
        (mark ++ rest) = ' ' :: (a.1 ++ '=' :: '"' :: (escapeAttribute .xml a.2 ++ '"' ::
          (attributes.flatMap (fun a => attributeText .xml a.1 a.2) ++ (mark ++ rest)))) := by
      rw [List.flatMap_cons, attributeText_xml]
      simp
    rw [hsplit, attributes?_of_attribute? rfl, ih hattributes]
    · rfl
    · rw [hskip, hn]
      intro c hc
      obtain rfl := Option.some.inj hc
      exact ⟨Text.ne_of_class hd (by decide), Text.ne_of_class hd (by decide)⟩
    · rw [hskip, hread]

def tagMark (closed : Bool) : Text := if closed then ['/', '>'] else ['>']

theorem startTag_eq (e : Element) (closed : Bool) :
    startTag .xml e closed = '<' :: (e.name ++
      (e.attributes.flatMap (fun a => attributeText .xml a.1 a.2) ++ tagMark closed)) := by
  simp [startTag, tagMark]

theorem startTag?_append (h : (Node.element e).Writable) (closed : Bool) (rest : Text) :
    startTag? (e.name ++ (e.attributes.flatMap (fun a => attributeText .xml a.1 a.2) ++
        (tagMark closed ++ rest))) =
      some (.startTag e.readName e.readAttributes (if closed then .empty else .content),
        rest) := by
  obtain ⟨hname, hattributes, -⟩ := h
  have hread : Name.ofWritten e.name = ⟨[], e.name⟩ := ofWritten_of_isName hname
  have hproper : (Name.ofWritten e.name).isProper = true := by
    rw [hread]
    exact isProper_of_isName rfl hname
  have hend : ∀ c, (e.attributes.flatMap (fun a => attributeText .xml a.1 a.2) ++
      (tagMark closed ++ rest)).head? = some c → isNameChar c = false := by
    intro c hc
    cases hattributes : e.attributes with
    | nil =>
      rw [hattributes] at hc
      cases closed <;> (obtain rfl := Option.some.inj hc; decide)
    | cons a attributes =>
      rw [hattributes, List.flatMap_cons, attributeText_xml] at hc
      obtain rfl := Option.some.inj hc
      decide
  have hmark : tagMark closed = ['>'] ∧ (if closed then TagEnd.empty else .content) = .content ∨
      tagMark closed = ['/', '>'] ∧ (if closed then TagEnd.empty else .content) = .empty := by
    cases closed
    · exact Or.inl ⟨rfl, rfl⟩
    · exact Or.inr ⟨rfl, rfl⟩
  rw [startTag?, qualifiedName?_append (isNameChar_of_isName hname) hproper hend]
  simp only [Option.bind_eq_bind, Option.bind_some, hread]
  rw [if_neg (by decide), attributes?_append hattributes hmark]
  rw [Option.bind_some, Element.readName, hread]
  rfl

theorem endTag?_append (h : (Node.element e).Writable) (rest : Text) :
    endTag? (e.name ++ '>' :: rest) = some (.endTag e.readName, rest) := by
  have hproper : (Name.ofWritten e.name).isProper = true := by
    rw [ofWritten_of_isName h.1]
    exact isProper_of_isName rfl h.1
  have hend : ∀ c, ('>' :: rest).head? = some c → isNameChar c = false := by
    intro c hc
    obtain rfl := Option.some.inj hc
    decide
  rw [endTag?, qualifiedName?_append (isNameChar_of_isName h.1) hproper hend]
  rfl

/-! ## Content -/

/-- A step of the lexer that leaves an element open. -/
theorem content?_of_next? {c : Char} {u : Text} {tokens : List Token} {after : Nat}
    (h : next? false c u = some (tokens, rest)) (hlevel : levelAfter? level tokens = some after) :
    content? false level (c :: u) =
      (content? false after rest).map fun found => (tokens ++ found.1, found.2) := by
  rw [content?]
  split
  next hnone =>
    rw [h] at hnone
    cases hnone
  next hsome =>
    obtain ⟨rfl, rfl⟩ := Prod.mk.inj (Option.some.inj (hsome.symm.trans h))
    rw [hlevel]

theorem content?_of_endTag {u : Text} {name : Name} (h : markup? u = some (.endTag name, rest)) :
    content? false 0 ('<' :: u) = some ([.endTag name], rest) := by
  have hnext : next? false '<' u = some ([.endTag name], rest) := by
    rw [next?, if_pos rfl, h]
    rfl
  rw [content?]
  split
  next hnone =>
    rw [hnext] at hnone
    cases hnone
  next hsome =>
    obtain ⟨rfl, rfl⟩ := Prod.mk.inj (Option.some.inj (hsome.symm.trans hnext))
    rfl

theorem content?_of_markup? {u : Text} {token : Token} {after : Nat}
    (h : markup? u = some (token, rest)) (hlevel : token.levelAfter? level = some after) :
    content? false level ('<' :: u) =
      (content? false after rest).map fun found => (token :: found.1, found.2) := by
  have hnext : next? false '<' u = some ([token], rest) := by
    rw [next?, if_pos rfl, h]
    rfl
  exact content?_of_next? hnext (by simpa [levelAfter?] using hlevel)

theorem levelAfter?_flush (level : Nat) (pending : Text) :
    levelAfter? level (flush pending) = some level := by
  unfold flush
  split <;> rfl

/-- Pending characters are read up to the next tag. -/
theorem content?_escapeText {pending : Text} (h : ∀ c ∈ pending, isAllowed c = true)
    (hr : ∀ c, rest.head? = some c → c = '<') :
    content? false level (escapeText .xml pending ++ rest) =
      (content? false level rest).map fun found => (flush pending ++ found.1, found.2) := by
  cases pending with
  | nil =>
    cases hcontent : content? false level rest <;> simp [hcontent]
  | cons d pending =>
    have htext := text?_escapeText h hr
    have hne : escapeText .xml (d :: pending) ≠ [] :=
      escapeText_ne_nil (List.cons_ne_nil d pending)
    obtain ⟨c, u, hw⟩ := List.exists_cons_of_ne_nil hne
    have hc : c ≠ '<' := (mem_escapeText h (hw ▸ List.mem_cons_self)).1
    rw [hw, List.cons_append] at htext ⊢
    refine content?_of_next? ?_ (levelAfter?_flush level _)
    rw [next?, if_neg hc, htext]

theorem markup?_comment {t : Text} (h : isComment t = true) (rest : Text) :
    markup? ('!' :: '-' :: '-' :: (t ++ ("-->".toList ++ rest))) =
      some (.comment t, rest) := by
  have hdrop : Text.dropPrefix? "--".toList ('-' :: '-' :: (t ++ ("-->".toList ++ rest))) =
      some (t ++ ("-->".toList ++ rest)) := Text.dropPrefix?_append "--".toList _
  rw [markup?]
  simp only [hdrop, comment?_append h, Option.map_some]

theorem markup?_instruction {target content : Text} (htarget : isTarget target = true)
    (hcontent : isData content = true) (hxml : target ≠ "xml".toList) (rest : Text) :
    markup? ('?' :: (target ++ ((if content = [] then [] else ' ' :: content) ++
      ("?>".toList ++ rest)))) = some (.instruction target content, rest) := by
  have hread := instruction?_append htarget hcontent hxml rest
  rw [markup?]
  exact congrArg (Option.map fun found => (Token.instruction found.1.1 found.1.2, found.2)) hread

theorem markup?_endTag (h : (Node.element e).Writable) (rest : Text) :
    markup? ('/' :: (e.name ++ '>' :: rest)) = some (.endTag e.readName, rest) := by
  rw [markup?, endTag?_append h]

theorem markup?_startTag (h : (Node.element e).Writable) (closed : Bool) (rest : Text) :
    markup? (e.name ++ (e.attributes.flatMap (fun a => attributeText .xml a.1 a.2) ++
        (tagMark closed ++ rest))) =
      some (.startTag e.readName e.readAttributes (if closed then .empty else .content),
        rest) := by
  obtain ⟨c, n, hn, hc⟩ := exists_cons_of_isName h.1
  rw [← startTag?_append h closed rest, hn, List.cons_append, markup?]
  all_goals
    intro u hu
    rw [(List.cons.inj hu).1] at hc
    exact absurd hc (by decide)

theorem head?_verbatim {t : Tree Node} (h : t.Each WritableAt) (ht : t.value.isText = false)
    (rest : Text) : ∀ c, (verbatim .xml t ++ rest).head? = some c → c = '<' := by
  obtain ⟨v, ts⟩ := t
  have hcons : ∃ u, verbatim .xml (.node v ts) = '<' :: u := by
    cases v with
    | text t => cases ht
    | element e =>
      rw [verbatim]
      split
      · exact ⟨_, startTag_eq e true⟩
      · rw [startTag_eq]
        exact ⟨_, rfl⟩
    | comment t => exact ⟨_, rfl⟩
    | instruction target content => exact ⟨_, rfl⟩
    | document => exact absurd h.1.node id
    | doctype t => exact absurd h.1.node id
    | data t => exact absurd h.1.node id
    | css t => exact absurd h.1.node id
  obtain ⟨u, hu⟩ := hcons
  rw [hu]
  intro c hc
  exact (Option.some.inj hc).symm

mutual

theorem content?_verbatim (level : Nat) (rest : Text) :
    (t : Tree Node) → t.Each WritableAt → t.value.isText = false →
      content? false level (verbatim .xml t ++ rest) =
        (content? false level rest).map fun found => (tokensOf t ++ found.1, found.2)
  | .node v ts, h, ht => by
    cases v with
    | text t => cases ht
    | element e =>
      cases ts with
      | nil =>
        have hread := markup?_startTag h.1.node true rest
        rw [verbatim, if_pos ⟨rfl, rfl⟩, startTag_eq, List.cons_append, List.append_assoc,
          List.append_assoc, content?_of_markup? hread rfl]
        rfl
      | cons t ts =>
        have hopen := markup?_startTag h.1.node false
          (verbatimAll .xml (t :: ts) ++ (endTag e ++ rest))
        have hclose : content? false (level + 1) (endTag e ++ rest) =
            (content? false level rest).map fun found =>
              (.endTag e.readName :: found.1, found.2) := by
          have hread := markup?_endTag h.1.node rest
          have hsplit : endTag e ++ rest = '<' :: '/' :: (e.name ++ '>' :: rest) := by
            simp [endTag]
          rw [hsplit, content?_of_markup? hread rfl, Nat.add_sub_cancel]
        have hcontent := content?_verbatimAll (level + 1) [] (endTag e ++ rest) nofun
          (fun c hc => (Option.some.inj hc).symm) (t :: ts) h.2
        rw [escapeText_nil, List.nil_append, hclose, Option.map_map] at hcontent
        rw [verbatim_element_of_ne_nil e (List.cons_ne_nil t ts), startTag_eq]
        simp only [List.cons_append, List.append_assoc]
        rw [content?_of_markup? hopen rfl, hcontent, Option.map_map]
        simp [Function.comp_def, tokensOf]
    | comment t =>
      obtain rfl := h.1.leaf rfl
      have hread := markup?_comment h.1.node.1 rest
      have hsplit : verbatim .xml (.node (.comment t) []) ++ rest =
          '<' :: '!' :: '-' :: '-' :: (t ++ ("-->".toList ++ rest)) := by
        simp [verbatim, verbatimAll, commentText]
      rw [hsplit, content?_of_markup? hread rfl]
      rfl
    | instruction target content =>
      obtain rfl := h.1.leaf rfl
      obtain ⟨htarget, hcontent, -, hxml⟩ := h.1.node
      have hread := markup?_instruction htarget hcontent hxml rest
      have hsplit : verbatim .xml (.node (.instruction target content) []) ++ rest =
          '<' :: '?' :: (target ++ ((if content = [] then [] else ' ' :: content) ++
            ("?>".toList ++ rest))) := by
        simp [verbatim, verbatimAll, instructionText]
      rw [hsplit, content?_of_markup? hread rfl]
      rfl
    | document => exact absurd h.1.node id
    | doctype t => exact absurd h.1.node id
    | data t => exact absurd h.1.node id
    | css t => exact absurd h.1.node id

/-- Written trees are read token by token, with the texts beside each other and the pending
characters joined. -/
theorem content?_verbatimAll (level : Nat) (pending rest : Text)
    (hpending : ∀ c ∈ pending, isAllowed c = true)
    (hrest : ∀ c, rest.head? = some c → c = '<') :
    (ts : List (Tree Node)) → EachOfAll WritableAt ts →
      content? false level (escapeText .xml pending ++ (verbatimAll .xml ts ++ rest)) =
        (content? false level rest).map fun found => (tokensAfter pending ts ++ found.1, found.2)
  | [], _ => by
    rw [verbatimAll, List.nil_append, content?_escapeText hpending hrest, tokensAfter]
  | .node v us :: ts, h => by
    cases hv : v.isText with
    | true =>
      obtain ⟨t, rfl⟩ := exists_of_isText hv
      obtain rfl := h.1.1.leaf rfl
      have hall : ∀ c ∈ pending ++ t, isAllowed c = true :=
        List.forall_mem_append.2 ⟨hpending, h.1.1.node⟩
      rw [verbatimAll, verbatim, verbatimAll, List.append_nil, List.append_assoc,
        ← List.append_assoc, ← escapeText_append,
        content?_verbatimAll level (pending ++ t) rest hall hrest ts h.2]
      rfl
    | false =>
      have htag := content?_verbatim level (verbatimAll .xml ts ++ rest) (.node v us) h.1 hv
      have hbehind := content?_verbatimAll level [] rest nofun hrest ts h.2
      rw [escapeText_nil, List.nil_append] at hbehind
      rw [verbatimAll, List.append_assoc, content?_escapeText hpending (head?_verbatim h.1 hv _),
        htag, hbehind, Option.map_map, Option.map_map,
        tokensAfter_of_isText_eq_false (t := .node v us) hv]
      simp [Function.comp_def]

end

end Markup

end PrettyPayload
