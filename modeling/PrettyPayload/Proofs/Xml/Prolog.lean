import PrettyPayload.Proofs.Xml.Sound

/-!
# What stands in a prolog

The parts of a prolog have their places in the order of the text: the comments and instructions in
front of the document type, the document type, and those inside it and behind it.
`Source.exists_prolog` says so, and where the text of the document type is found.

Of the document type itself, `doctype?_eq_some` says that its brackets are in quoted literals, apart
from those around its internal subset, and that a subset which declares entities only has no others
but those that end the declarations.
-/

namespace PrettyPayload

namespace Xml

variable {t u rest : Text} {stop : Nat}

/-! ## Definitions -/

/-- Comments and instructions with their places in a part of the text. -/
def PlacedWithin (first last : Nat) (remarks : List (Placed Node)) : Prop :=
  ∀ remark ∈ remarks, first ≤ remark.place ∧ remark.place < last

/-- The characters that a quoted literal guards: the quotes, the square brackets, and the bracket
that ends a declaration. -/
def guardedMarks : Text := ['"', '\'', '[', ']', '>']

/-- A text that has brackets only in quoted literals. -/
inductive Guarded : Text → Prop
  | nil : Guarded []
  | plain {c : Char} {t : Text} (hc : c ∉ guardedMarks) (ht : Guarded t) : Guarded (c :: t)
  | literal {q : Char} {value t : Text} (hq : q = '"' ∨ q = '\'') (hvalue : q ∉ value)
      (ht : Guarded t) : Guarded (q :: (value ++ q :: t))

def GuardedUpTo (rest t : Text) : Prop := ∃ a, t = a ++ rest ∧ Guarded a

/-- The rest of an internal subset that declares entities only, with the bracket that closes it and
the white space up to the end of the document type. -/
inductive EntitySubset : Text → Prop
  | close {s : Text} (hs : ∀ c ∈ s, isSpace c = true) : EntitySubset (']' :: s)
  | space {c : Char} {t : Text} (hc : isSpace c = true) (ht : EntitySubset t) :
      EntitySubset (c :: t)
  | entity {e t : Text} (he : Guarded e) (ht : EntitySubset t) :
      EntitySubset ("<!ENTITY".toList ++ (e ++ '>' :: t))

def otherMarks : List Text :=
  ["<!--".toList, "<?".toList, "<!ELEMENT".toList, "<!ATTLIST".toList, "<!NOTATION".toList]

/-- The end of a document type from behind the identifiers: nothing, or an internal subset. -/
def SubsetOrNone (tail : Text) : Prop :=
  tail = [] ∨ ∃ inner, tail = '[' :: inner ∧
    ((∀ mark ∈ otherMarks, ¬mark <:+: inner) → EntitySubset inner)

/-- What is known of an internal subset from somewhere in it up to the end of the document type: its
comments and instructions have their places in it, and if nothing but entities is declared in it,
they are guarded. -/
def SubsetUpTo (stop : Nat) (rest t : Text) (remarks : List (Placed Node)) : Prop :=
  ∃ a, t = a ++ '>' :: rest ∧ PlacedWithin (stop - t.length) (stop - rest.length) remarks ∧
    ((∀ mark ∈ otherMarks, ¬mark <:+: a) → EntitySubset a)

namespace Source

def front (source : Source) : Text :=
  match source.doctype with
  | some doctype => source.prolog.take doctype.place
  | none => source.prolog

end Source

/-! ## Guarded texts -/

theorem guarded_of_forall (h : ∀ c ∈ t, c ∉ guardedMarks) : Guarded t := by
  induction t with
  | nil => exact .nil
  | cons c t ih =>
    rw [List.forall_mem_cons] at h
    exact .plain h.1 (ih h.2)

theorem Guarded.append (ht : Guarded t) (hu : Guarded u) : Guarded (t ++ u) := by
  induction ht with
  | nil => exact hu
  | plain hc _ ih => exact .plain hc ih
  | literal hq hvalue _ ih =>
    rw [List.cons_append, List.append_assoc, List.cons_append]
    exact .literal hq hvalue ih

theorem guarded_of_spaces (h : ∀ c ∈ t, isSpace c = true) : Guarded t := by
  refine guarded_of_forall fun c hc hmark => ?_
  have hall : ∀ c ∈ guardedMarks, isSpace c = false := Text.forall_mem_of_all (by decide)
  exact absurd (h c hc) (by rw [hall c hmark]; decide)

theorem guarded_of_isTarget (h : isTarget t = true) : Guarded t := by
  refine guarded_of_forall fun c hc hmark => ?_
  have hall : ∀ c ∈ guardedMarks, isNameChar c = false := Text.forall_mem_of_all (by decide)
  exact Text.ne_of_class (isNameChar_of_isTarget h c hc) (hall c hmark) rfl

theorem GuardedUpTo.refl (t : Text) : GuardedUpTo t t := ⟨[], rfl, .nil⟩

theorem GuardedUpTo.trans (h : GuardedUpTo u t) (h' : GuardedUpTo rest u) :
    GuardedUpTo rest t := by
  obtain ⟨a, rfl, ha⟩ := h
  obtain ⟨b, rfl, hb⟩ := h'
  exact ⟨a ++ b, (List.append_assoc ..).symm, ha.append hb⟩

theorem guardedUpTo_skipSpaces (t : Text) : GuardedUpTo (skipSpaces t) t := by
  obtain ⟨s, ht, hs, -⟩ := exists_eq_append_skipSpaces t
  exact ⟨s, ht, guarded_of_spaces hs⟩

theorem guardedUpTo_of_spaces? (h : spaces? t = some rest) : GuardedUpTo rest t := by
  cases t with
  | nil => cases h
  | cons c t =>
    rw [spaces?] at h
    split at h
    next hc =>
      obtain rfl := Option.some.inj h
      obtain ⟨s, ht, hs, -⟩ := exists_eq_append_skipSpaces t
      refine ⟨c :: s, ?_, guarded_of_spaces (List.forall_mem_cons.2 ⟨hc, hs⟩)⟩
      rw [List.cons_append, ← ht]
    next => cases h

theorem guardedUpTo_of_dropPrefix? {p : Text}
    (hp : (p.all fun c => decide (c ∉ guardedMarks)) = true)
    (h : Text.dropPrefix? p t = some rest) : GuardedUpTo rest t :=
  ⟨p, Text.dropPrefix?_eq_some_iff.1 h, guarded_of_forall (Text.forall_mem_of_all hp)⟩

theorem guardedUpTo_of_name? {name : Text} (h : name? t = some (name, rest)) :
    GuardedUpTo rest t := by
  obtain ⟨ht, hname, -⟩ := name?_eq_some h
  exact ⟨name, ht, guarded_of_isTarget hname⟩

theorem guardedUpTo_of_quoted? {value : Text} (h : quoted? t = some (value, rest)) :
    GuardedUpTo rest t := by
  obtain ⟨q, hq, rfl, hvalue⟩ := eq_append_of_quotedWith? h
  refine ⟨q :: (value ++ [q]), by simp, .literal hq (fun hmem => (hvalue q hmem).1 rfl) .nil⟩

theorem guardedUpTo_of_externalId? (h : externalId? t = some rest) : GuardedUpTo rest t := by
  have hliteral {t rest : Text}
      (h : ((spaces? t).bind fun t => (quoted? t).bind fun found => some found.2) = some rest) :
      GuardedUpTo rest t := by
    simp only [Option.bind_eq_some_iff, Prod.exists, Option.some.injEq] at h
    obtain ⟨u, hu, value, v, hv, rfl⟩ := h
    exact (guardedUpTo_of_spaces? hu).trans (guardedUpTo_of_quoted? hv)
  unfold externalId? at h
  dsimp only at h
  split at h
  next u hu => exact (guardedUpTo_of_dropPrefix? (by decide) hu).trans (hliteral h)
  next =>
    split at h
    next u hu =>
      obtain ⟨v, hv, hrest⟩ := Option.bind_eq_some_iff.1 h
      exact ((guardedUpTo_of_dropPrefix? (by decide) hu).trans (hliteral hv)).trans (hliteral hrest)
    next =>
      obtain rfl := Option.some.inj h
      exact .refl t

theorem guardedUpTo_of_entityText? {general : Bool} {value : Option Text}
    (h : entityText? general t = some (value, rest)) : GuardedUpTo rest t := by
  unfold entityText? at h
  split at h
  next hquoted =>
    obtain ⟨-, rfl⟩ := Prod.mk.inj (Option.some.inj h)
    exact guardedUpTo_of_quoted? hquoted
  next =>
    split at h
    next =>
      simp only [Option.bind_eq_bind, Option.bind_eq_some_iff] at h
      obtain ⟨u, hu, h⟩ := h
      have hexternal := guardedUpTo_of_externalId? hu
      split at h
      next =>
        obtain ⟨-, rfl⟩ := Prod.mk.inj (Option.some.inj h)
        split
        · exact hexternal.trans (guardedUpTo_skipSpaces u)
        · exact hexternal
      next v hv =>
        simp only [Option.bind_eq_some_iff, Prod.exists, Option.pure_def, Option.some.injEq,
          Prod.mk.injEq] at h
        obtain ⟨w, hw, name, z, hz, -, rfl⟩ := h
        split at hv
        next =>
          exact (((hexternal.trans (guardedUpTo_skipSpaces u)).trans
            (guardedUpTo_of_dropPrefix? (by decide) hv)).trans
              (guardedUpTo_of_spaces? hw)).trans (guardedUpTo_of_name? hz)
        next => cases hv
    next => cases h

/-- The declaration of an entity ends with the first bracket that is not quoted. -/
theorem guardedUpTo_of_entityDeclaration? {entities : Entities}
    (h : entityDeclaration? t = some (entities, rest)) : GuardedUpTo ('>' :: rest) t := by
  have hnamed {general : Bool} {t : Text}
      (h : ((name? t).bind fun name => (spaces? name.2).bind fun u =>
        (entityText? general u).bind fun value =>
          (Text.dropPrefix? ['>'] (skipSpaces value.2)).bind fun rest =>
            some (value.1.toList.map (name.1, ·), rest)) = some (entities, rest)) :
      GuardedUpTo ('>' :: rest) t := by
    simp only [Option.bind_eq_some_iff, Prod.exists, Option.some.injEq, Prod.mk.injEq] at h
    obtain ⟨name, t₁, h₁, t₂, h₂, value, t₃, h₃, t₄, h₄, -, rfl⟩ := h
    have hend := guardedUpTo_skipSpaces t₃
    rw [Text.dropPrefix?_eq_some_iff.1 h₄] at hend
    exact (((guardedUpTo_of_name? h₁).trans (guardedUpTo_of_spaces? h₂)).trans
      (guardedUpTo_of_entityText? h₃)).trans hend
  obtain ⟨t₁, h₁, h⟩ := Option.bind_eq_some_iff.1 h
  refine (guardedUpTo_of_spaces? h₁).trans ?_
  dsimp only at h
  split at h
  next u hu =>
    obtain ⟨⟨general, v⟩, hv, h⟩ := Option.bind_eq_some_iff.1 h
    obtain ⟨w, hw, hmap⟩ := Option.map_eq_some_iff.1 hv
    obtain ⟨rfl, rfl⟩ := Prod.mk.inj hmap
    exact ((guardedUpTo_of_dropPrefix? (by decide) hu).trans (guardedUpTo_of_spaces? hw)).trans
      (hnamed h)
  next => exact hnamed h

/-! ## Places -/

theorem PlacedWithin.mono {first first' last last' : Nat} {remarks : List (Placed Node)}
    (h : PlacedWithin first last remarks) (hfirst : first' ≤ first) (hlast : last ≤ last') :
    PlacedWithin first' last' remarks :=
  fun remark hremark => ⟨Nat.le_trans hfirst (h remark hremark).1,
    Nat.lt_of_lt_of_le (h remark hremark).2 hlast⟩

theorem suffix_of_remark? {v : Node} (h : remark? t = some (v, rest)) : rest <:+ t := by
  unfold remark? at h
  split at h
  next u hu =>
    obtain ⟨⟨comment, r⟩, hcomment, hmap⟩ := Option.map_eq_some_iff.1 h
    obtain ⟨-, rfl⟩ := Prod.mk.inj hmap
    refine List.IsSuffix.trans ⟨comment ++ "-->".toList, ?_⟩ (suffix_of_dropPrefix? hu)
    rw [(comment?_eq_some hcomment).1, List.append_assoc]
  next =>
    obtain ⟨⟨⟨target, data⟩, r⟩, hinstruction, hmap⟩ := Option.map_eq_some_iff.1 h
    obtain ⟨-, rfl⟩ := Prod.mk.inj hmap
    obtain ⟨-, -, s, hsplit⟩ := instruction?_eq_some hinstruction
    exact ⟨"<?".toList ++ (target ++ (s ++ (data ++ "?>".toList))), by rw [hsplit]; simp⟩

/-- A comment or an instruction at the start of a text, with those that come behind it. -/
theorem PlacedWithin.cons {v : Node} {remarks : List (Placed Node)} (hstop : t.length ≤ stop)
    (hu : u <:+ t) (hremark : remark? u = some (v, rest)) {last : Nat}
    (hlast : stop - rest.length ≤ last) (h : PlacedWithin (stop - rest.length) last remarks) :
    PlacedWithin (stop - t.length) last (⟨stop - u.length, v⟩ :: remarks) := by
  have hlength := length_of_remark? hremark
  have hle := hu.length_le
  refine List.forall_mem_cons.2 ⟨⟨Nat.sub_le_sub_left hle stop, ?_⟩, h.mono ?_ (Nat.le_refl last)⟩
  · dsimp only
    omega
  · omega

theorem remarks?_within {remarks : List (Placed Node)} (hstop : t.length ≤ stop)
    (h : remarks? stop t = some (remarks, rest)) :
    rest <:+ t ∧ PlacedWithin (stop - t.length) (stop - rest.length) remarks := by
  fun_induction remarks? stop t generalizing remarks with
  | case1 => cases h
  | case2 t _ r v hremark ih =>
    obtain ⟨⟨more, r'⟩, hmore, hmap⟩ := Option.map_eq_some_iff.1 h
    obtain ⟨rfl, rfl⟩ := Prod.mk.inj hmap
    have hr := suffix_of_remark? hremark
    have hskip := suffix_of_skipSpaces t
    obtain ⟨hsuffix, hwithin⟩ := ih (Nat.le_trans (hr.trans hskip).length_le hstop) hmore
    exact ⟨(hsuffix.trans hr).trans hskip, PlacedWithin.cons hstop hskip hremark
      (Nat.sub_le_sub_left hsuffix.length_le stop) hwithin⟩
  | case3 t _ =>
    obtain ⟨rfl, rfl⟩ := Prod.mk.inj (Option.some.inj h)
    exact ⟨suffix_of_skipSpaces t, List.forall_mem_nil _⟩

/-! ## Document types -/

theorem EntitySubset.append_spaces {s : Text} (hs : ∀ c ∈ s, isSpace c = true)
    (h : EntitySubset t) : EntitySubset (s ++ t) := by
  induction s with
  | nil => exact h
  | cons c s ih =>
    rw [List.forall_mem_cons] at hs
    exact .space hs.1 (ih hs.2)

/-- A mark at the start of a part of the subset stands in the subset. -/
theorem infix_of_otherMark {mark a b : Text} (hmark : mark ∈ otherMarks) (hu : mark <+: u)
    (h : u = b ++ '>' :: rest) : mark <:+: a ++ b := by
  have hall : ∀ mark ∈ otherMarks, '>' ∉ mark := by decide
  rw [h] at hu
  exact (Text.prefix_of_prefix_append_cons (hall mark hmark) hu).isInfix.trans
    (List.suffix_append a b).isInfix

theorem SubsetUpTo.entity {remarks : List (Placed Node)} {e : Text}
    (ht : skipSpaces t = "<!ENTITY".toList ++ (e ++ '>' :: u)) (he : Guarded e)
    (h : SubsetUpTo stop rest u remarks) : SubsetUpTo stop rest t remarks := by
  have hle : u.length ≤ t.length := by
    have hlength := (suffix_of_skipSpaces t).length_le
    rw [ht] at hlength
    simp only [List.length_append, List.length_cons] at hlength
    omega
  obtain ⟨a, rfl, hwithin, hentities⟩ := h
  obtain ⟨s, hsplit, hs, -⟩ := exists_eq_append_skipSpaces t
  refine ⟨s ++ ("<!ENTITY".toList ++ (e ++ '>' :: a)), ?_,
    hwithin.mono (Nat.sub_le_sub_left hle stop) (Nat.le_refl _),
    fun hnone => .append_spaces hs (.entity he (hentities fun mark hmark => ?_))⟩
  · rw [hsplit, ht]
    simp
  · refine fun hwithin => hnone mark hmark (hwithin.trans ?_)
    exact ⟨s ++ ("<!ENTITY".toList ++ (e ++ ['>'])), [], by simp⟩

/-- With another part in front, it is not only entities that are declared. -/
theorem SubsetUpTo.other {more remarks : List (Placed Node)} {mark : Text}
    (hmark : mark ∈ otherMarks) (hbegins : mark <+: skipSpaces t) (hu : u <:+ skipSpaces t)
    (h : SubsetUpTo stop rest u more)
    (hremarks : PlacedWithin (stop - u.length) (stop - rest.length) more →
      stop - u.length ≤ stop - rest.length →
        PlacedWithin (stop - t.length) (stop - rest.length) remarks) :
    SubsetUpTo stop rest t remarks := by
  obtain ⟨a, ha, hwithin, -⟩ := h
  obtain ⟨s, ht⟩ := suffix_of_skipSpaces t
  obtain ⟨b, hb⟩ := hu
  have hskip : skipSpaces t = (b ++ a) ++ '>' :: rest := by
    rw [List.append_assoc, ← ha, hb]
  have hle : rest.length ≤ u.length := by
    rw [ha, List.length_append, List.length_cons]
    omega
  refine ⟨s ++ (b ++ a), by rw [List.append_assoc, ← hskip, ht],
    hremarks hwithin (Nat.sub_le_sub_left hle stop), fun hnone => ?_⟩
  exact absurd (infix_of_otherMark hmark hbegins hskip) (hnone mark hmark)

theorem SubsetUpTo.close (hclose : skipSpaces t = ']' :: u) (hend : skipSpaces u = '>' :: rest) :
    SubsetUpTo stop rest t [] := by
  obtain ⟨s, ht, hs, -⟩ := exists_eq_append_skipSpaces t
  obtain ⟨s', hu, hs', -⟩ := exists_eq_append_skipSpaces u
  refine ⟨s ++ ']' :: s', ?_, List.forall_mem_nil _, fun _ => .append_spaces hs (.close hs')⟩
  rw [ht, hclose, hu, hend]
  simp

theorem subset?_eq_some {entities : Entities} {remarks : List (Placed Node)}
    (hstop : t.length ≤ stop) (h : subset? stop t = some (entities, remarks, rest)) :
    SubsetUpTo stop rest t remarks := by
  fun_induction subset? stop t generalizing entities remarks rest with
  | case1 t u v hv =>
    rename_i ih
    simp only [Option.bind_eq_bind, Option.bind_eq_some_iff, Prod.exists] at h
    obtain ⟨declared, r, hr, h⟩ := h
    split at h
    next hlt =>
      simp only [Option.bind_eq_some_iff, Prod.exists, Option.pure_def, Option.some.injEq,
        Prod.mk.injEq] at h
      obtain ⟨more, remarks, rest, hmore, -, rfl, rfl⟩ := h
      obtain ⟨e, rfl, he⟩ := guardedUpTo_of_entityDeclaration? hr
      exact .entity (Text.dropPrefix?_eq_some_iff.1 hv) he (ih r hlt (by omega) hmore)
    next => cases h
  | case2 t u _ hstarts =>
    rename_i ih
    simp only [Option.bind_eq_bind, Option.bind_eq_some_iff, Prod.exists] at h
    obtain ⟨v, r, hr, h⟩ := h
    split at h
    next hlt =>
      simp only [Option.bind_eq_some_iff, Prod.exists, Option.pure_def, Option.some.injEq,
        Prod.mk.injEq] at h
      obtain ⟨more, remarks, rest, hmore, -, rfl, rfl⟩ := h
      obtain ⟨mark, hmark, hbegins⟩ : ∃ mark ∈ otherMarks, mark <+: u := by
        simp only [startsRemark, Bool.or_eq_true, Text.startsWith_iff] at hstarts
        rcases hstarts with hbegins | hbegins
        · exact ⟨_, by decide, hbegins⟩
        · exact ⟨_, by decide, hbegins⟩
      exact .other hmark hbegins (suffix_of_remark? hr) (ih r hlt (by omega) hmore)
        fun hwithin hle => .cons hstop (suffix_of_skipSpaces t) hr hle hwithin
    next => cases h
  | case3 t u others _ _ =>
    rename_i hothers ih
    simp only [Option.bind_eq_bind, Option.bind_eq_some_iff, Prod.exists] at h
    obtain ⟨v, r, hr, h⟩ := h
    split at h
    next hlt =>
      obtain ⟨mark, hmark, hbegins⟩ := List.any_eq_true.1 hothers
      have hsuffix : r <:+ u := ⟨v ++ ['>'], by rw [Text.eq_append_of_breakAt? hr]; simp⟩
      exact .other (List.mem_of_mem_drop (i := 2) hmark) (Text.startsWith_iff.1 hbegins) hsuffix
        (ih r hlt (by omega) h)
        fun hwithin _ => hwithin.mono (Nat.sub_le_sub_left (Nat.le_of_lt hlt) stop) (Nat.le_refl _)
    next => cases h
  | case4 t =>
    simp only [Option.bind_eq_bind, Option.bind_eq_some_iff, Option.pure_def, Option.some.injEq,
      Prod.mk.injEq] at h
    obtain ⟨v, hv, r, hr, -, rfl, rfl⟩ := h
    exact .close (Text.dropPrefix?_eq_some_iff.1 hv) (Text.dropPrefix?_eq_some_iff.1 hr)

/-- What was read of a document type: it ends with the bracket behind its body, in which its
comments and instructions have their places, and only an internal subset stands in the body
unguarded. -/
theorem doctype?_eq_some {doctype : Doctype} (hstop : t.length ≤ stop)
    (h : doctype? stop t = some (doctype, rest)) :
    t = doctype.body ++ '>' :: rest ∧
      PlacedWithin (stop - t.length) (stop - rest.length) doctype.remarks ∧
      ∃ head tail, doctype.body = head ++ tail ∧ Guarded head ∧ SubsetOrNone tail := by
  simp only [doctype?, Option.bind_eq_bind, Option.bind_eq_some_iff, Prod.exists] at h
  obtain ⟨t₁, h₁, name, t₂, h₂, t₃, h₃, h⟩ := h
  obtain ⟨head, ht, hhead⟩ := ((((guardedUpTo_of_spaces? h₁).trans (guardedUpTo_of_name? h₂)).trans
    (guardedUpTo_skipSpaces t₂)).trans (guardedUpTo_of_externalId? h₃)).trans
      (guardedUpTo_skipSpaces t₃)
  have hbody {body : Text} (h : t = body ++ '>' :: rest) :
      t.take (t.length - rest.length - 1) = body := by
    have hlength : t.length - rest.length - 1 = body.length := by
      rw [h, List.length_append, List.length_cons]
      omega
    rw [hlength, h, List.take_left]
  split at h
  next r hr =>
    obtain ⟨rfl, rfl⟩ := Prod.mk.inj (Option.some.inj h)
    rw [hr] at ht
    refine ⟨?_, List.forall_mem_nil _, head, [], ?_, hhead, Or.inl rfl⟩
    · rw [hbody ht, ← ht]
    · rw [hbody ht, List.append_nil]
  next r hr =>
    simp only [Option.bind_eq_some_iff, Prod.exists, Option.pure_def, Option.some.injEq,
      Prod.mk.injEq] at h
    obtain ⟨entities, remarks, rest, hsubset, rfl, rfl⟩ := h
    rw [hr] at ht
    have hlength : r.length < t.length := by
      rw [ht, List.length_append, List.length_cons]
      omega
    obtain ⟨a, rfl, hwithin, hentities⟩ := subset?_eq_some (by omega) hsubset
    have ht' : t = (head ++ '[' :: a) ++ '>' :: rest := by
      rw [ht, List.append_assoc, List.cons_append]
    refine ⟨?_, hwithin.mono (by omega) (Nat.le_refl _), head, '[' :: a, ?_, hhead,
      Or.inr ⟨a, rfl, hentities⟩⟩
    · rw [hbody ht', ← ht']
    · rw [hbody ht']
  next => cases h

/-! ## Prologs -/

namespace Source

/-- What was read of a document type and of what stands behind it in the prolog. -/
theorem doctypePart?_eq_some {doctype : Placed Doctype} {behind : List (Placed Node)}
    (hstop : t.length ≤ stop) (h : doctypePart? stop t = some (some doctype, behind, rest)) :
    (∃ post, t = ("<!DOCTYPE".toList ++ (doctype.value.body ++ '>' :: post)) ++ rest) ∧
      doctype.place = stop - t.length ∧ (∀ remark ∈ behind, doctype.place < remark.place) ∧
      ∃ head tail, doctype.value.body = head ++ tail ∧ Guarded head ∧ SubsetOrNone tail := by
  unfold doctypePart? at h
  split at h
  next => cases h
  next u hdrop =>
    simp only [Option.bind_eq_bind, Option.bind_eq_some_iff, Prod.exists, Option.pure_def,
      Option.some.injEq, Prod.mk.injEq] at h
    obtain ⟨read, v, hread, remarks, rest, hremarks, rfl, rfl, rfl⟩ := h
    have hmark : t.length = 9 + u.length := length_of_dropPrefix? hdrop
    obtain ⟨hu, hinside, hbody⟩ := doctype?_eq_some (by omega) hread
    have hlength : v.length ≤ u.length := by
      rw [hu, List.length_append, List.length_cons]
      omega
    obtain ⟨⟨post, hpost⟩, houtside⟩ := remarks?_within (by omega) hremarks
    refine ⟨⟨post, ?_⟩, rfl, ?_, hbody⟩
    · rw [Text.dropPrefix?_eq_some_iff.1 hdrop, hu, ← hpost]
      simp only [List.append_assoc, List.cons_append]
    · refine List.forall_mem_append.2 ⟨fun remark hremark => ?_, fun remark hremark => ?_⟩
      · have hfirst := (hinside remark hremark).1
        dsimp only
        omega
      · have hfirst := (houtside remark hremark).1
        dsimp only
        omega

/-- Where a document type stands in the text of a prolog, and between which comments and
instructions. -/
theorem exists_prolog {source : Source} {doctype : Placed Doctype}
    (h : parse? t = some source) (hdoctype : source.doctype = some doctype) :
    (∃ behind, source.prolog =
      source.front ++ ("<!DOCTYPE".toList ++ (doctype.value.body ++ '>' :: behind))) ∧
      source.front.length = doctype.place ∧
      (∃ before behind, source.remarks = before ++ behind ∧
        (∀ remark ∈ before, remark.place < doctype.place) ∧
          ∀ remark ∈ behind, doctype.place < remark.place) ∧
      ∃ head tail, doctype.value.body = head ++ tail ∧ Guarded head ∧ SubsetOrNone tail := by
  rw [parse?_eq] at h
  simp only [Option.bind_eq_some_iff, Prod.exists] at h
  obtain ⟨u, hu, before, t₁, hbefore, found, behind, t₂, hpart, tokens, t₃, -, after, t₄, -, b, -,
    content, -, h⟩ := h
  split at h
  next =>
    obtain rfl := Option.some.inj h
    obtain rfl : found = some doctype := hdoctype
    have hmark := suffix_of_body? hu
    obtain ⟨hsuffix, hwithin⟩ := remarks?_within hmark.length_le hbefore
    have ht₁ := hsuffix.trans hmark
    obtain ⟨⟨post, hpost⟩, hplace, hbehind, hbody⟩ := doctypePart?_eq_some ht₁.length_le hpart
    obtain ⟨front, hfront⟩ := ht₁
    have hlength : doctype.place = front.length := by
      rw [hplace, ← hfront, List.length_append, Nat.add_sub_cancel]
    -- The prolog is the text up to the rest behind the last of its remarks.
    have hprolog : t.take (t.length - t₂.length) =
        front ++ ("<!DOCTYPE".toList ++ (doctype.value.body ++ '>' :: post)) := by
      rw [← hfront, hpost, ← List.append_assoc, List.length_append, Nat.add_sub_cancel,
        List.take_left]
    have hfrontType : Source.front ⟨t.take (t.length - t₂.length), before ++ behind,
        some doctype, content⟩ = front := by
      rw [Source.front]
      dsimp only
      rw [hprolog, hlength, List.take_left]
    rw [hfrontType]
    refine ⟨⟨post, hprolog⟩, hlength.symm, ⟨before, behind, rfl, fun remark hremark => ?_, hbehind⟩,
      hbody⟩
    rw [hplace]
    exact (hwithin remark hremark).2
  next => cases h

end Source

end Xml

end PrettyPayload
