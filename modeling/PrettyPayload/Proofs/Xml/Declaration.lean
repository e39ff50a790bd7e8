import PrettyPayload.Proofs.Xml.Lexed
import PrettyPayload.Xml.Prolog

/-!
# The declaration of an XML document

A declaration is a row of attributes with white space around them. What is read of it does not
depend on what follows it, nor on the white space at its two ends, so that it is read again when it
is written with a single space in front and none behind.
-/

namespace PrettyPayload

namespace Xml

variable {t rest : Text} {c : Char}

/-! ## Definitions -/

/-- A row of attributes: it starts with one of the three names of a declaration and ends with a
quote. -/
def IsRow (w : Text) : Prop :=
  (∃ c u, w = c :: u ∧ c ∈ "ves".toList) ∧ ∃ u q, w = u ++ [q] ∧ (q = '"' ∨ q = '\'')

/-- A reader of the end of a declaration: it reads a row of attributes, or none, up to the end mark,
and does so whatever follows the mark. -/
def ReadsRow (reader : Text → Option Text) : Prop :=
  ∀ t rest, (∀ c, t.head? = some c → isSpace c = false) → reader t = some rest →
    ∃ w s, t = w ++ (s ++ ("?>".toList ++ rest)) ∧ (∀ c ∈ s, isSpace c = true) ∧
      (w = [] ∨ IsRow w) ∧ ∀ rest', reader (w ++ ("?>".toList ++ rest')) = some rest'

def standaloneEnd? (t : Text) : Option Text :=
  (if Text.startsWith "standalone".toList t then (attribute? t).map Prod.snd else some t).bind
    fun t => Text.dropPrefix? "?>".toList (skipSpaces t)

def encodingEnd? (t : Text) : Option Text :=
  (optionalAttribute? "encoding".toList t).bind standaloneEnd?

theorem declaration?_eq (t : Text) :
    declaration? t = (gap? t).bind fun u =>
      if Text.startsWith "version".toList u then
        (attribute? u).bind fun a => (gap? a.2).bind encodingEnd?
      else none := by
  have hstandalone : ∀ t, (if Text.startsWith "standalone".toList t then
      ((attribute? t).map Prod.snd).bind fun t => Text.dropPrefix? "?>".toList (skipSpaces t)
      else (some t).bind fun t => Text.dropPrefix? "?>".toList (skipSpaces t)) =
      standaloneEnd? t := by
    intro t
    unfold standaloneEnd?
    split <;> rfl
  simp only [declaration?, Option.bind_eq_bind, hstandalone]
  rfl

/-! ## Gaps -/

theorem gap?_of_mark (rest : Text) :
    gap? ("?>".toList ++ rest) = some ("?>".toList ++ rest) := by
  have hspaces : spaces? ("?>".toList ++ rest) = none := rfl
  have hmark : Text.startsWith "?>".toList ("?>".toList ++ rest) = true := by
    rw [Text.startsWith, Text.dropPrefix?_append]
    rfl
  rw [gap?, hspaces]
  exact if_pos (Or.inr hmark)

theorem gap?_append {s : Text} (hs : ∀ c ∈ s, isSpace c = true) (hne : s ≠ [])
    (ht : ∀ c, t.head? = some c → isSpace c = false) : gap? (s ++ t) = some t := by
  cases s with
  | nil => exact absurd rfl hne
  | cons c s =>
    rw [List.forall_mem_cons] at hs
    rw [List.cons_append, gap?, spaces?, if_pos hs.1, skipSpaces_append hs.2,
      skipSpaces_of_head? ht]

/-- A gap is white space, unless the end comes at once. -/
theorem gap?_eq_some (h : gap? t = some rest) :
    (∃ s, s ≠ [] ∧ t = s ++ rest ∧ (∀ c ∈ s, isSpace c = true) ∧
        ∀ c, rest.head? = some c → isSpace c = false) ∨
      rest = t ∧ (t = [] ∨ "?>".toList <+: t) := by
  cases t with
  | nil => exact Or.inr ⟨(Option.some.inj h).symm, Or.inl rfl⟩
  | cons c u =>
    rw [gap?, spaces?] at h
    split at h
    next r hspaces =>
      split at hspaces
      next hc =>
        obtain rfl := Option.some.inj h
        obtain rfl := Option.some.inj hspaces
        obtain ⟨s, hu, hs, hhead⟩ := exists_eq_append_skipSpaces u
        refine Or.inl ⟨c :: s, List.cons_ne_nil c s, ?_, List.forall_mem_cons.2 ⟨hc, hs⟩, hhead⟩
        rw [List.cons_append, ← hu]
      next => cases hspaces
    next =>
      split at h
      next hend =>
        exact Or.inr ⟨(Option.some.inj h).symm, hend.imp_right Text.startsWith_iff.1⟩
      next => cases h

/-! ## Rows of attributes -/

theorem IsRow.head? {w : Text} (h : IsRow w) (t : Text) :
    ∀ c, (w ++ t).head? = some c → isSpace c = false := by
  obtain ⟨⟨d, u, rfl, hd⟩, -⟩ := h
  intro c hc
  obtain rfl := Option.some.inj hc
  have hall : ∀ c ∈ "ves".toList, isSpace c = false := Text.forall_mem_of_all (by decide)
  exact hall d hd

theorem head?_of_mark (t : Text) : ∀ c, ("?>".toList ++ t).head? = some c → isSpace c = false := by
  intro c hc
  obtain rfl := Option.some.inj hc
  decide

theorem row_of_attribute? {name : Text} {reader : Text → Option Text} (hreader : ReadsRow reader)
    (hname : '"' ∉ name ∧ '\'' ∉ name) (hhead : ∃ c u, name = c :: u ∧ c ∈ "ves".toList)
    (hstart : name <+: t)
    (h : ((attribute? t).bind fun a => (gap? a.2).bind reader) = some rest) :
    ∃ w s, t = w ++ (s ++ ("?>".toList ++ rest)) ∧ (∀ c ∈ s, isSpace c = true) ∧ IsRow w ∧
      name <+: w ∧ ∀ rest', ((attribute? (w ++ ("?>".toList ++ rest'))).bind fun a =>
        (gap? a.2).bind reader) = some rest' := by
  obtain ⟨⟨⟨n, value⟩, t₁⟩, hattribute, hbehind⟩ := Option.bind_eq_some_iff.1 h
  obtain ⟨t₂, hgap, hread⟩ := Option.bind_eq_some_iff.1 hbehind
  obtain ⟨-, -, u, q, hq, rfl, hlocal⟩ := attribute?_eq_some hattribute
  have hname' : name <+: u := by
    refine Text.prefix_of_prefix_append_cons ?_ hstart
    rcases hq with rfl | rfl
    · exact hname.1
    · exact hname.2
  have hfront : ∀ v, ∃ c z, u ++ v = c :: z ∧ c ∈ "ves".toList := by
    obtain ⟨c, z, rfl, hc⟩ := hhead
    obtain ⟨z', rfl⟩ := hname'
    exact fun v => ⟨c, z ++ z' ++ v, by simp, hc⟩
  -- Behind the attribute, the reader finds the end mark at once or another row.
  have hend : (∀ rest', reader ("?>".toList ++ rest') = some rest') →
      ∀ rest', ((attribute? ((u ++ [q]) ++ ("?>".toList ++ rest'))).bind fun a =>
        (gap? a.2).bind reader) = some rest' := by
    intro hreads rest'
    rw [List.append_assoc, List.singleton_append, hlocal]
    simp only [Option.bind_some, gap?_of_mark, hreads]
  rcases gap?_eq_some hgap with ⟨g, hne, rfl, hg, hspace⟩ | ⟨hsame, hmark⟩
  · obtain ⟨w, s, rfl, hs, hw, hreads⟩ := hreader t₂ rest hspace hread
    rcases hw with rfl | hw
    · refine ⟨u ++ [q], g ++ s, by simp, ?_, ⟨hfront [q], u, q, rfl, hq⟩, ?_, hend hreads⟩
      · exact List.forall_mem_append.2 ⟨hg, hs⟩
      · exact hname'.trans (List.prefix_append u [q])
    · obtain ⟨v, q', rfl, hq'⟩ := hw.2
      refine ⟨u ++ q :: (g ++ (v ++ [q'])), s, by simp, hs,
        ⟨hfront _, u ++ q :: (g ++ v), q', by simp, hq'⟩,
        hname'.trans (List.prefix_append u _), ?_⟩
      intro rest'
      rw [List.append_assoc, List.cons_append, hlocal]
      simp only [Option.bind_some]
      rw [List.append_assoc, gap?_append hg hne (hw.head? _), Option.bind_some, hreads]
  · dsimp only at hsame hmark
    subst hsame
    have hspace : ∀ c, t₂.head? = some c → isSpace c = false := by
      rcases hmark with rfl | ⟨z, rfl⟩
      · exact nofun
      · exact head?_of_mark z
    obtain ⟨w, s, hsplit, hs, hw, hreads⟩ := hreader t₂ rest hspace hread
    have hnil : w = [] := by
      rcases hw with rfl | ⟨⟨c, z, rfl, hc⟩, -⟩
      · rfl
      · rcases hmark with rfl | ⟨z, rfl⟩
        · cases hsplit
        · obtain rfl : '?' = c := (List.cons.inj hsplit).1
          exact absurd hc (by decide)
    subst hnil
    refine ⟨u ++ [q], s, by rw [hsplit]; simp, hs, ⟨hfront [q], u, q, rfl, hq⟩, ?_, hend hreads⟩
    exact hname'.trans (List.prefix_append u [q])

/-! ## Parts of a declaration -/

theorem readsRow_standaloneEnd? : ReadsRow standaloneEnd? := by
  intro t rest hspace h
  obtain ⟨t₁, hpart, hdrop⟩ := Option.bind_eq_some_iff.1 h
  have hmark := Text.dropPrefix?_eq_some_iff.1 hdrop
  have hread : ∀ rest', Text.dropPrefix? "?>".toList (skipSpaces ("?>".toList ++ rest')) =
      some rest' := by
    intro rest'
    rw [skipSpaces_of_head? (head?_of_mark rest'), Text.dropPrefix?_append]
  split at hpart
  next hstart =>
    obtain ⟨⟨⟨n, value⟩, t₂⟩, hattribute, rfl⟩ := Option.map_eq_some_iff.1 hpart
    obtain ⟨-, -, u, q, hq, rfl, hlocal⟩ := attribute?_eq_some hattribute
    obtain ⟨s, hs, hall, -⟩ := exists_eq_append_skipSpaces t₂
    have hname : "standalone".toList <+: u := by
      refine Text.prefix_of_prefix_append_cons ?_ (Text.startsWith_iff.1 hstart)
      rcases hq with rfl | rfl <;> decide
    refine ⟨u ++ [q], s, ?_, hall, Or.inr ⟨?_, u, q, rfl, hq⟩, ?_⟩
    · rw [← hmark, List.append_assoc, List.singleton_append, ← hs]
    · obtain ⟨z, rfl⟩ := hname
      exact ⟨'s', _, rfl, by decide⟩
    · intro rest'
      have hstart' : Text.startsWith "standalone".toList (u ++ q :: ("?>".toList ++ rest')) =
          true := Text.startsWith_iff.2 (hname.trans (List.prefix_append u _))
      rw [List.append_assoc, List.singleton_append, standaloneEnd?, if_pos hstart', hlocal]
      exact hread rest'
  next =>
    obtain rfl := Option.some.inj hpart
    rw [skipSpaces_of_head? hspace] at hmark
    refine ⟨[], [], by rw [hmark]; rfl, nofun, Or.inl rfl, ?_⟩
    exact hread

theorem readsRow_encodingEnd? : ReadsRow encodingEnd? := by
  intro t rest hspace h
  rw [encodingEnd?, optionalAttribute?] at h
  split at h
  next hstart =>
    rw [Option.bind_assoc] at h
    obtain ⟨w, s, hsplit, hs, hrow, hname, hreads⟩ := row_of_attribute? readsRow_standaloneEnd?
      (by decide) ⟨'e', _, rfl, by decide⟩ (Text.startsWith_iff.1 hstart) h
    refine ⟨w, s, hsplit, hs, Or.inr hrow, ?_⟩
    intro rest'
    have hstart' : Text.startsWith "encoding".toList (w ++ ("?>".toList ++ rest')) = true :=
      Text.startsWith_iff.2 (hname.trans (List.prefix_append w _))
    rw [encodingEnd?, optionalAttribute?, if_pos hstart', Option.bind_assoc]
    exact hreads rest'
  next hstart =>
    obtain ⟨w, s, hsplit, hs, hrow, hreads⟩ := readsRow_standaloneEnd? t rest hspace h
    refine ⟨w, s, hsplit, hs, hrow, ?_⟩
    intro rest'
    have hstart' : ¬Text.startsWith "encoding".toList (w ++ ("?>".toList ++ rest')) = true := by
      rw [Text.startsWith_iff] at hstart ⊢
      intro hbegins
      refine hstart ?_
      rcases hrow with rfl | ⟨-, u, q, rfl, hq⟩
      · exact absurd (List.cons_prefix_cons.1 hbegins).1 (by decide)
      · rw [List.append_assoc] at hbegins
        rw [hsplit, List.append_assoc]
        refine (Text.prefix_of_prefix_append_cons ?_ hbegins).trans (List.prefix_append u _)
        rcases hq with rfl | rfl <;> decide
    rw [encodingEnd?, optionalAttribute?, if_neg hstart']
    exact hreads rest'

/-- The declaration of a document is a row of attributes with white space around it, and it is read
again with a space in front. -/
theorem declaration?_eq_some (h : declaration? t = some rest) :
    ∃ s w s', t = s ++ (w ++ (s' ++ ("?>".toList ++ rest))) ∧ (∀ c ∈ s, isSpace c = true) ∧
      (∀ c ∈ s', isSpace c = true) ∧ IsRow w ∧
      ∀ rest', declaration? (' ' :: (w ++ ("?>".toList ++ rest'))) = some rest' := by
  rw [declaration?_eq] at h
  obtain ⟨t₁, hgap, hversion⟩ := Option.bind_eq_some_iff.1 h
  split at hversion
  next hstart =>
    rw [Text.startsWith_iff] at hstart
    obtain ⟨w, s', hsplit, hs', hrow, hname, hreads⟩ := row_of_attribute? readsRow_encodingEnd?
      (by decide) ⟨'v', _, rfl, by decide⟩ hstart hversion
    have hlocal : ∀ rest', declaration? (' ' :: (w ++ ("?>".toList ++ rest'))) = some rest' := by
      intro rest'
      have hstart' : Text.startsWith "version".toList (w ++ ("?>".toList ++ rest')) = true :=
        Text.startsWith_iff.2 (hname.trans (List.prefix_append w _))
      have hgap' : gap? (' ' :: (w ++ ("?>".toList ++ rest'))) =
          some (w ++ ("?>".toList ++ rest')) :=
        gap?_append (s := [' ']) (Text.forall_mem_of_all (by decide)) (by decide) (hrow.head? _)
      rw [declaration?_eq, hgap', Option.bind_some, if_pos hstart']
      exact hreads rest'
    rcases gap?_eq_some hgap with ⟨s, -, rfl, hs, -⟩ | ⟨rfl, -⟩
    · exact ⟨s, w, s', by rw [hsplit], hs, hs', hrow, hlocal⟩
    · exact ⟨[], w, s', hsplit, nofun, hs', hrow, hlocal⟩
  next => cases hversion

end Xml

end PrettyPayload
