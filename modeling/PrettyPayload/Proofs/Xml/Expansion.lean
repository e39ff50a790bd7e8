import PrettyPayload.Proofs.Html.Lexer
import PrettyPayload.Proofs.Xml.Reference

/-!
# Reading by the rules of XML

What XML says about reading character data and attribute values, without the places where they
stand: line ends are made line feeds, in a value every blank that is written as itself becomes a
space, and then references are replaced. Escaping is undone by this for every attribute value, and
for every text without carriage returns (`read_escape`): of the characters that reading changes, the
escaping of texts leaves out the carriage return.
-/

namespace PrettyPayload

namespace Xml

open Html (withLineFeeds withLineFeeds_eq_self)

open Markup (escapeText escapeTextChar escapeAttribute escapeAttributeChar)

variable {s t : Text} {c : Char}

/-! ## Definitions -/

def Piece.char? : Piece → Option Char
  | .plain c => some c
  | .escaped c => some c
  | .entity _ => none

/-- A text with its references to characters replaced; nothing where an ampersand starts none. -/
def expand? (t : Text) : Option Text := (pieces? t).bind (·.mapM Piece.char?)

def readData? (t : Text) : Option Text := expand? (withLineFeeds t)

/-- The value of an attribute as it is read. A blank that is written by reference stays. -/
def readValue? (t : Text) : Option Text := expand? ((withLineFeeds t).map blankToSpace)

/-! ## Line ends -/

theorem withLineFeeds_append (h : '\r' ∉ s) (t : Text) :
    withLineFeeds (s ++ t) = s ++ withLineFeeds t := by
  induction s with
  | nil => rfl
  | cons c s ih =>
    rw [List.mem_cons, not_or] at h
    rw [List.cons_append, withLineFeeds, ih h.2, List.cons_append]
    · exact fun _ hc => absurd hc.symm h.1
    · exact fun hc => h.1 hc.symm

theorem not_mem_withLineFeeds (t : Text) : '\r' ∉ withLineFeeds t := by
  fun_induction withLineFeeds t with
  | case1 => exact List.not_mem_nil
  | case2 t ih => exact List.not_mem_cons_of_ne_of_not_mem (by decide) ih
  | case3 t _ ih => exact List.not_mem_cons_of_ne_of_not_mem (by decide) ih
  | case4 c t _ hc ih => exact List.not_mem_cons_of_ne_of_not_mem (fun h => hc h.symm) ih

theorem withLineFeeds_eq_self_iff : withLineFeeds t = t ↔ '\r' ∉ t :=
  ⟨fun h => h ▸ not_mem_withLineFeeds t, withLineFeeds_eq_self⟩

/-! ## Texts -/

theorem escapeText_cons (c : Char) (t : Text) :
    escapeText .xml (c :: t) = escapeTextChar .xml c ++ escapeText .xml t :=
  List.flatMap_cons

/-- Only a line feed is written with a line feed in front. -/
theorem eq_of_escapeText_eq {u : Text} (h : escapeText .xml t = '\n' :: u) :
    ∃ rest, t = '\n' :: rest := by
  cases t with
  | nil => cases h
  | cons c t =>
    rw [escapeText_cons, escapeTextChar] at h
    repeat' split at h
    · cases h
    · cases h
    · cases h
    · cases h
    · exact ⟨t, congrArg (· :: t) (List.cons.inj h).1⟩

theorem withLineFeeds_escapeText (t : Text) :
    withLineFeeds (escapeText .xml t) = escapeText .xml (withLineFeeds t) := by
  fun_induction withLineFeeds t with
  | case1 => rfl
  | case2 t ih => exact congrArg ('\n' :: ·) ih
  | case3 t hfeed ih =>
    have hreturn : escapeText .xml ('\r' :: t) = '\r' :: escapeText .xml t := rfl
    rw [hreturn, withLineFeeds]
    · exact congrArg ('\n' :: ·) ih
    · intro u hu
      obtain ⟨rest, hrest⟩ := eq_of_escapeText_eq hu
      exact hfeed rest hrest
  | case4 c t _ hc ih =>
    have hchar : '\r' ∉ escapeTextChar .xml c := by
      unfold escapeTextChar
      repeat' split
      · decide
      · decide
      · decide
      · decide
      · exact fun hmem => hc (List.mem_singleton.1 hmem).symm
    rw [escapeText_cons, withLineFeeds_append hchar, ih, escapeText_cons]

theorem mapM_char?_map {f : Char → Piece} (h : ∀ c, (f c).char? = some c) (t : Text) :
    (t.map f).mapM Piece.char? = some t := by
  have hpure : Piece.char? ∘ f = fun c => pure (id c) := funext h
  rw [List.mapM_map, hpure, List.mapM_pure, List.map_id]
  rfl

theorem expand?_escapeText (t : Text) : expand? (escapeText .xml t) = some t := by
  have hchar (c : Char) : (textPiece c).char? = some c := by
    unfold textPiece
    split <;> rfl
  rw [expand?, pieces?_escapeText, Option.bind_some, mapM_char?_map hchar]

theorem readData?_escapeText (t : Text) :
    readData? (escapeText .xml t) = some (withLineFeeds t) := by
  rw [readData?, withLineFeeds_escapeText, expand?_escapeText]

theorem lt_not_mem_escapeText (t : Text) : '<' ∉ escapeText .xml t := by
  intro h
  obtain ⟨c, -, h⟩ := List.mem_flatMap.1 h
  unfold escapeTextChar at h
  repeat' split at h
  · exact absurd h (by decide)
  · exact absurd h (by decide)
  · exact absurd h (by decide)
  · exact absurd h (by decide)
  next hlt _ _ => exact hlt (List.mem_singleton.1 h).symm

/-! ## Attribute values -/

/-- No mark of a value and no blank but the space is written as itself. -/
theorem plain_of_mem_escapeAttribute (h : c ∈ escapeAttribute .xml t) :
    c ∉ ['"', '<', '\n', '\t', '\r'] := by
  obtain ⟨d, -, h⟩ := List.mem_flatMap.1 h
  by_cases hd : d ∈ ['&', '"', '<', '\n', '\t', '\r']
  · have hall : (['&', '"', '<', '\n', '\t', '\r'].all fun d =>
        (escapeAttributeChar .xml d).all fun c => c ∉ ['"', '<', '\n', '\t', '\r']) = true := by
      decide
    exact of_decide_eq_true (List.all_eq_true.1 (List.all_eq_true.1 hall d hd) c h)
  · rw [List.mem_cons, not_or] at hd
    have hmarks := hd.2
    simp only [List.mem_cons, List.not_mem_nil, or_false, not_or] at hmarks
    obtain ⟨hquote, hlt, hfeed, htab, hreturn⟩ := hmarks
    simp only [escapeAttributeChar, hd.1, hquote, hlt, hfeed, htab, hreturn, if_false] at h
    exact List.mem_singleton.1 h ▸ hd.2

theorem expand?_escapeAttribute (t : Text) : expand? (escapeAttribute .xml t) = some t := by
  have hchar (c : Char) : (attributePiece c).char? = some c := by
    unfold attributePiece
    split <;> rfl
  rw [expand?, pieces?_escapeAttribute, Option.bind_some, mapM_char?_map hchar]

theorem readValue?_escapeAttribute (t : Text) :
    readValue? (escapeAttribute .xml t) = some t := by
  have hreturn : '\r' ∉ escapeAttribute .xml t :=
    fun h => plain_of_mem_escapeAttribute h (by decide)
  have hblanks : (escapeAttribute .xml t).map blankToSpace = escapeAttribute .xml t := by
    refine (List.map_congr_left fun c hc => ?_).trans (List.map_id _)
    have hplain := plain_of_mem_escapeAttribute hc
    simp only [List.mem_cons, List.not_mem_nil, or_false, not_or] at hplain
    rw [id, blankToSpace, if_neg (by simp [hplain])]
  rw [readValue?, withLineFeeds_eq_self hreturn, hblanks, expand?_escapeAttribute]

/-! ## Escaping is undone -/

/-- Reading undoes the escaping of every attribute value, and of a text exactly if it has no
carriage return; no mark of a tag is left in what is escaped, and no quote in a value. -/
theorem read_escape (t : Text) :
    readValue? (escapeAttribute .xml t) = some t ∧
      readData? (escapeText .xml t) = some (withLineFeeds t) ∧
      (readData? (escapeText .xml t) = some t ↔ '\r' ∉ t) ∧
      '<' ∉ escapeText .xml t ∧ '<' ∉ escapeAttribute .xml t ∧ '"' ∉ escapeAttribute .xml t := by
  refine ⟨readValue?_escapeAttribute t, readData?_escapeText t, ?_, lt_not_mem_escapeText t,
    fun h => plain_of_mem_escapeAttribute h (by decide),
    fun h => plain_of_mem_escapeAttribute h (by decide)⟩
  rw [readData?_escapeText, Option.some.injEq, withLineFeeds_eq_self_iff]

/-- A carriage return, which may occur in XML, does not come through a text as it does through a
value. -/
theorem readData?_escapeText_return :
    (∀ c ∈ ['x', '\r', 'y'], isAllowed c = true) ∧
      readData? (escapeText .xml ['x', '\r', 'y']) = some ['x', '\n', 'y'] ∧
      readData? (escapeText .xml ['x', '\r', 'y']) ≠ some ['x', '\r', 'y'] ∧
      readValue? (escapeAttribute .xml ['x', '\r', 'y']) = some ['x', '\r', 'y'] := by
  have hread : readData? (escapeText .xml ['x', '\r', 'y']) = some ['x', '\n', 'y'] :=
    readData?_escapeText _
  refine ⟨Text.forall_mem_of_all (by decide), hread, ?_, readValue?_escapeAttribute _⟩
  rw [hread]
  decide

end Xml

end PrettyPayload
