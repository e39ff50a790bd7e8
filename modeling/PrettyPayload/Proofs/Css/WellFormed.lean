import PrettyPayload.Css.Printer
import PrettyPayload.Proofs.Css.Passage
import PrettyPayload.Proofs.Text.Join

/-!
# Well-formed stylesheets

What a stylesheet must be like so that its written form can be read again. The texts in it are
clean, and each is free of what would be taken for something else at its place: a property does not
look like an at-rule, a value that is not important does not end like one that is, and the first
selector of a rule does not start like an at-rule or, at the top, like the marks of an HTML comment.
For a list of declarations on one line, neat texts are enough.
-/

namespace PrettyPayload

namespace Css

/-! ## Definitions -/

/-- Whether a value ends in an exclamation mark, blanks, and the word `important` in any case. -/
def EndsInImportant (value : Text) : Prop :=
  ∃ front blanks word, value = front ++ '!' :: blanks ++ word ∧
    (∀ c ∈ blanks, Text.isBlank c = true) ∧
    Text.equalsIgnoringCase "important".toList word = true

def startsAtRule : Text → Bool
  | '@' :: rest => (rest.dropWhile (· = ' ')).head?.any isNameChar
  | _ => false

structure Declaration.WellFormed (d : Declaration) : Prop where
  property_ne_nil : d.property ≠ []
  isClean_property : isClean endsProperty d.property = true
  startsAtRule_property : startsAtRule d.property = false
  isClean_value : isClean endsStatement d.value = true
  not_endsInImportant : d.important = false → ¬EndsInImportant d.value

/-- A declaration that can be written in a list on one line. Nothing there makes a block, so that
its texts may hold any braces. -/
structure Declaration.Listable (d : Declaration) : Prop where
  property_ne_nil : d.property ≠ []
  isNeat_property : isNeat endsProperty d.property = true
  isNeat_value : isNeat endsStatement d.value = true
  not_endsInImportant : d.important = false → ¬EndsInImportant d.value

def IsAtName (name : Text) : Prop := name ≠ [] ∧ ∀ c ∈ name, isNameChar c = true

instance (name : Text) : Decidable (IsAtName name) :=
  decidable_of_iff (name ≠ [] ∧ name.all isNameChar = true) (by rw [List.all_eq_true, IsAtName])

def IsSelector (selector : Text) : Prop :=
  selector ≠ [] ∧ isClean endsSelector selector = true

instance (selector : Text) : Decidable (IsSelector selector) := inferInstanceAs (Decidable (_ ∧ _))

def startsRule (top : Bool) (selector : Text) : Bool :=
  selector.head? ≠ some '@' &&
    (!top || !Text.startsWith "<!--".toList selector && !Text.startsWith "-->".toList selector)

def Head.WellFormed (top : Bool) : Head → Prop
  | .style selectors =>
    (∃ first, selectors.head? = some first ∧ startsRule top first = true) ∧
      ∀ selector ∈ selectors, IsSelector selector
  | .atRule name prelude => IsAtName name ∧ isClean endsStatement prelude = true

mutual

def Item.WellFormed (top : Bool) : Item → Prop
  | .declaration d => top = false ∧ d.WellFormed
  | .statement name prelude => IsAtName name ∧ isClean endsStatement prelude = true
  | .block head body => head.WellFormed top ∧ Item.AllWellFormed false body

def Item.AllWellFormed (top : Bool) : List Item → Prop
  | [] => True
  | item :: items => item.WellFormed top ∧ Item.AllWellFormed top items

end

def Stylesheet.WellFormed (sheet : Stylesheet) : Prop := Item.AllWellFormed true sheet.rules

/-! ## Importance -/

theorem dropPrefixIgnoringCase?_of_lower {p word : Text} (h : Text.lower word = Text.lower p)
    (t : Text) : Text.dropPrefixIgnoringCase? p (word ++ t) = some t := by
  induction p generalizing word with
  | nil =>
    obtain rfl : word = [] := by simpa [Text.lower] using h
    rfl
  | cons a p ih =>
    cases word with
    | nil => simp [Text.lower] at h
    | cons b word =>
      simp only [Text.lower, List.map_cons, List.cons.injEq] at h
      rw [List.cons_append, Text.dropPrefixIgnoringCase?, if_pos h.1.symm]
      exact ih h.2

theorem eq_append_of_dropPrefixIgnoringCase? {p t rest : Text}
    (h : Text.dropPrefixIgnoringCase? p t = some rest) :
    ∃ word, t = word ++ rest ∧ Text.lower word = Text.lower p := by
  induction p generalizing t with
  | nil => exact ⟨[], by simpa [Text.dropPrefixIgnoringCase?] using h, rfl⟩
  | cons a p ih =>
    cases t with
    | nil => cases h
    | cons b t =>
      rw [Text.dropPrefixIgnoringCase?] at h
      split at h
      next hab =>
        obtain ⟨word, rfl, hword⟩ := ih h
        refine ⟨b :: word, rfl, ?_⟩
        simp only [Text.lower, List.map_cons] at hword ⊢
        rw [hword, hab]
      next => cases h

theorem splitImportant_eq_self {value : Text} (ht : Text.trimEnd Text.isBlank value = value)
    (h : ¬EndsInImportant value) : splitImportant value = (value, false) := by
  unfold splitImportant
  simp only [ht]
  split
  · rfl
  next back hback =>
    split
    next rest hrest =>
      refine absurd ?_ h
      obtain ⟨word, hword, hlower⟩ := eq_append_of_dropPrefixIgnoringCase? hback
      have hsplit := (List.takeWhile_append_dropWhile (p := Text.isBlank) (l := back)).symm
      rw [hrest] at hsplit
      refine ⟨rest.reverse, (back.takeWhile Text.isBlank).reverse, word.reverse, ?_, ?_, ?_⟩
      · rw [← List.reverse_inj, hword]
        exact (congrArg (word ++ ·) hsplit).trans (by simp)
      · intro c hc
        exact List.all_eq_true.1 (List.all_takeWhile) c (List.mem_reverse.1 hc)
      · have := congrArg List.reverse hlower
        simp only [Text.lower, ← List.map_reverse] at this
        simp only [Text.equalsIgnoringCase, Text.lower, decide_eq_true_eq, this]
        decide
    · rfl

/-- A mark of importance at the end of a value is taken off. -/
theorem splitImportant_of_endsInImportant {value : Text}
    (ht : Text.trimEnd Text.isBlank value = value) (h : EndsInImportant value) :
    (splitImportant value).2 = true := by
  obtain ⟨front, blanks, word, rfl, hblanks, hword⟩ := h
  have hlower : Text.lower word.reverse = Text.lower "tnatropmi".toList := by
    have hreverse := congrArg List.reverse (of_decide_eq_true hword)
    rw [Text.lower, List.map_reverse, ← Text.lower, ← hreverse]
    decide
  have hback : List.dropWhile Text.isBlank (blanks.reverse ++ '!' :: front.reverse) =
      '!' :: front.reverse := by
    rw [← Text.trimStart,
      Text.trimStart_append_of_all fun c hc => hblanks c (List.mem_reverse.1 hc),
      Text.trimStart_cons (by decide)]
  have hreverse : (front ++ '!' :: blanks ++ word).reverse =
      word.reverse ++ (blanks.reverse ++ '!' :: front.reverse) := by simp
  unfold splitImportant
  simp only [ht, hreverse, dropPrefixIgnoringCase?_of_lower hlower, hback]

theorem splitImportant_append {value : Text}
    (h : ∀ c, value.getLast? = some c → Text.isBlank c = false) :
    splitImportant (value ++ " !important".toList) = (value, true) := by
  have ht : Text.trimEnd Text.isBlank (value ++ " !important".toList) =
      value ++ " !important".toList :=
    Text.trimEnd_eq_self (by simp; decide)
  have hr : (value ++ " !important".toList).reverse =
      "tnatropmi".toList ++ ('!' :: ' ' :: value.reverse) := by
    simp
  have hback : List.dropWhile Text.isBlank ('!' :: ' ' :: value.reverse) =
      '!' :: ' ' :: value.reverse := by
    rw [List.dropWhile_cons_of_neg (by decide)]
  have hspace : List.dropWhile Text.isBlank (' ' :: value.reverse) = value.reverse := by
    rw [List.dropWhile_cons_of_pos (by decide)]
    exact Text.trimStart_eq_self (by simpa using h)
  simp only [splitImportant, ht, hr, dropPrefixIgnoringCase?_of_lower rfl, hback, hspace,
    List.reverse_reverse]

end Css

end PrettyPayload
