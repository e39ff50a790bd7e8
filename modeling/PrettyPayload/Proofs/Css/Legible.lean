import PrettyPayload.Proofs.Css.Parts
import PrettyPayload.Proofs.Css.Tight
import PrettyPayload.Proofs.Css.WellFormed

/-!
# Legible stylesheets

What a stylesheet must be like so that its written form is read as it was. The texts in it are
tight, and each is free of what would be taken for something else at its place: a property does not
look like an at-rule, a value that is not important does not end like one that is, and the first
selector of a rule does not start like an at-rule or, at the top, like the marks of an HTML comment.
The written declarations, statements and heads are then sealed and are read as what they were
written from; selectors are found again between their commas, and the name of an at-rule ends before
the space behind it. Well-formed stylesheets are legible.
-/

namespace PrettyPayload

namespace Css

variable {stops : Char → Bool} {c : Char} {s t name prelude rest : Text}

/-! ## Definitions -/

def cutsSelector (c : Char) : Bool := endsItem c || c = ','

def hasAtName : Text → Bool
  | '@' :: rest => (collapse rest).head?.any isNameChar
  | _ => false

structure Declaration.Legible (stops : Char → Bool) (d : Declaration) : Prop where
  property_ne_nil : d.property ≠ []
  tight_property : Tight (fun c => stops c || c = ':') d.property
  tight_value : Tight stops d.value
  splitImportant_value : d.important = false → splitImportant d.value = (d.value, false)

def Head.Legible (top : Bool) : Head → Prop
  | .style selectors =>
    (∃ first, selectors.head? = some first ∧ startsRule top first = true) ∧
      ∀ selector ∈ selectors, selector ≠ [] ∧ Tight cutsSelector selector
  | .atRule name prelude => IsAtName name ∧ Tight endsItem prelude

mutual

def Item.Legible (top : Bool) : Item → Prop
  | .declaration d => top = false ∧ d.Legible endsItem ∧ hasAtName d.property = false
  | .statement name prelude => IsAtName name ∧ Tight endsItem prelude
  | .block head body => head.Legible top ∧ Item.AllLegible false body

def Item.AllLegible (top : Bool) : List Item → Prop
  | [] => True
  | item :: items => item.Legible top ∧ Item.AllLegible top items

end

/-! ## Words -/

/-- The characters that mean something to a scan of a stylesheet. -/
def marks : Text := ['\\', '{', '}', '*', '"', '\'', '(', ')', '[', ']', ';', ',', ':']

theorem not_mem_marks_of_isNameChar (h : isNameChar c = true) : c ∉ marks := by
  intro hm
  have hnone : ∀ c ∈ marks, isNameChar c = false := Text.forall_mem_of_all (by decide)
  rw [hnone c hm] at h
  cases h

/-- Characters without a meaning of their own are a tight text. -/
theorem tight_of_not_mem_marks (hs : ∀ c, stops c = true → c ∈ marks)
    (h : ∀ c ∈ t, c ∉ marks ∧ Text.isBlank c = false) : Tight stops t := by
  have hsealed : Sealed stops t := by
    induction t with
    | nil => exact .nil
    | cons c t ih =>
      rw [List.forall_mem_cons] at h
      have hc : c ∉ ['\\', '{', '}', '"', '\'', '(', ')', '[', ']'] := by
        have hsub : ∀ c ∈ ['\\', '{', '}', '"', '\'', '(', ')', '[', ']'], c ∈ marks :=
          Text.forall_mem_of_all (by decide)
        exact fun hm => h.1.1 (hsub c hm)
      refine Sealed.append (.singleton hc (Bool.eq_false_iff.2 fun hm => h.1.1 (hs c hm)))
        (ih h.2) ?_
      rintro - hstar
      obtain ⟨u, rfl⟩ := List.head?_eq_some_iff.1 hstar
      exact absurd (h.2 '*' List.mem_cons_self).1 (by decide)
  have hblank : ∀ c ∈ t, Text.isBlank c = false := fun c hc => (h c hc).2
  have hquote : ∀ c ∈ t, isQuote c = false := by
    intro c hc
    have hmarks := (h c hc).1
    simp only [marks, List.mem_cons, List.not_mem_nil, or_false, not_or] at hmarks
    simp [isQuote, hmarks]
  refine .of_sealed hsealed ?_ (Text.trim_eq_self (fun c hc => hblank c (List.mem_of_head? hc))
    fun c hc => hblank c (List.mem_of_getLast? hc))
  clear h hsealed
  unfold Stable
  induction t with
  | nil => rfl
  | cons c t ih =>
    rw [List.forall_mem_cons] at hblank hquote
    simp [collapseFrom, Spot.emit, Spot.step, hblank.1, hquote.1, ih hblank.2 hquote.2]

theorem mem_marks_of_cutsSelector (c : Char) (h : cutsSelector c = true) : c ∈ marks := by
  simp only [cutsSelector, endsItem, Bool.or_eq_true, decide_eq_true_eq] at h
  rcases h with ((rfl | rfl) | rfl) | rfl <;> decide

theorem cutsSelector_of_endsItem (c : Char) (h : endsItem c = true) : cutsSelector c = true := by
  rw [cutsSelector, h, Bool.true_or]

theorem mem_marks_of_endsItem (c : Char) (h : endsItem c = true) : c ∈ marks :=
  mem_marks_of_cutsSelector c (cutsSelector_of_endsItem c h)

theorem tight_name (h : ∀ c ∈ name, isNameChar c = true) : Tight endsItem name :=
  tight_of_not_mem_marks mem_marks_of_endsItem fun c hc =>
    ⟨not_mem_marks_of_isNameChar (h c hc), isBlank_of_isNameChar (h c hc)⟩

/-! ## Written at-rules -/

theorem tight_append_prelude {word : Text} (hword : Tight endsItem word) (hne : word ≠ [])
    (h : Tight endsItem prelude) :
    Tight endsItem (word ++ if prelude = [] then [] else ' ' :: prelude) := by
  split
  next => rwa [List.append_nil]
  next hp =>
    have hgap : ∀ c ∈ [' '], endsItem c = false := Text.forall_mem_of_all (by decide)
    exact Tight.append (Or.inl rfl) hgap hword hne h hp

theorem tight_atText (hname : IsAtName name) (h : Tight endsItem prelude) :
    Tight endsItem (atText name prelude) := by
  have hword : Tight endsItem ('@' :: name) := by
    refine tight_of_not_mem_marks mem_marks_of_endsItem (List.forall_mem_cons.2 ⟨by decide, ?_⟩)
    exact fun c hc =>
      ⟨not_mem_marks_of_isNameChar (hname.2 c hc), isBlank_of_isNameChar (hname.2 c hc)⟩
  exact tight_append_prelude hword (List.cons_ne_nil _ _) h

theorem splitAtName_append_prelude (hname : IsAtName name) (h : Tight endsItem prelude) :
    splitAtName (name ++ if prelude = [] then [] else ' ' :: prelude) = (name, prelude) := by
  have htake : ∀ c ∈ name, isNameChar c = true := hname.2
  rw [splitAtName, List.takeWhile_append_of_pos htake, List.dropWhile_append_of_pos htake]
  split
  next hp => simp [hp]
  next hp =>
    have hblank : ∀ c ∈ [' '], Text.isBlank c = true := Text.forall_mem_of_all (by decide)
    rw [List.takeWhile_cons_of_neg (by decide), List.dropWhile_cons_of_neg (by decide),
      List.append_nil, ← List.singleton_append, Text.trim_append_of_all hblank, h.trim_eq]

theorem readStatement_atText {top : Bool} (hname : IsAtName name) (h : Tight endsItem prelude) :
    readStatement top (atText name prelude) = .ok (.statement name prelude) := by
  have htail := tight_append_prelude (tight_name hname.2) hname.1 h
  unfold readStatement
  rw [(tight_atText hname h).trim_eq]
  simp only [atText, List.cons_append, htail.collapsed, splitAtName_append_prelude hname h,
    if_neg hname.1]

/-! ## Written declarations -/

section Declarations

variable {d : Declaration}

/-- The marks of a declaration are no separators around it. -/
theorem not_stops_of_not_endsItem (hs : ∀ c, stops c = true → endsItem c = true)
    (hc : endsItem c = false) : stops c = false := by
  rw [Bool.eq_false_iff] at hc ⊢
  exact fun h => hc (hs c h)

/-- What stands behind the colon of a declaration is nothing, or a space and a tight text from which
value and importance are read. -/
theorem Declaration.Legible.exists_tail (hs : ∀ c, stops c = true → endsItem c = true)
    (h : d.Legible stops) :
    ∃ v tail, d.text = d.property ++ ':' :: tail ∧ Tight stops v ∧
      (tail = [] ∧ v = [] ∨ tail = ' ' :: v ∧ v ≠ []) ∧
        splitImportant v = (d.value, d.important) := by
  obtain ⟨property, value, important⟩ := d
  have hv := h.tight_value
  have hlast : ∀ c, value.getLast? = some c → Text.isBlank c = false :=
    fun _ => hv.getLast?_isBlank
  have hmark : Tight stops "!important".toList := by
    exact tight_of_not_mem_marks (fun c hc => mem_marks_of_endsItem c (hs c hc))
      (Text.forall_mem_of_all (by decide))
  cases important with
  | false =>
    refine ⟨value, if value = [] then [] else ' ' :: value, by simp [Declaration.text], hv, ?_,
      h.splitImportant_value rfl⟩
    by_cases hne : value = []
    · exact Or.inl ⟨if_pos hne, hne⟩
    · exact Or.inr ⟨if_neg hne, hne⟩
  | true =>
    by_cases hne : value = []
    · obtain rfl : value = [] := hne
      exact ⟨"!important".toList, " !important".toList, by simp [Declaration.text], hmark,
        Or.inr ⟨rfl, by decide⟩, show splitImportant "!important".toList = ([], true) by decide⟩
    · refine ⟨value ++ " !important".toList, ' ' :: (value ++ " !important".toList),
        by simp [Declaration.text, hne], ?_, Or.inr ⟨rfl, by simp⟩, splitImportant_append hlast⟩
      have hspace : ∀ c ∈ [' '], stops c = false :=
        List.forall_mem_singleton.2 (not_stops_of_not_endsItem hs (by decide))
      exact Tight.append (Or.inl rfl) hspace hv hne hmark (by decide)

theorem Declaration.Legible.isSealed_text (hs : ∀ c, stops c = true → endsItem c = true)
    (h : d.Legible stops) :
    Sealed stops d.text ∧ Text.trim Text.isBlank d.text = d.text := by
  obtain ⟨v, tail, htext, hv, htail, -⟩ := h.exists_tail hs
  have hproperty : Sealed stops d.property :=
    h.tight_property.toSealed.mono fun c hc => by rw [hc, Bool.true_or]
  have hcolon : Sealed stops [':'] :=
    .singleton (by decide) (not_stops_of_not_endsItem hs (by decide))
  have hspace : Sealed stops [' '] :=
    .singleton (by decide) (not_stops_of_not_endsItem hs (by decide))
  have hsealed : Sealed stops tail ∧ tail.head? ≠ some '*' := by
    rcases htail with ⟨rfl, -⟩ | ⟨rfl, -⟩
    · exact ⟨.nil, nofun⟩
    · exact ⟨hspace.append hv.toSealed fun h => absurd h (by decide), by simp⟩
  rw [htext]
  constructor
  · refine hproperty.append (hcolon.append hsealed.1 fun h => absurd h (by decide)) ?_
    simp
  · refine Text.trim_eq_self ?_ ?_
    · intro c hc
      rw [List.head?_append_of_ne_nil _ h.property_ne_nil] at hc
      exact h.tight_property.head?_isBlank hc
    · intro c hc
      rcases htail with ⟨rfl, -⟩ | ⟨rfl, hne⟩
      · rw [List.getLast?_concat] at hc
        obtain rfl := Option.some.inj hc
        decide
      · have hsplit : d.property ++ ':' :: ' ' :: v = (d.property ++ [':', ' ']) ++ v := by simp
        rw [hsplit, List.getLast?_append_of_ne_nil _ hne] at hc
        exact hv.getLast?_isBlank hc

theorem Declaration.Legible.text_ne_nil (h : d.Legible stops) : d.text ≠ [] := by
  rw [Declaration.text, List.append_assoc]
  exact List.append_ne_nil_of_left_ne_nil h.property_ne_nil _

theorem Declaration.Legible.readDeclaration_text (hs : ∀ c, stops c = true → endsItem c = true)
    (h : d.Legible stops) : readDeclaration d.text = .ok d := by
  obtain ⟨v, tail, htext, hv, htail, hsplit⟩ := h.exists_tail hs
  have hcolon : breakAt (fun c => decide (c = ':')) Nesting.start d.text =
      some (d.property, ':', tail) := by
    rw [htext]
    refine (h.tight_property.toSealed.mono ?_).breakAt_eq (by decide) tail
    intro c hc
    rw [hc, Bool.or_true]
  have hcollapse : collapse tail = v := by
    rcases htail with ⟨rfl, rfl⟩ | ⟨rfl, -⟩
    · decide
    · exact hv.collapse_cons_space
  rw [readDeclaration]
  dsimp only
  rw [(h.isSealed_text hs).2, hcolon]
  dsimp only
  rw [h.tight_property.collapsed, if_neg h.property_ne_nil, hcollapse, hsplit]

theorem splitAtName_eq_nil_iff : (splitAtName t).1 = [] ↔ t.head?.any isNameChar = false := by
  cases t with
  | nil => simp [splitAtName]
  | cons c t => cases hc : isNameChar c <;> simp [splitAtName, hc]

/-- What stands behind a property does not make a name of an at-rule in it. -/
theorem hasAtName_append_colon (hne : t ≠ []) (rest : Text) :
    hasAtName (t ++ ':' :: rest) = hasAtName t := by
  obtain ⟨c, t, rfl⟩ := List.exists_cons_of_ne_nil hne
  by_cases hc : c = '@'
  · subst hc
    rw [List.cons_append, hasAtName, hasAtName, head?_collapse, head?_collapse,
      List.dropWhile_append]
    split
    next hnil =>
      rw [List.isEmpty_iff.1 hnil, List.dropWhile_cons_of_neg (by decide), List.head?_cons]
      decide
    next hsome => rw [List.head?_append_of_ne_nil _ fun hnil => hsome (by rw [hnil]; rfl)]
  · have hnot : ∀ u : Text, hasAtName (c :: u) = false := by
      intro u
      unfold hasAtName
      split
      next heq => exact absurd (List.cons.inj heq).1 hc
      next => rfl
    rw [List.cons_append, hnot, hnot]

theorem hasAtName_collapse (h : ∀ c, t.head? = some c → Text.isBlank c = false) :
    hasAtName (collapse t) = hasAtName t := by
  cases t with
  | nil => decide
  | cons c t =>
    have hc := h c rfl
    have hfrom : collapseFrom (.between false) (c :: t) =
        c :: collapseFrom ((Spot.between false).step c) t := by
      rw [collapseFrom, Spot.emit, hc]
      simp
    have hcollapse : collapse (c :: t) =
        c :: Text.trimEnd Text.isBlank (collapseFrom ((Spot.between false).step c) t) := by
      rw [collapse, hfrom, Text.trim, Text.trimStart_cons hc, Text.trimEnd_cons_of_false hc]
    by_cases hat : c = '@'
    · subst hat
      have hstable : Stable (collapse ('@' :: t)) := stable_collapse _
      rw [hcollapse] at hstable ⊢
      have hspot : (Spot.between false).step '@' = .between false := by decide
      have hrest := Stable.right (s := ['@']) hstable hspot
      rw [hspot] at hrest ⊢
      rw [hasAtName, hasAtName, collapse, hrest, Text.trim_trimEnd, ← collapse]
    · rw [hcollapse]
      unfold hasAtName
      split
      next heq => exact absurd (List.cons.inj heq).1 hat
      next =>
        split
        next heq => exact absurd (List.cons.inj heq).1 hat
        next => rfl

theorem Declaration.Legible.readStatement_text (h : d.Legible endsItem)
    (hname : hasAtName d.property = false) : readStatement false d.text = .ok (.declaration d) := by
  have hdeclaration : Item.declaration <$> readDeclaration d.text = .ok (.declaration d) := by
    rw [h.readDeclaration_text fun _ => id]
    rfl
  obtain ⟨v, tail, htext, -⟩ := h.exists_tail fun _ => id
  have hname' := hasAtName_append_colon h.property_ne_nil tail
  rw [← htext, hname] at hname'
  unfold readStatement
  rw [(h.isSealed_text fun _ => id).2]
  simp only [Bool.false_eq_true, if_false]
  split
  next rest hat =>
    rw [hat, hasAtName] at hname'
    rw [if_pos (splitAtName_eq_nil_iff.2 hname'), hdeclaration]
  next => exact hdeclaration

end Declarations

/-! ## Lists -/

theorem splitAtTop_joinWith {d : Char} {parts : List Text} (hne : parts ≠ [])
    (h : ∀ part ∈ parts, Sealed (fun c => decide (c = d)) part) :
    splitAtTop d (Text.joinWith [d] parts) = parts := by
  have hparted : Parted d parts :=
    { ne_nil := hne
      uncut := fun part hpart => breakAt_eq_none_iff_of_eq.1 (h part hpart).uncut
      ends := fun part hpart => by rw [(h part (List.dropLast_subset _ hpart)).nesting]; rfl }
  exact hparted.splitAtTop_joinWith

theorem splitAtTop_joinWith_space {d : Char} {first : Text} {parts : List Text} (hd : d ≠ ' ')
    (h : ∀ part ∈ first :: parts, Sealed (fun c => decide (c = d)) part) :
    splitAtTop d (Text.joinWith [d, ' '] (first :: parts)) = first :: parts.map (' ' :: ·) := by
  have hjoin : Text.joinWith [d, ' '] (first :: parts) =
      Text.joinWith [d] (first :: parts.map (' ' :: ·)) := by
    rw [Text.joinWith_cons, Text.joinWith_cons, List.flatMap_map]
    simp
  rw [List.forall_mem_cons] at h
  rw [hjoin]
  refine splitAtTop_joinWith (List.cons_ne_nil _ _) (List.forall_mem_cons.2 ⟨h.1, ?_⟩)
  intro part hpart
  obtain ⟨part, hmem, rfl⟩ := List.mem_map.1 hpart
  have hspace : Sealed (fun c => decide (c = d)) [' '] :=
    .singleton (by decide) (by simpa using hd.symm)
  exact hspace.append (h.2 part hmem) fun h => absurd h (by decide)

theorem trim_cons_space (t : Text) :
    Text.trim Text.isBlank (' ' :: t) = Text.trim Text.isBlank t :=
  Text.trim_append_of_all (s := [' ']) (Text.forall_mem_of_all (by decide)) t

theorem mapM_eq_ok {α β ε : Type} {f : α → Except ε β} {g : α → β} {l : List α}
    (h : ∀ a ∈ l, f a = .ok (g a)) : l.mapM f = .ok (l.map g) := by
  induction l with
  | nil => rfl
  | cons a l ih =>
    rw [List.mapM_cons, h a List.mem_cons_self, ih fun a ha => h a (List.mem_cons_of_mem _ ha)]
    rfl

theorem mapM_map_eq_ok {α β ε : Type} {f : α → Except ε β} {g : β → α} {l : List β}
    (h : ∀ b ∈ l, f (g b) = .ok b) : (l.map g).mapM f = .ok l := by
  have hread : l.mapM (f ∘ g) = .ok (l.map id) := mapM_eq_ok h
  rw [List.mapM_map, hread, List.map_id]

/-! ## Written selectors -/

theorem tight_joinWith {selectors : List Text}
    (h : ∀ s ∈ selectors, s ≠ [] ∧ Tight cutsSelector s) :
    Tight endsItem (Text.joinWith [',', ' '] selectors) := by
  induction selectors with
  | nil => exact { Sealed.nil with collapsed := rfl }
  | cons s selectors ih =>
    rw [List.forall_mem_cons] at h
    have hs : Tight endsItem s := h.1.2.mono cutsSelector_of_endsItem
    cases selectors with
    | nil => rwa [Text.joinWith_singleton]
    | cons next selectors =>
      have hne : Text.joinWith [',', ' '] (next :: selectors) ≠ [] := by
        rw [Text.joinWith_cons]
        exact List.append_ne_nil_of_left_ne_nil (h.2 next List.mem_cons_self).1 _
      rw [Text.joinWith_cons_cons, List.append_assoc]
      have hgap : ∀ c ∈ [',', ' '], endsItem c = false := Text.forall_mem_of_all (by decide)
      exact Tight.append (Or.inr rfl) hgap hs h.1.1 (ih h.2) hne

theorem readSelectors_joinWith {selectors : List Text} (hne : selectors ≠ [])
    (h : ∀ s ∈ selectors, s ≠ [] ∧ Tight cutsSelector s) :
    readSelectors (Text.joinWith [',', ' '] selectors) = .ok selectors := by
  have hcomma : ∀ c, decide (c = ',') = true → cutsSelector c = true := by
    intro c hc
    rw [cutsSelector, hc, Bool.or_true]
  cases selectors with
  | nil => exact absurd rfl hne
  | cons first selectors =>
    have hsplit := splitAtTop_joinWith_space (d := ',') (by decide)
      fun s hs => (h s hs).2.toSealed.mono hcomma
    have htrim : ∀ s ∈ first :: selectors, Text.trim Text.isBlank s = s ∧ s ≠ [] :=
      fun s hs => ⟨(h s hs).2.trim_eq, (h s hs).1⟩
    have hfirst := htrim first List.mem_cons_self
    rw [readSelectors, hsplit, List.mapM_cons]
    simp only [hfirst.1, if_neg hfirst.2]
    rw [mapM_map_eq_ok]
    · rfl
    · intro s hs
      have := htrim s (List.mem_cons_of_mem _ hs)
      simp only [trim_cons_space, this.1, if_neg this.2]

/-! ## Written heads -/

theorem Head.Legible.tight_text {top : Bool} {head : Head} (h : head.Legible top) :
    Tight endsItem head.text := by
  cases head with
  | style selectors => exact tight_joinWith h.2
  | atRule name prelude => exact tight_atText h.1 h.2

theorem head?_joinWith {first : Text} (selectors : List Text) (hne : first ≠ []) :
    (Text.joinWith [',', ' '] (first :: selectors)).head? = first.head? := by
  cases first with
  | nil => exact absurd rfl hne
  | cons c first =>
    cases selectors with
    | nil => simp
    | cons s selectors => simp [Text.joinWith_cons_cons]

theorem Head.Legible.readHead_text {top : Bool} {head : Head} {body : Text}
    (h : head.Legible top) : readHead (head.text ++ [' ']) body = .ok head := by
  unfold readHead
  rw [h.tight_text.collapse_concat_space]
  cases head with
  | atRule name prelude =>
    simp only [Head.text, atText, List.cons_append, splitAtName_append_prelude h.1 h.2,
      if_neg h.1.1]
  | style selectors =>
    obtain ⟨⟨first, hfirst, hstart⟩, hselectors⟩ := h
    obtain ⟨selectors, rfl⟩ := List.head?_eq_some_iff.1 hfirst
    have hne := (hselectors first List.mem_cons_self).1
    have hhead := head?_joinWith selectors hne
    have hat : first.head? ≠ some '@' := by
      simp only [startsRule, Bool.and_eq_true, decide_eq_true_eq] at hstart
      exact hstart.1
    have hread := readSelectors_joinWith (List.cons_ne_nil first selectors) hselectors
    simp only [Head.text]
    split
    next hnil =>
      rw [hnil] at hhead
      exact absurd (List.head?_eq_none_iff.1 hhead.symm) hne
    next rest hrest =>
      rw [hrest] at hhead
      exact absurd hhead.symm hat
    next => rw [hread]; rfl

end Css

end PrettyPayload
