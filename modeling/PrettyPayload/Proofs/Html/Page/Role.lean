import PrettyPayload.Proofs.Html.Page.Formatting

/-!
# The elements of a body by role

Most elements of a body fall into a few roles, by what their start tag closes and by what their end
tag looks for. `admits` says of an element that its start tag closes nothing of what is open.
-/

namespace PrettyPayload

namespace Html

/-! ## Definitions -/

/-- How an element of a body is opened and closed. -/
inductive Role where
  /-- Closes a paragraph that is open. -/
  | block
  /-- Goes on where a block cuts it off. -/
  | formatting
  | heading
  /-- Drops a line feed at its start. -/
  | preformatted
  /-- Closes an item before it. -/
  | item
  | button
  /-- Does not nest. -/
  | form
  /-- Part of a ruby text. -/
  | ruby
  /-- Closes an option before it. -/
  | choice
  /-- Closes the list of formatting elements off. -/
  | marked
  /-- Has no content. -/
  | void
  /-- Closes nothing. -/
  | ordinary
  deriving DecidableEq, Repr

def itemTags : List String := ["li", "dd", "dt"]

def voidTags : List String :=
  ["area", "base", "basefont", "bgsound", "br", "embed", "hr", "img", "input", "keygen", "link",
    "meta", "param", "source", "track", "wbr"]

/-- The elements with rules of their own: those of the page as a whole, of tables, lists of options
and foreign content, and those whose content is not markup. -/
def particularTags : List String :=
  ["html", "head", "body", "frameset", "frame", "table", "caption", "colgroup", "col", "tbody",
    "thead", "tfoot", "tr", "td", "th", "select", "math", "svg", "image", "title", "style",
    "script", "template", "textarea", "xmp", "iframe", "noembed", "noframes", "noscript",
    "plaintext"]

def Role.tags : Role → List String
  | .block => blockTags
  | .formatting => "a" :: "nobr" :: formattingTags
  | .heading => headings
  | .preformatted => lineFeedTags
  | .item => itemTags
  | .button => ["button"]
  | .form => ["form"]
  | .ruby => ["rb", "rtc", "rp", "rt"]
  | .choice => ["optgroup", "option"]
  | .marked => ["applet", "marquee", "object"]
  | .void => voidTags
  | .ordinary => []

def Role.particular : List Role :=
  [.block, .formatting, .heading, .preformatted, .item, .button, .form, .ruby, .choice,
    .marked, .void]

/-- The role of an element, unless it has rules of its own. -/
def roleOf? (name : String) : Option Role :=
  if particularTags.contains name then none
  else some ((Role.particular.find? fun r => r.tags.contains name).getD .ordinary)

def itemIn (names : List String) : List String → Bool
  | [] => false
  | n :: path =>
    names.contains n ||
      (!(isSpecial (htmlName n) && !(["address", "div", "p"].contains n)) && itemIn names path)

def itemsLike (name : String) : List String := if name = "li" then ["li"] else ["dd", "dt"]

def freeOfParagraph (path : List String) : Bool := !Steady.reaches buttonScope ["p"] path

def freeOfRuby (path : List String) (name : String) : Bool :=
  !path.head?.any fun n =>
    impliedEnd (htmlName n) && (["rb", "rtc"].contains name || n ≠ "rtc")

/-- The modes in which tags are read by the rules for the body, but for the parts of tables. -/
def Mode.isOfBody : Mode → Bool
  | inBody | inCaption | inCell => true
  | _ => false

/-- Whether an element of a body may be opened in some others, innermost first, without closing
any. -/
def admits (path : List String) (name : String) : Bool :=
  match roleOf? name with
  | none => false
  | some .block => freeOfParagraph path
  | some .formatting => path.count name < (if ["a", "nobr"].contains name then 1 else 3)
  | some .heading => freeOfParagraph path && !path.head?.any headings.contains
  | some .preformatted => freeOfParagraph path
  | some .item => freeOfParagraph path && !itemIn (itemsLike name) path
  | some .button => !Steady.reaches defaultScope ["button"] path
  | some .form => freeOfParagraph path && !path.contains "form"
  | some .ruby => freeOfRuby path name
  | some .choice => path.head? ≠ some "option"
  | some .marked => true
  | some .void => name ≠ "hr" || freeOfParagraph path
  | some .ordinary => true

variable {page : Page} {root : Nat} {opened : List Opened} {o : Opened} {tag : Tag}
  {name : String} {r : Role} {token : Token}

/-! ## Roles -/

theorem roleOf?_of_mem_tags (r : Role) : ∀ n ∈ r.tags, roleOf? n = some r := by
  cases r <;> decide

theorem mem_tags_of_roleOf? (h : roleOf? name = some r) (hr : r ≠ .ordinary) : name ∈ r.tags := by
  rw [roleOf?] at h
  split at h
  next => cases h
  next =>
    obtain rfl := Option.some.inj h
    cases hfind : Role.particular.find? fun r => r.tags.contains name with
    | none =>
      rw [hfind] at hr
      exact absurd rfl hr
    | some r =>
      have hfound := List.find?_some hfind
      exact List.contains_iff_mem.1 hfound

theorem contains_tags_of_ne {r s : Role} (h : roleOf? name = some r) (hne : r ≠ s) :
    s.tags.contains name = false := by
  rw [Bool.eq_false_iff, Ne, List.contains_iff_mem]
  intro hmem
  exact hne (Option.some.inj (h.symm.trans (roleOf?_of_mem_tags s name hmem)))

theorem exists_role_of_admits {path : List String} (h : admits path name = true) :
    ∃ r, roleOf? name = some r := by
  cases hrole : roleOf? name with
  | none => simp [admits, hrole] at h
  | some r => exact ⟨r, rfl⟩

theorem contains_particularTags (h : roleOf? name = some r) :
    particularTags.contains name = false := by
  rw [roleOf?] at h
  split at h
  next => cases h
  next hparticular => exact Bool.eq_false_iff.2 hparticular

theorem not_mem_of_subset (names : List String) (h : roleOf? name = some r)
    (hnames : names ⊆ particularTags) : name ∉ names := fun hmem =>
  absurd (List.contains_iff_mem.2 (hnames hmem))
    (by rw [contains_particularTags h]; exact Bool.false_ne_true)

theorem ne_template_of_roleOf? (h : roleOf? name = some r) : name ≠ "template" := by
  have hmem := not_mem_of_subset ["template"] h (by decide)
  exact fun heq => hmem (List.mem_singleton.2 heq)

theorem isFormatting_eq (name : String) :
    isFormatting name = Role.formatting.tags.contains name := by
  rw [Bool.eq_iff_iff]
  simp [isFormatting, Role.tags, or_comm, or_left_comm]

theorem modeOf_cons_of_roleOf? (h : roleOf? name = some r) (path : List String) :
    modeOf (name :: path) = modeOf path := by
  have hmem := not_mem_of_subset ("select" :: ownModes.map Prod.fst) h
    (by decide)
  rw [List.mem_cons, not_or] at hmem
  have hlookup : ownModes.lookup name = none := by
    rw [List.lookup_eq_none_iff]
    intro entry hentry
    simpa using fun heq : name = entry.1 => hmem.2 (heq ▸ List.mem_map_of_mem hentry)
  rw [modeOf, if_neg hmem.1, hlookup]
  rfl

theorem isFormatting_of_roleOf? (h : roleOf? name = some r) :
    isFormatting name = decide (r = .formatting) := by
  rw [isFormatting_eq]
  by_cases hr : r = .formatting
  · rw [decide_eq_true hr, List.contains_iff_mem, ← hr]
    exact mem_tags_of_roleOf? h (hr ▸ by decide)
  · rw [decide_eq_false hr, contains_tags_of_ne h hr]

theorem markedTags_of_roleOf? (h : roleOf? name = some r) :
    markedTags.contains name = decide (r = .marked) := by
  by_cases hr : r = .marked
  · rw [decide_eq_true hr, List.contains_iff_mem]
    have hsub : Role.marked.tags ⊆ markedTags := by decide
    exact hsub (hr ▸ mem_tags_of_roleOf? h (hr ▸ by decide))
  · have hlist : ∀ n ∈ markedTags, n ∈ Role.marked.tags ∨ n ∈ particularTags := by
      decide
    rw [decide_eq_false hr, Bool.eq_false_iff, Ne, List.contains_iff_mem]
    intro hmem
    rcases hlist name hmem with hmem | hmem
    · exact hr (Option.some.inj (h.symm.trans (roleOf?_of_mem_tags .marked name hmem)))
    · exact not_mem_of_subset _ h (List.Subset.refl _) hmem

theorem entries_of_roleOf? (h : roleOf? o.tag.name = some r) :
    o.entries = if r = .formatting then [.element o.handle o.tag]
      else if r = .marked then [.marker] else [] := by
  rw [Opened.entries, isFormatting_of_roleOf? h, markedTags_of_roleOf? h]
  simp only [decide_eq_true_eq]

theorem ne_form_of_roleOf? (h : roleOf? name = some r) (hr : r ≠ .form) : name ≠ "form" := by
  have hmem := contains_tags_of_ne h hr
  rintro rfl
  exact absurd hmem (by decide)

end Html

end PrettyPayload
