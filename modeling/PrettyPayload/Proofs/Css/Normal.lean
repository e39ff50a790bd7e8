import PrettyPayload.Proofs.Css.Reread

/-!
# What reading leaves of a stylesheet

Whatever the source, the texts that are read from it are in one form: their white space is
collapsed, selectors are told apart and trimmed, names of at-rules are names, and importance has
been taken off every value that shows it. `Item.Normal` says this of an item and of everything in
it, and it holds of every item that is read, since the pieces of a collapsed text between closed
literals are collapsed themselves. At the top nothing but rules is read, so that a stylesheet holds
all its source does.
-/

namespace PrettyPayload

namespace Css

variable {stops : Char → Bool} {k : Nesting} {s t before body : Text} {d : Declaration}
  {head : Head}
  {top : Bool} {item : Item} {items : List Item}

/-! ## Definitions -/

/-- A declaration as it is read: texts collapsed, importance apart. -/
structure Declaration.Normal (d : Declaration) : Prop where
  property_ne_nil : d.property ≠ []
  collapse_property : collapse d.property = d.property
  collapse_value : collapse d.value = d.value
  not_endsInImportant : d.important = false → ¬EndsInImportant d.value

/-- A selector as it is read: it has no blanks at its ends, and each comma in it stands in a
literal, behind a backslash, or inside parentheses or brackets. -/
structure NormalSelector (selector : Text) : Prop where
  ne_nil : selector ≠ []
  trim_eq : Text.trim Text.isBlank selector = selector
  nested : ∀ front back, selector = front ++ ',' :: back →
    (Nesting.start.after front).isTop = false

def Head.Normal : Head → Prop
  | .style selectors => selectors ≠ [] ∧ ∀ selector ∈ selectors, NormalSelector selector
  | .atRule name prelude => IsAtName name ∧ collapse prelude = prelude

mutual

def Item.Normal : Item → Prop
  | .declaration d => d.Normal
  | .statement name prelude => IsAtName name ∧ collapse prelude = prelude
  | .block head body => head.Normal ∧ Item.AllNormal body

def Item.AllNormal : List Item → Prop
  | [] => True
  | item :: items => item.Normal ∧ Item.AllNormal items

end

theorem Item.allNormal_iff : Item.AllNormal items ↔ ∀ item ∈ items, item.Normal := by
  induction items with
  | nil => simp [Item.AllNormal]
  | cons item items ih => rw [Item.AllNormal, ih, List.forall_mem_cons]

/-! ## Importance -/

theorem collapse_of_splitImportant {value : Text} {important : Bool}
    (h : splitImportant (collapse t) = (value, important)) : collapse value = value := by
  have htrim : Text.trimEnd Text.isBlank (collapse t) = collapse t :=
    Text.trimEnd_eq_self fun _ hc => Text.getLast?_trimEnd hc
  obtain ⟨⟨rest, hrest⟩, hlast, -⟩ := exists_of_splitImportant htrim h
  have hstable := stable_collapse t
  rw [← hrest] at hstable
  refine hstable.parts.1.collapse_eq (Text.trim_eq_self (fun c hc => ?_) hlast)
  refine Text.head?_trim (t := collapseFrom (.between false) t) ?_
  rw [← collapse, ← hrest, List.head?_append, hc, Option.some_or]

/-! ## Pieces of a source -/

theorem collapse_collapse (t : Text) : collapse (collapse t) = collapse t :=
  (stable_collapse t).collapse_eq (trim_collapse t)

theorem normal_of_readDeclaration (h : readDeclaration t = .ok d) : d.Normal := by
  obtain ⟨before, after, -, hproperty, hne, hvalue⟩ := exists_of_readDeclaration h
  refine ⟨hne, ?_, collapse_of_splitImportant hvalue, fun hplain himportant => ?_⟩
  · rw [hproperty, collapse_collapse]
  · have htrim : Text.trimEnd Text.isBlank (collapse after) = collapse after :=
      Text.trimEnd_eq_self fun _ hc => Text.getLast?_trimEnd hc
    obtain ⟨-, -, hsame⟩ := exists_of_splitImportant htrim hvalue
    rw [hsame hplain] at himportant
    have htrue := splitImportant_of_endsInImportant htrim himportant
    rw [hvalue, hplain] at htrue
    cases htrue

theorem normal_splitAtName (hstable : Stable t) (hname : (splitAtName t).1 ≠ []) :
    IsAtName (splitAtName t).1 ∧ collapse (splitAtName t).2 = (splitAtName t).2 :=
  ⟨isAtName_splitAtName hname,
    hstable.dropWhile_isNameChar.trim.collapse_eq (Text.trim_trim _ _)⟩

theorem normal_of_readStatement (h : readStatement top t = .ok item) : item.Normal := by
  rcases readStatement_cases h with ⟨rest, -, hname, rfl⟩ | ⟨d, -, hd, -, rfl⟩
  · exact normal_splitAtName (stable_collapse rest) hname
  · exact normal_of_readDeclaration hd

theorem normalSelector_of_mem {selectors : List Text} (h : readSelectors t = .ok selectors) :
    ∀ selector ∈ selectors, NormalSelector selector := by
  obtain ⟨hmap, hne⟩ := eq_map_of_readSelectors h
  intro selector hselector
  have hmem := hselector
  rw [hmap] at hmem
  obtain ⟨part, hpart, rfl⟩ := List.mem_map.1 hmem
  have huncut := breakAt_trim_eq_none (breakAt_of_mem_splitAtTop hpart)
  exact ⟨hne _ hselector, Text.trim_trim _ _, fun front back heq =>
    breakAt_eq_none_iff.1 huncut front ',' back heq (decide_eq_true rfl)⟩

theorem normal_of_readHead (h : readHead before body = .ok head) : head.Normal := by
  rcases readHead_cases h with ⟨rest, hat, hname, rfl⟩ | ⟨selectors, -, hselectors, rfl⟩
  · have hstable := stable_collapse before
    rw [hat] at hstable
    have hspot : (Spot.between false).after ['@'] = .between false := by decide
    exact normal_splitAtName (Stable.right hstable hspot) hname
  · refine ⟨?_, normalSelector_of_mem hselectors⟩
    obtain ⟨part, parts, hparts, -⟩ := exists_cons_of_splitAtTop ',' (collapse before)
    rw [(eq_map_of_readSelectors hselectors).1, hparts]
    exact List.cons_ne_nil _ _

/-! ## Items -/

theorem normal_of_readItems (h : readItems top t = .ok items) :
    ∀ item ∈ items, item.Normal ∧ (top = true → item.isRule = true) := by
  refine forall_of_readItems (p := fun _ => True)
    (P := fun top item => item.Normal ∧ (top = true → item.isRule = true)) ?_ ?_
    (fun _ _ => trivial) h
  · intro top piece item _ _ hread
    refine ⟨normal_of_readStatement hread, fun htop => ?_⟩
    rcases readStatement_cases hread with ⟨rest, -, -, rfl⟩ | ⟨d, hbelow, -, -, rfl⟩
    · rfl
    · rw [htop] at hbelow
      cases hbelow
  · intro top piece body head items _ _ hread hbody
    exact ⟨⟨normal_of_readHead hread, Item.allNormal_iff.2 fun item hitem => (hbody item hitem).1⟩,
      fun _ => rfl⟩

/-- Whatever is read is in normal form. At the top of a source nothing but rules is read, and the
stylesheet holds all of them. -/
theorem normal_of_parse :
    (∀ s sheet, parseStylesheet s = .ok sheet →
      Item.AllNormal sheet.rules ∧
        ∃ t, stripComments s = .ok t ∧ readItems true t = .ok sheet.rules) ∧
    (∀ t items, readItems true t = .ok items → ∀ item ∈ items, item.isRule = true) ∧
    ∀ s ds, parseDeclarations s = .ok ds → ∀ d ∈ ds, d.Normal := by
  refine ⟨fun s sheet h => ?_, fun t items h item hitem => (normal_of_readItems h item hitem).2 rfl,
    fun s ds h d hd => ?_⟩
  · obtain ⟨t, ht, h⟩ := exists_of_bind_eq_ok h
    obtain ⟨items, hitems, h⟩ := exists_of_bind_eq_ok h
    obtain rfl := Except.ok.inj h
    have hnormal := normal_of_readItems hitems
    have hrules : (Stylesheet.ofItems items).rules = items :=
      Stylesheet.rules_ofItems fun item hitem => (hnormal item hitem).2 rfl
    rw [hrules]
    exact ⟨Item.allNormal_iff.2 fun item hitem => (hnormal item hitem).1, t, ht, hitems⟩
  · obtain ⟨text, -, h⟩ := exists_of_bind_eq_ok h
    obtain ⟨part, -, hread⟩ := exists_of_mapM_eq_ok h d hd
    exact normal_of_readDeclaration hread

/-- A stylesheet with blanks wherever they may stand, a comment between names, and commas and marks
of importance that do not count. -/
def loosePayload : Text :=
  ("@media  print/**/or tv \x7b a\\,b , c[d=',']\n\x7b e :  \"f  g\"  ! Important ;" ++
    "h:'!important'\x7d \x7d @import  url( i;j ) ;").toList

def looseSheet : Stylesheet where
  rules :=
    [.block (.atRule "media".toList "print or tv".toList)
        [.block (.style ["a\\,b".toList, "c[d=',']".toList])
          [.declaration ⟨['e'], "\"f  g\"".toList, true⟩,
            .declaration ⟨['h'], "'!important'".toList, false⟩]],
      .statement "import".toList "url( i;j )".toList]
  all_isRule := by simp

/-- What is read from the sample is in normal form, and so are declarations with an empty value. -/
theorem normal_of_parse_looseSheet :
    (parseStylesheet loosePayload = .ok looseSheet ∧ Item.AllNormal looseSheet.rules ∧
      ∃ t, stripComments loosePayload = .ok t ∧ readItems true t = .ok looseSheet.rules ∧
        ∀ item ∈ looseSheet.rules, item.isRule = true) ∧
    parseDeclarations "k: l ! IMPORTANT ;m:".toList =
        .ok [⟨['k'], ['l'], true⟩, ⟨['m'], [], false⟩] ∧
      ∀ d ∈ [(⟨['k'], ['l'], true⟩ : Declaration), ⟨['m'], [], false⟩], d.Normal := by
  have hsheet : parseStylesheet loosePayload = .ok looseSheet := by decide +kernel
  have hds : parseDeclarations "k: l ! IMPORTANT ;m:".toList =
      .ok [⟨['k'], ['l'], true⟩, ⟨['m'], [], false⟩] := by decide +kernel
  obtain ⟨hstylesheets, hrules, hdeclarations⟩ := normal_of_parse
  obtain ⟨hnormal, t, ht, hitems⟩ := hstylesheets _ _ hsheet
  exact ⟨⟨hsheet, hnormal, t, ht, hitems, hrules t _ hitems⟩, hds, hdeclarations _ _ hds⟩

end Css

end PrettyPayload
