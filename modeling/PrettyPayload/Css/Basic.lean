import PrettyPayload.Text.Basic

/-!
# Stylesheets

The model of a stylesheet keeps what its author wrote and in which order: rules, the declarations
in them, duplicates included. Selectors, preludes and values are opaque texts.

A block body mixes declarations and rules, since style rules nest and grouping at-rules hold
rules, so both are one type, `Item`. Only the top of a stylesheet is restricted: nothing but rules
stands there, which is the invariant of `Stylesheet`.
-/

namespace PrettyPayload

namespace Css

/-- One `property: value`, with `!important` kept apart from the value. -/
structure Declaration where
  property : Text
  value : Text
  important : Bool
  deriving DecidableEq, Repr

/-- What stands before the opening brace of a block. -/
inductive Head where
  /-- The selectors of a style rule, between commas. -/
  | style (selectors : List Text)
  /-- `@name prelude`. -/
  | atRule (name prelude : Text)
  deriving DecidableEq, Repr

/-- An entry of a block body. -/
inductive Item where
  | declaration (d : Declaration)
  /-- `@name prelude;`, such as an import. -/
  | statement (name prelude : Text)
  | block (head : Head) (body : List Item)
  deriving Repr

namespace Item

def isRule : Item → Bool
  | declaration _ => false
  | _ => true

@[simp] theorem isRule_declaration (d : Declaration) : (declaration d).isRule = false := rfl

@[simp] theorem isRule_statement (name prelude : Text) :
    (statement name prelude).isRule = true := rfl

@[simp] theorem isRule_block (head : Head) (body : List Item) :
    (block head body).isRule = true := rfl

mutual

def decideEq : (a b : Item) → Decidable (a = b)
  | declaration d, declaration e => decidable_of_iff (d = e) (by simp)
  | statement n p, statement m q => decidable_of_iff (n = m ∧ p = q) (by simp)
  | block h b, block k c =>
    match decEq h k, decideEqAll b c with
    | isTrue hh, isTrue hb => isTrue (by rw [hh, hb])
    | isFalse hh, _ => isFalse (by simp [hh])
    | _, isFalse hb => isFalse (by simp [hb])
  | declaration _, statement _ _ => isFalse (by simp)
  | declaration _, block _ _ => isFalse (by simp)
  | statement _ _, declaration _ => isFalse (by simp)
  | statement _ _, block _ _ => isFalse (by simp)
  | block _ _, declaration _ => isFalse (by simp)
  | block _ _, statement _ _ => isFalse (by simp)

def decideEqAll : (a b : List Item) → Decidable (a = b)
  | [], [] => isTrue rfl
  | a :: as, b :: bs =>
    match decideEq a b, decideEqAll as bs with
    | isTrue ha, isTrue hs => isTrue (by rw [ha, hs])
    | isFalse ha, _ => isFalse (by simp [ha])
    | _, isFalse hs => isFalse (by simp [hs])
  | [], _ :: _ => isFalse (by simp)
  | _ :: _, [] => isFalse (by simp)

end

instance : DecidableEq Item := decideEq

end Item

structure Stylesheet where
  rules : List Item
  all_isRule : ∀ item ∈ rules, item.isRule = true

namespace Stylesheet

theorem ext {a b : Stylesheet} (h : a.rules = b.rules) : a = b := by
  cases a; cases b; cases h; rfl

instance : DecidableEq Stylesheet := fun a b =>
  decidable_of_iff (a.rules = b.rules) ⟨ext, fun h => by rw [h]⟩

def ofItems (items : List Item) : Stylesheet :=
  ⟨items.filter Item.isRule, by simp⟩

def isEmpty (sheet : Stylesheet) : Bool := sheet.rules.isEmpty

theorem rules_ofItems {items : List Item} (h : ∀ item ∈ items, item.isRule = true) :
    (ofItems items).rules = items :=
  List.filter_eq_self.2 h

end Stylesheet

end Css

end PrettyPayload
