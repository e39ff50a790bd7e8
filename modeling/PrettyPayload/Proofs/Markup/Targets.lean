import Mathlib.Data.List.Basic
import PrettyPayload.Markup.StylePass
import PrettyPayload.Proofs.Markup.Lineage

/-!
# Passes over the elements of a document

A style pass looks its elements up once and then rewrites them one after the other, up to the first
fault. `rewriteEach` is that loop, whatever is done to an element, and both passes are cases of it.
A pass that stops has gone through the elements in front of the fault as if there were no others
(`rewriteEach_eq_error`), so what holds of passes to the end says all about those that stop. Two
passes of which any two steps can change places can change places themselves (`rewriteEach_comm`).

The elements that a pass finds depend on what the nodes are and on their children only, and
`elementsFrom` finds them from any node on, which is how the search goes on below it. That each of
them is found once is due to the links of the document, which are in order (`Linked`) from reading
on and whatever is changed.
-/

namespace PrettyPayload

namespace Markup

namespace Document

variable {d d' e : Document} {h k n : Nat} {hs ks : List Nat} {q : Element → Bool}

/-! ## Elements -/

def elementsFrom (d : Document) (q : Element → Bool) (h : Nat) : List Nat :=
  (d.treeAt h).values.filterMap fun v => if (v.2.element?).any q then some v.1 else none

theorem elementsWhere_eq (d : Document) (q : Element → Bool) :
    d.elementsWhere q = d.elementsFrom q root :=
  d.elementsWhere_eq_filterMap q

theorem elementsFrom_eq (d : Document) (q : Element → Bool) (h : Nat) :
    d.elementsFrom q h =
      (if (((d.node? h).getD .document).element?).any q then [h] else []) ++
        (d.children h).flatMap (d.elementsFrom q) := by
  rw [elementsFrom, values_treeAt, List.filterMap_cons, List.filterMap_flatMap]
  by_cases hany : (((d.node? h).getD .document).element?).any q = true
  · rw [if_pos hany, if_pos hany]
    rfl
  · rw [if_neg hany, if_neg hany]
    rfl

/-- Only the nodes with the property and the lists of children count. -/
theorem elementsFrom_congr
    (hnode : ∀ k, (((d'.node? k).getD .document).element?).any q =
      (((d.node? k).getD .document).element?).any q)
    (hchildren : ∀ k, d'.children k = d.children k) (h : Nat) :
    d'.elementsFrom q h = d.elementsFrom q h := by
  rw [elementsFrom_eq, elementsFrom_eq, hnode, hchildren]
  congr 1
  refine List.flatMap_congr fun c hc => ?_
  have hlt := lt_of_mem_children hc
  exact elementsFrom_congr hnode hchildren c
termination_by d.cells.size - h

theorem elementsFrom_eq_nil (hnone : ∀ v ∈ (d.treeAt h).values, v.2.element? = none) :
    d.elementsFrom q h = [] := by
  refine List.filterMap_eq_nil_iff.2 fun v hv => ?_
  rw [hnone v hv]
  rfl

theorem Lists.lt (hl : d.Lists q hs) (hh : h ∈ hs) : h < d.cells.size := by
  obtain ⟨-, e, hnode, -⟩ := (hl.mem_iff h).1 hh
  exact lt_of_node? hnode

/-- What is listed in front of an element is listed once, and not from the element on. -/
theorem Lists.split {before behind : List Nat} (hl : d.Lists q hs)
    (hsplit : hs = before ++ behind) : before.Nodup ∧ ∀ k ∈ before, k ∉ behind := by
  obtain ⟨hbefore, -, hne⟩ := List.nodup_append.1 (hsplit ▸ hl.nodup)
  exact ⟨hbefore, fun k hk hmem => hne k hk k hmem rfl⟩

/-! ## Passes -/

/-- Rewrites the given nodes in order, up to the first fault. -/
def rewriteEach (rewrite : Document → Nat → Except Css.Error Document) (d : Document) :
    List Nat → Document × Except Css.Error Unit
  | [] => (d, .ok ())
  | h :: hs =>
    match rewrite d h with
    | .error fault => (d, .error fault)
    | .ok d => rewriteEach rewrite d hs

section Passes

variable {rewrite rewrite' : Document → Nat → Except Css.Error Document} {fault : Css.Error}

theorem map_eq_ok_iff {α β : Type} {f : α → β} {r : Except Css.Error α} {b : β} :
    r.map f = .ok b ↔ ∃ a, r = .ok a ∧ f a = b := by
  cases r <;> simp [Except.map]

theorem map_eq_error_iff {α β : Type} {f : α → β} {r : Except Css.Error α} :
    r.map f = .error fault ↔ r = .error fault := by
  cases r <;> simp [Except.map]

theorem rewriteEach_nil_eq_ok : rewriteEach rewrite d [] = (d', .ok ()) ↔ d = d' := by
  simp [rewriteEach]

theorem rewriteEach_cons_eq_ok :
    rewriteEach rewrite d (h :: hs) = (d', .ok ()) ↔
      ∃ d₁, rewrite d h = .ok d₁ ∧ rewriteEach rewrite d₁ hs = (d', .ok ()) := by
  rw [rewriteEach]
  cases rewrite d h <;> simp

/-- A pass that stops has gone through the elements in front of the one with the fault. -/
theorem rewriteEach_eq_error (hrun : rewriteEach rewrite d hs = (d', .error fault)) :
    ∃ before h behind, hs = before ++ h :: behind ∧
      rewriteEach rewrite d before = (d', .ok ()) ∧ rewrite d' h = .error fault := by
  induction hs generalizing d with
  | nil => cases (Prod.mk.inj hrun).2
  | cons h hs ih =>
    cases hstep : rewrite d h with
    | error fault' =>
      rw [rewriteEach, hstep] at hrun
      obtain ⟨rfl, hfault⟩ := Prod.mk.inj hrun
      obtain rfl := Except.error.inj hfault
      exact ⟨[], h, hs, rfl, rfl, hstep⟩
    | ok d₁ =>
      rw [rewriteEach, hstep] at hrun
      obtain ⟨before, k, behind, rfl, hbefore, hk⟩ := ih hrun
      exact ⟨h :: before, k, behind, rfl, rewriteEach_cons_eq_ok.2 ⟨d₁, hstep, hbefore⟩, hk⟩

/-- What no step changes is not changed by a pass. -/
theorem view_rewriteEach {β : Type} (view : Document → β)
    (hview : ∀ d d' h, rewrite d h = .ok d' → view d' = view d)
    (hrun : rewriteEach rewrite d hs = (d', .ok ())) : view d' = view d := by
  induction hs generalizing d with
  | nil => rw [rewriteEach_nil_eq_ok.1 hrun]
  | cons h hs ih =>
    obtain ⟨d₁, hstep, hrun⟩ := rewriteEach_cons_eq_ok.1 hrun
    rw [ih hrun, hview d d₁ h hstep]

/-- A pass of which each step leaves the document as it is does so, too. -/
theorem rewriteEach_eq_self (hself : ∀ h ∈ hs, rewrite d h = .ok d) :
    rewriteEach rewrite d hs = (d, .ok ()) := by
  induction hs with
  | nil => rfl
  | cons h hs ih =>
    rw [List.forall_mem_cons] at hself
    exact rewriteEach_cons_eq_ok.2 ⟨d, hself.1, ih hself.2⟩

/-- A pass that counts its elements ends if it has gone through all of them. -/
theorem counted_eq_ok_iff {run : Document × Except Css.Error Unit} {m : Nat} :
    (run.1, run.2.map fun _ => m) = (d', .ok n) ↔ run = (d', .ok ()) ∧ n = m := by
  obtain ⟨rewritten, outcome⟩ := run
  rw [Prod.mk.injEq, map_eq_ok_iff, Prod.mk.injEq]
  constructor
  · rintro ⟨rfl, ⟨⟩, hrun, rfl⟩
    exact ⟨⟨rfl, hrun⟩, rfl⟩
  · rintro ⟨⟨rfl, hrun⟩, rfl⟩
    exact ⟨rfl, (), hrun, rfl⟩

theorem counted_eq_error_iff {run : Document × Except Css.Error Unit} {m : Nat} :
    (run.1, run.2.map fun _ => m) = (d', .error fault) ↔ run = (d', .error fault) := by
  obtain ⟨rewritten, outcome⟩ := run
  simp [map_eq_error_iff]

/-! ## Passes that change places -/

section Comm

variable (hcomm : ∀ d e h k, (∃ d₁, rewrite d h = .ok d₁ ∧ rewrite' d₁ k = .ok e) ↔
  ∃ d₁, rewrite' d k = .ok d₁ ∧ rewrite d₁ h = .ok e)

include hcomm

theorem rewriteEach_comm_step :
    (∃ d₁, rewriteEach rewrite d hs = (d₁, .ok ()) ∧ rewrite' d₁ k = .ok e) ↔
      ∃ d₁, rewrite' d k = .ok d₁ ∧ rewriteEach rewrite d₁ hs = (e, .ok ()) := by
  induction hs generalizing d with
  | nil => simp [rewriteEach_nil_eq_ok]
  | cons h hs ih =>
    simp only [rewriteEach_cons_eq_ok]
    calc (∃ d₁, (∃ d₂, rewrite d h = .ok d₂ ∧ rewriteEach rewrite d₂ hs = (d₁, .ok ())) ∧
          rewrite' d₁ k = .ok e)
        ↔ ∃ d₂, rewrite d h = .ok d₂ ∧
            ∃ d₁, rewriteEach rewrite d₂ hs = (d₁, .ok ()) ∧ rewrite' d₁ k = .ok e := by grind
      _ ↔ ∃ d₂, rewrite d h = .ok d₂ ∧
            ∃ d₁, rewrite' d₂ k = .ok d₁ ∧ rewriteEach rewrite d₁ hs = (e, .ok ()) := by
        simp only [ih]
      _ ↔ ∃ d₁, (∃ d₂, rewrite d h = .ok d₂ ∧ rewrite' d₂ k = .ok d₁) ∧
            rewriteEach rewrite d₁ hs = (e, .ok ()) := by grind
      _ ↔ ∃ d₁, (∃ d₂, rewrite' d k = .ok d₂ ∧ rewrite d₂ h = .ok d₁) ∧
            rewriteEach rewrite d₁ hs = (e, .ok ()) := by
        simp only [hcomm]
      _ ↔ ∃ d₂, rewrite' d k = .ok d₂ ∧
            ∃ d₁, rewrite d₂ h = .ok d₁ ∧ rewriteEach rewrite d₁ hs = (e, .ok ()) := by grind

/-- Two passes change places if any two of their steps do. -/
theorem rewriteEach_comm :
    (∃ d₁, rewriteEach rewrite d hs = (d₁, .ok ()) ∧ rewriteEach rewrite' d₁ ks = (e, .ok ())) ↔
      ∃ d₁, rewriteEach rewrite' d ks = (d₁, .ok ()) ∧
        rewriteEach rewrite d₁ hs = (e, .ok ()) := by
  induction ks generalizing d with
  | nil => simp [rewriteEach_nil_eq_ok]
  | cons k ks ih =>
    simp only [rewriteEach_cons_eq_ok]
    calc (∃ d₁, rewriteEach rewrite d hs = (d₁, .ok ()) ∧
          ∃ d₂, rewrite' d₁ k = .ok d₂ ∧ rewriteEach rewrite' d₂ ks = (e, .ok ()))
        ↔ ∃ d₂, (∃ d₁, rewriteEach rewrite d hs = (d₁, .ok ()) ∧ rewrite' d₁ k = .ok d₂) ∧
            rewriteEach rewrite' d₂ ks = (e, .ok ()) := by grind
      _ ↔ ∃ d₂, (∃ d₁, rewrite' d k = .ok d₁ ∧ rewriteEach rewrite d₁ hs = (d₂, .ok ())) ∧
            rewriteEach rewrite' d₂ ks = (e, .ok ()) := by
        simp only [rewriteEach_comm_step hcomm]
      _ ↔ ∃ d₁, rewrite' d k = .ok d₁ ∧ ∃ d₂, rewriteEach rewrite d₁ hs = (d₂, .ok ()) ∧
            rewriteEach rewrite' d₂ ks = (e, .ok ()) := by grind
      _ ↔ ∃ d₁, rewrite' d k = .ok d₁ ∧ ∃ d₂, rewriteEach rewrite' d₁ ks = (d₂, .ok ()) ∧
            rewriteEach rewrite d₂ hs = (e, .ok ()) := by
        simp only [ih]
      _ ↔ ∃ d₁, (∃ d₂, rewrite' d k = .ok d₂ ∧ rewriteEach rewrite' d₂ ks = (d₁, .ok ())) ∧
            rewriteEach rewrite d₁ hs = (e, .ok ()) := by grind

end Comm

end Passes

end Document

end Markup

end PrettyPayload
