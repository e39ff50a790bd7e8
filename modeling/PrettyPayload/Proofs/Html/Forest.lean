import PrettyPayload.Html.Forest
import PrettyPayload.Proofs.Tree

/-!
# Growing a forest from the front

A page that is well formed grows in document order: every new node goes behind the last child of a
node that is open. `plant` adds a whole tree in this way. Handles are then given away in document
order, too, so the handles of a planted tree are a run of numbers (`Laid`), and nothing that is
planted later changes what is read off there.
-/

namespace PrettyPayload

namespace Html

open PrettyPayload.Tree

def Node.isText : Node → Bool
  | .text _ => true
  | _ => false

namespace Forest

variable {f g : Forest} {parent h k lo : Nat} {v : Node}

/-! ## Definitions -/

def grow (parent : Nat) (v : Node) (f : Forest) : Forest :=
  (f.create v).2.append parent f.cells.size

mutual

def plant (parent : Nat) : Tree Node → Forest → Forest
  | .node v ts, f =>
    match v with
    | .text t => f.appendText parent t
    | _ => plantAll f.cells.size ts (f.grow parent v)

def plantAll (parent : Nat) : List (Tree Node) → Forest → Forest
  | [], f => f
  | t :: ts, f => plantAll parent ts (plant parent t f)

end

/-- The handles of several trees that are laid one after the other. -/
def starts (lo : Nat) : List (Tree Node) → List Nat
  | [] => []
  | t :: ts => lo :: starts (lo + t.size) ts

mutual

def Laid (f : Forest) (lo : Nat) : Tree Node → Prop
  | .node v ts =>
    f.node? lo = some v ∧ f.children lo = starts (lo + 1) ts ∧ LaidAll f (lo + 1) ts

def LaidAll (f : Forest) (lo : Nat) : List (Tree Node) → Prop
  | [] => True
  | t :: ts => Laid f lo t ∧ LaidAll f (lo + t.size) ts

end

/-- The last child of a node is a text. -/
def EndsInText (f : Forest) (h : Nat) : Prop :=
  ∃ last, (f.children h).getLast? = some last ∧ f.isText last = true

def Parted : Tree Node → Prop :=
  Tree.Each fun v ts => Apart Node.isText ts ∧ (v.isText = true → ts = [])

/-! ## Views -/

theorem isText_eq (f : Forest) (h : Nat) : f.isText h = (f.node? h).any Node.isText := by
  rw [isText]
  cases f.node? h with
  | none => rfl
  | some v => cases v <;> rfl

/-- A new node is the last child of its parent, and everything else stays. -/
theorem views_grow (hparent : parent < f.cells.size) (v : Node) :
    (f.grow parent v).cells.size = f.cells.size + 1 ∧
      (f.grow parent v).node? f.cells.size = some v ∧
      (f.grow parent v).children f.cells.size = [] ∧
      ∀ k, k < f.cells.size → (f.grow parent v).node? k = f.node? k ∧
        (f.grow parent v).children k =
          f.children k ++ if k = parent then [f.cells.size] else [] := by
  have hfresh : (f.create v).2.parent? f.cells.size = none := by
    simp [create, parent?]
  have hcells : (f.grow parent v).cells = (((f.cells.push ⟨v, none, []⟩).modify parent fun cell =>
      { cell with children := cell.children ++ [f.cells.size] }).modify f.cells.size fun cell =>
        { cell with parent := some parent }) := by
    rw [grow, append, detach, hfresh]
    rfl
  have hne : parent ≠ f.cells.size := Nat.ne_of_lt hparent
  have hcell : ∀ k, (f.grow parent v).cells[k]? =
      if k = f.cells.size then some ⟨v, some parent, []⟩
      else if k = parent then f.cells[k]?.map fun cell =>
        { cell with children := cell.children ++ [f.cells.size] }
      else f.cells[k]? := by
    intro k
    rw [hcells, Array.getElem?_modify, Array.getElem?_modify, Array.getElem?_push]
    by_cases hk : k = f.cells.size
    · subst hk
      rw [if_pos rfl, if_neg hne, if_pos rfl, if_pos rfl]
      rfl
    · rw [if_neg (Ne.symm hk), if_neg hk, if_neg hk]
      by_cases hkp : k = parent
      · rw [if_pos hkp.symm, if_pos hkp]
      · rw [if_neg (Ne.symm hkp), if_neg hkp]
  refine ⟨by rw [hcells]; simp, ?_, ?_, ?_⟩
  · rw [node?, hcell, if_pos rfl]
    rfl
  · rw [children, hcell, if_pos rfl]
    rfl
  · intro k hk
    unfold node? children
    rw [hcell, if_neg (Nat.ne_of_lt hk), Array.getElem?_eq_getElem hk]
    by_cases hkp : k = parent
    · rw [if_pos hkp, if_pos hkp]
      exact ⟨rfl, rfl⟩
    · rw [if_neg hkp, if_neg hkp, List.append_nil]
      exact ⟨rfl, rfl⟩

theorem appendText_of_not_endsInText (h : ¬f.EndsInText parent) (t : Text) :
    f.appendText parent t = f.grow parent (.text t) := by
  rw [appendText]
  split
  next last hlast =>
    rw [if_neg fun htext => h ⟨last, hlast, htext⟩]
    rfl
  next => rfl

/-! ## Planted trees -/

mutual

theorem Laid.congr (lo : Nat) : (t : Tree Node) →
    (∀ k, lo ≤ k → k < lo + t.size → g.node? k = f.node? k ∧ g.children k = f.children k) →
      Laid f lo t → Laid g lo t
  | .node v ts, hsame, h => by
    obtain ⟨hnode, hchildren⟩ := hsame lo (Nat.le_refl lo) (by rw [size]; omega)
    refine ⟨hnode.trans h.1, hchildren.trans h.2.1, ?_⟩
    refine LaidAll.congr (lo + 1) ts (fun k hle hlt => hsame k (by omega) ?_) h.2.2
    rw [size]
    omega

theorem LaidAll.congr (lo : Nat) : (ts : List (Tree Node)) →
    (∀ k, lo ≤ k → k < lo + sizeOfAll ts → g.node? k = f.node? k ∧ g.children k = f.children k) →
      LaidAll f lo ts → LaidAll g lo ts
  | [], _, _ => trivial
  | t :: ts, hsame, h => by
    refine ⟨Laid.congr lo t (fun k hle hlt => hsame k hle ?_) h.1,
      LaidAll.congr (lo + t.size) ts (fun k hle hlt => hsame k (by omega) ?_) h.2⟩ <;>
      (rw [sizeOfAll]; omega)

end

structure Planted (parent : Nat) (ts : List (Tree Node)) (f g : Forest) : Prop where
  size : g.cells.size = f.cells.size + sizeOfAll ts
  same : ∀ k, k < f.cells.size → g.node? k = f.node? k ∧
    g.children k = f.children k ++ if k = parent then starts f.cells.size ts else []
  laid : LaidAll g f.cells.size ts

theorem Planted.nil (parent : Nat) (f : Forest) : Planted parent [] f f :=
  ⟨rfl, fun k _ => ⟨rfl, by simp [starts]⟩, trivial⟩

/-- What is planted later leaves standing what was planted before. -/
theorem Planted.cons {t : Tree Node} {ts : List (Tree Node)} {f g g' : Forest}
    (hparent : parent < f.cells.size) (ht : Planted parent [t] f g)
    (hts : Planted parent ts g g') : Planted parent (t :: ts) f g' := by
  have hsize : g.cells.size = f.cells.size + t.size := by
    rw [ht.size, sizeOfAll, sizeOfAll, Nat.add_zero]
  refine ⟨by rw [hts.size, hsize, sizeOfAll, Nat.add_assoc], ?_, ?_, hsize ▸ hts.laid⟩
  · intro k hk
    obtain ⟨hnode, hchildren⟩ := ht.same k hk
    obtain ⟨hnode', hchildren'⟩ := hts.same k (by omega)
    refine ⟨hnode'.trans hnode, ?_⟩
    rw [hchildren', hchildren, hsize]
    split <;> simp [starts]
  · refine Laid.congr _ t ?_ ht.laid.1
    intro k hle hlt
    obtain ⟨hnode, hchildren⟩ := hts.same k (by omega)
    have hne : k ≠ parent := by omega
    exact ⟨hnode, by rw [hchildren, if_neg hne, List.append_nil]⟩

theorem Planted.isText_last {t : Tree Node} (ht : Planted parent [t] f g)
    (hparent : parent < f.cells.size) : g.EndsInText parent ↔ t.value.isText = true := by
  obtain ⟨v, ts⟩ := t
  have hchildren := (ht.same parent hparent).2
  rw [if_pos rfl, starts, starts] at hchildren
  have hnode : g.node? f.cells.size = some v := ht.laid.1.1
  unfold EndsInText
  rw [hchildren, List.getLast?_concat]
  constructor
  · rintro ⟨last, hlast, htext⟩
    obtain rfl := Option.some.inj hlast
    rw [isText_eq, hnode] at htext
    exact htext
  · intro htext
    exact ⟨_, rfl, by rw [isText_eq, hnode]; exact htext⟩

theorem Planted.of_grow {ts : List (Tree Node)} (hparent : parent < f.cells.size)
    (hts : Planted f.cells.size ts (f.grow parent v) g) : Planted parent [.node v ts] f g := by
  obtain ⟨hsize, hnode, hchildren, hsame⟩ := views_grow hparent v
  have hlast := hts.same f.cells.size (by omega)
  rw [hnode, hchildren, if_pos rfl, List.nil_append, hsize] at hlast
  refine ⟨?_, ?_, ⟨hlast.1, hlast.2, hsize ▸ hts.laid⟩, trivial⟩
  · rw [hts.size, hsize, sizeOfAll, sizeOfAll, Tree.size]
    omega
  · intro k hk
    obtain ⟨hnode', hchildren'⟩ := hsame k hk
    obtain ⟨hnode'', hchildren''⟩ := hts.same k (by omega)
    refine ⟨hnode''.trans hnode', ?_⟩
    rw [hchildren'', hchildren', if_neg (Nat.ne_of_lt hk), List.append_nil]
    rfl

mutual

theorem planted_plant : (t : Tree Node) → (parent : Nat) → (f : Forest) →
    parent < f.cells.size → Parted t → (t.value.isText = true → ¬f.EndsInText parent) →
      Planted parent [t] f (plant parent t f)
  | .node v ts, parent, f, hparent, ht, htext => by
    obtain ⟨hsize, -, hchildren, -⟩ := views_grow hparent v
    have hfresh : ¬(f.grow parent v).EndsInText f.cells.size := by
      rintro ⟨last, hlast, -⟩
      rw [hchildren] at hlast
      cases hlast
    have hplanted := planted_plantAll ts f.cells.size (f.grow parent v) (by omega) ht.2 ht.1.1
      fun _ _ _ => hfresh
    cases v with
    | text t =>
      obtain rfl := ht.1.2 rfl
      rw [plant, appendText_of_not_endsInText (htext rfl)]
      exact Planted.of_grow hparent hplanted
    | _ => exact Planted.of_grow hparent hplanted

/-- Trees that are planted stand in the forest, and nothing else changes. -/
theorem planted_plantAll : (ts : List (Tree Node)) → (parent : Nat) → (f : Forest) →
    parent < f.cells.size →
      EachOfAll (fun v ts => Apart Node.isText ts ∧ (v.isText = true → ts = [])) ts →
      Apart Node.isText ts →
      (∀ t, ts.head? = some t → t.value.isText = true → ¬f.EndsInText parent) →
        Planted parent ts f (plantAll parent ts f)
  | [], parent, f, _, _, _, _ => Planted.nil parent f
  | t :: ts, parent, f, hparent, hts, hapart, htext => by
    have ht := planted_plant t parent f hparent hts.1 (htext t rfl)
    refine Planted.cons hparent ht (planted_plantAll ts parent _ ?_ hts.2 hapart.2 ?_)
    · rw [ht.size]
      omega
    · intro u hu hutext hends
      have hlast := (ht.isText_last hparent).1 hends
      rw [hapart.1 hlast u hu] at hutext
      cases hutext

end

/-! ## Trees read off -/

mutual

theorem treeWithin_of_laid : (t : Tree Node) → (lo depth : Nat) → t.size ≤ depth → Laid f lo t →
    f.treeWithin depth lo = t
  | .node v ts, lo, 0, hdepth, _ => by
    rw [size] at hdepth
    omega
  | .node v ts, lo, depth + 1, hdepth, h => by
    rw [size] at hdepth
    rw [treeWithin, h.1, h.2.1,
      map_treeWithin_of_laidAll ts (lo + 1) depth (by omega) h.2.2, Option.getD_some]

theorem map_treeWithin_of_laidAll : (ts : List (Tree Node)) → (lo depth : Nat) →
    sizeOfAll ts ≤ depth → LaidAll f lo ts → (starts lo ts).map (f.treeWithin depth) = ts
  | [], _, _, _, _ => rfl
  | t :: ts, lo, depth, hdepth, h => by
    rw [sizeOfAll] at hdepth
    rw [starts, List.map_cons, treeWithin_of_laid t lo depth (by omega) h.1,
      map_treeWithin_of_laidAll ts (lo + t.size) depth (by omega) h.2]

end

theorem tree_of_laid {t : Tree Node} (h : Laid f lo t) (hsize : t.size ≤ f.cells.size) :
    f.tree lo = t := treeWithin_of_laid t lo f.cells.size hsize h

end Forest

end Html

end PrettyPayload
