import PrettyPayload.Markup.Document
import PrettyPayload.Proofs.Tree

/-!
# The tree of a document

The tree below a handle is unfolded one node at a time, and the handles in it grow on every way
down.
-/

namespace PrettyPayload

namespace Markup

open PrettyPayload.Tree

namespace Document

theorem treeAt_eq (d : Document) (h : Nat) :
    d.treeAt h = .node (h, (d.node? h).getD .document) ((d.children h).map d.treeAt) := by
  rw [treeAt]
  simp

/-- The handles in the tree below a node are not smaller than its own. -/
theorem all_le_treeAt (d : Document) (h : Nat) : (d.treeAt h).All fun v => h ≤ v.1 := by
  rw [treeAt_eq]
  refine ⟨Nat.le_refl h, allOfAll_iff.2 ?_⟩
  intro t ht
  obtain ⟨c, hc, rfl⟩ := List.mem_map.1 ht
  have hlt := lt_of_mem_children hc
  refine All.mono ?_ _ (d.all_le_treeAt c)
  intro v hv
  omega
termination_by d.cells.size - h

/-- Handles grow on every way down. -/
theorem ascending_treeAt (d : Document) (h : Nat) :
    (d.treeAt h).Ascending fun a b => a.1 < b.1 := by
  rw [treeAt_eq]
  constructor
  · refine allOfAll_iff.2 ?_
    intro t ht
    obtain ⟨c, hc, rfl⟩ := List.mem_map.1 ht
    refine All.mono ?_ _ (d.all_le_treeAt c)
    intro v hv
    exact Nat.lt_of_lt_of_le (lt_of_mem_children hc).1 hv
  · refine ascendingAll_iff.2 ?_
    intro t ht
    obtain ⟨c, hc, rfl⟩ := List.mem_map.1 ht
    have hlt := lt_of_mem_children hc
    exact d.ascending_treeAt c
termination_by d.cells.size - h

end Document

end Markup

end PrettyPayload
