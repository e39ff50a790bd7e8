import PrettyPayload.Proofs.Markup.Document

/-!
# Copies

Copying goes through a list of what is still to be done, in whatever order. What it gives does not
depend on the order: below each node of the document, behind the children that are there already,
come the copies of what the list has for that node.
-/

namespace PrettyPayload

namespace Markup

open PrettyPayload.Tree

/-! ## Definitions -/

mutual

/-- A tree without its handles, with further subtrees behind the children of each node. -/
def graft (extra : Nat → List (Tree Node)) : Tree (Nat × Node) → Tree Node
  | .node (h, v) ts => .node v (graftAll extra ts ++ extra h)

def graftAll (extra : Nat → List (Tree Node)) : List (Tree (Nat × Node)) → List (Tree Node)
  | [] => []
  | t :: ts => graft extra t :: graftAll extra ts

end

section Copied

variable {α : Type} (convert : (parent child : α) → Option Node)

mutual

def copied (parent : α) : Tree α → List (Tree Node)
  | .node a ts =>
    match convert parent a with
    | some v => [.node v (copiedAll a ts)]
    | none => []

def copiedAll (parent : α) : List (Tree α) → List (Tree Node)
  | [] => []
  | t :: ts => copied parent t ++ copiedAll parent ts

end

def copiesFor (pending : List (Tree α × Nat)) (h : Nat) : List (Tree Node) :=
  pending.flatMap fun (t, target) =>
    if target = h then copiedAll convert t.value t.children else []

end Copied

/-! ## Grafts -/

variable {d d' : Document} {extra : Nat → List (Tree Node)}

theorem graftAll_eq_map (ts : List (Tree (Nat × Node))) :
    graftAll extra ts = ts.map (graft extra) := by
  induction ts with
  | nil => rfl
  | cons t ts ih => rw [graftAll, ih, List.map_cons]

theorem graft_treeAt (d : Document) (h : Nat) :
    graft extra (d.treeAt h) =
      .node ((d.node? h).getD .document)
        ((d.children h).map (fun c => graft extra (d.treeAt c)) ++ extra h) := by
  rw [Document.treeAt_eq, graft, graftAll_eq_map, List.map_map]
  rfl

mutual

/-- Without further subtrees only the handles go. -/
theorem graft_nil : (t : Tree (Nat × Node)) → graft (fun _ => []) t = t.map Prod.snd
  | .node (h, v) ts => by rw [graft, graftAll_nil, Tree.map, List.append_nil]

theorem graftAll_nil :
    (ts : List (Tree (Nat × Node))) → graftAll (fun _ => []) ts = mapAll Prod.snd ts
  | [] => rfl
  | t :: ts => by rw [graftAll, graft_nil, graftAll_nil, mapAll]

end

theorem graft_treeAt_congr {extra' : Nat → List (Tree Node)} (d : Document) (h : Nat)
    (hh : h < d.cells.size) (heq : ∀ k, k < d.cells.size → extra k = extra' k) :
    graft extra (d.treeAt h) = graft extra' (d.treeAt h) := by
  rw [graft_treeAt, graft_treeAt, heq h hh]
  congr 2
  refine List.map_congr_left ?_
  intro c hc
  have hlt := Document.lt_of_mem_children hc
  exact graft_treeAt_congr d c hlt.2 heq
termination_by d.cells.size - h

/-! ## A new node -/

section Append

variable {node : Node} {parent n : Nat}

theorem append?_eq_some (h : d.append? parent node = some (n, d')) :
    parent < d.cells.size ∧ n = d.cells.size ∧
      d'.cells = (d.cells.modify parent fun cell =>
        { cell with children := cell.children ++ [n] }).push ⟨node, some parent, []⟩ := by
  unfold Document.append? at h
  split at h
  next hp =>
    obtain ⟨rfl, rfl⟩ := Prod.mk.inj (Option.some.inj h)
    exact ⟨hp, rfl, rfl⟩
  next => cases h

theorem views_of_append? (h : d.append? parent node = some (n, d')) :
    d'.cells.size = n + 1 ∧ d'.node? n = some node ∧ d'.children n = [] ∧
      ∀ k, k < n → d'.node? k = d.node? k ∧
        d'.children k = d.children k ++ if k = parent then [n] else [] := by
  obtain ⟨hp, rfl, hcells⟩ := append?_eq_some h
  have hlast : d'.cells[d.cells.size]? = some ⟨node, some parent, []⟩ := by
    rw [hcells, Array.getElem?_push, Array.size_modify, if_pos rfl]
  refine ⟨by rw [hcells, Array.size_push, Array.size_modify], ?_, ?_, ?_⟩
  · rw [Document.node?, hlast]
    rfl
  · rw [Document.children, hlast]
    rfl
  · intro k hk
    have hcell : d'.cells[k]? = if parent = k then
        d.cells[k]?.map fun cell => { cell with children := cell.children ++ [d.cells.size] }
        else d.cells[k]? := by
      rw [hcells, Array.getElem?_push, Array.size_modify, if_neg (Nat.ne_of_lt hk),
        Array.getElem?_modify]
    unfold Document.node? Document.children
    rw [hcell, Array.getElem?_eq_getElem hk]
    by_cases hparent : parent = k
    · rw [if_pos hparent, if_pos hparent.symm]
      exact ⟨rfl, rfl⟩
    · rw [if_neg hparent, if_neg (Ne.symm hparent), List.append_nil]
      exact ⟨rfl, rfl⟩

theorem graft_append? (h : d.append? parent node = some (n, d')) (k : Nat) (hk : k < n) :
    graft extra (d'.treeAt k) =
      graft (fun j => if j = parent then .node node (extra n) :: extra j else extra j)
        (d.treeAt k) := by
  have hn := (append?_eq_some h).2.1
  obtain ⟨-, hnode, hchildren, hviews⟩ := views_of_append? h
  obtain ⟨hnode', hchildren'⟩ := hviews k hk
  rw [graft_treeAt, graft_treeAt, hnode', hchildren', List.map_append]
  have hbelow : (d.children k).map (fun c => graft extra (d'.treeAt c)) =
      (d.children k).map fun c =>
        graft (fun j => if j = parent then .node node (extra n) :: extra j else extra j)
          (d.treeAt c) := by
    refine List.map_congr_left ?_
    intro c hc
    have hlt := Document.lt_of_mem_children hc
    exact graft_append? h c (hn ▸ hlt.2)
  rw [hbelow]
  by_cases hparent : k = parent
  · rw [if_pos hparent, if_pos hparent, List.map_singleton, graft_treeAt, hnode, hchildren]
    simp
  · rw [if_neg hparent, if_neg hparent, List.map_nil, List.append_nil]
termination_by n - k

end Append

/-! ## Copies -/

section Copy

variable {α : Type} {convert : (parent child : α) → Option Node}

theorem copiedAll_append (a : α) (ts us : List (Tree α)) :
    copiedAll convert a (ts ++ us) = copiedAll convert a ts ++ copiedAll convert a us := by
  induction ts with
  | nil => rfl
  | cons t ts ih => rw [List.cons_append, copiedAll, copiedAll, ih, List.append_assoc]

theorem copied_of_convert {t : Tree α} {v : Node} (h : convert a t.value = some v) :
    copied convert a t = [.node v (copiedAll convert t.value t.children)] := by
  obtain ⟨b, us⟩ := t
  rw [value_node] at h
  rw [copied, h]
  rfl

theorem copied_eq_nil {t : Tree α} (h : convert a t.value = none) : copied convert a t = [] := by
  obtain ⟨b, us⟩ := t
  rw [value_node] at h
  rw [copied, h]

/-- Copying adds nodes, and what is still to be copied has its place among the nodes. -/
theorem lt_of_copyChildren (a : α) (target : Nat) (ts : List (Tree α))
    (pending : List (Tree α × Nat)) (hpending : ∀ p ∈ pending, p.2 < d.cells.size) :
    d.cells.size ≤ (d.copyChildren convert a target ts pending).1.cells.size ∧
      ∀ p ∈ (d.copyChildren convert a target ts pending).2,
        p.2 < (d.copyChildren convert a target ts pending).1.cells.size := by
  induction ts generalizing d pending with
  | nil => exact ⟨Nat.le_refl _, hpending⟩
  | cons t ts ih =>
    rw [Document.copyChildren]
    split
    next n d₁ happend =>
      obtain ⟨v, -, happend⟩ := Option.bind_eq_some_iff.1 happend
      obtain ⟨-, hn, -⟩ := append?_eq_some happend
      obtain ⟨hsize, -⟩ := views_of_append? happend
      obtain ⟨hle, hlt⟩ := ih (d := d₁) ((t, n) :: pending) (List.forall_mem_cons.2
        ⟨by omega, fun p hp => by have := hpending p hp; omega⟩)
      exact ⟨by omega, hlt⟩
    next => exact ih pending hpending

theorem graft_copyChildren (a : α) (target : Nat) (ts : List (Tree α))
    (pending : List (Tree α × Nat)) (htarget : target < d.cells.size)
    (hpending : ∀ p ∈ pending, p.2 < d.cells.size) (k : Nat) (hk : k < d.cells.size) :
    graft (copiesFor convert (d.copyChildren convert a target ts pending).2)
        ((d.copyChildren convert a target ts pending).1.treeAt k) =
      graft (fun j => (if j = target then copiedAll convert a ts else []) ++
        copiesFor convert pending j) (d.treeAt k) := by
  induction ts generalizing d pending with
  | nil =>
    refine graft_treeAt_congr d k hk ?_
    intro j _
    rw [copiedAll, ite_self, List.nil_append]
    rfl
  | cons t ts ih =>
    rw [Document.copyChildren]
    split
    next n d₁ happend =>
      obtain ⟨v, hv, happend⟩ := Option.bind_eq_some_iff.1 happend
      obtain ⟨-, hn, -⟩ := append?_eq_some happend
      obtain ⟨hsize, -⟩ := views_of_append? happend
      have hpending' : ∀ p ∈ (t, n) :: pending, p.2 < d₁.cells.size :=
        List.forall_mem_cons.2 ⟨by omega, fun p hp => by have := hpending p hp; omega⟩
      rw [ih _ (by omega) hpending' (by omega), graft_append? happend k (hn ▸ hk)]
      refine graft_treeAt_congr d k hk ?_
      intro j hj
      have hfresh : copiesFor convert pending n = [] := by
        refine List.flatMap_eq_nil_iff.2 ?_
        intro p hp
        exact if_neg (by have := hpending p hp; omega)
      have hcopies : ∀ i, copiesFor convert ((t, n) :: pending) i =
          (if n = i then copiedAll convert t.value t.children else []) ++
            copiesFor convert pending i := fun i => rfl
      have htarget' : n ≠ target := by omega
      have hj' : n ≠ j := by omega
      simp only [hcopies, hfresh, if_neg htarget', if_neg hj', if_true, List.nil_append,
        List.append_nil]
      split
      next => rw [copiedAll, copied_of_convert hv, List.singleton_append, List.cons_append]
      next => rfl
    next hnone =>
      rw [ih pending htarget hpending hk]
      refine graft_treeAt_congr d k hk ?_
      intro j _
      have hleft : convert a t.value = none := by
        cases hv : convert a t.value with
        | none => rfl
        | some v =>
          rw [hv, Option.bind_some, Document.append?, dif_pos htarget] at hnone
          cases hnone
      rw [copiedAll, copied_eq_nil hleft, List.nil_append]

theorem treeAt_copy (d : Document) (pending : List (Tree α × Nat))
    (hpending : ∀ p ∈ pending, p.2 < d.cells.size) (k : Nat) (hk : k < d.cells.size) :
    ((d.copy convert pending).treeAt k).map Prod.snd =
      graft (copiesFor convert pending) (d.treeAt k) := by
  fun_induction Document.copy convert d pending with
  | case1 d => exact (graft_nil (d.treeAt k)).symm
  | case2 d a ts target pending next ih =>
    rw [List.forall_mem_cons] at hpending
    obtain ⟨hle, hlt⟩ := @lt_of_copyChildren d α convert a target ts pending hpending.2
    rw [ih hlt (Nat.lt_of_lt_of_le hk hle),
      graft_copyChildren a target ts pending hpending.1 hpending.2 k hk]
    refine graft_treeAt_congr d k hk ?_
    intro j _
    simp only [copiesFor, List.flatMap_cons, value_node, children_node, eq_comm]

theorem size_le_copy (d : Document) (pending : List (Tree α × Nat))
    (hpending : ∀ p ∈ pending, p.2 < d.cells.size) :
    d.cells.size ≤ (d.copy convert pending).cells.size := by
  fun_induction Document.copy convert d pending with
  | case1 d => exact Nat.le_refl _
  | case2 d a ts target pending next ih =>
    obtain ⟨hle, hlt⟩ :=
      @lt_of_copyChildren d α convert a target ts pending (List.forall_mem_cons.1 hpending).2
    exact Nat.le_trans hle (ih hlt)

/-! ## What new nodes keep -/

/-- What each new node keeps is kept by a copy. -/
theorem copyChildren_induction {P : Document → Prop}
    (happend : ∀ d p v n d', P d → d.append? p v = some (n, d') → P d') (hd : P d) (a : α)
    (target : Nat) (ts : List (Tree α)) (pending : List (Tree α × Nat)) :
    P (d.copyChildren convert a target ts pending).1 := by
  induction ts generalizing d pending with
  | nil => exact hd
  | cons t ts ih =>
    rw [Document.copyChildren]
    split
    next n d₁ hnext =>
      obtain ⟨v, -, hnext⟩ := Option.bind_eq_some_iff.1 hnext
      exact ih (happend d target v n d₁ hd hnext) _
    next => exact ih hd pending

theorem copy_induction {P : Document → Prop}
    (happend : ∀ d p v n d', P d → d.append? p v = some (n, d') → P d') (hd : P d)
    (pending : List (Tree α × Nat)) : P (d.copy convert pending) := by
  fun_induction Document.copy convert d pending with
  | case1 => exact hd
  | case2 d a ts target pending next ih =>
    exact ih (copyChildren_induction happend hd a target ts pending)

/-! ## Flavors -/

theorem flavor_append? {v : Node} {parent n : Nat} (h : d.append? parent v = some (n, d')) :
    d'.flavor = d.flavor := by
  unfold Document.append? at h
  split at h
  next =>
    obtain ⟨-, rfl⟩ := Prod.mk.inj (Option.some.inj h)
    rfl
  next => cases h

theorem flavor_copyChildren (a : α) (target : Nat) (ts : List (Tree α))
    (pending : List (Tree α × Nat)) :
    (d.copyChildren convert a target ts pending).1.flavor = d.flavor :=
  copyChildren_induction (P := fun d' => d'.flavor = d.flavor)
    (fun _ _ _ _ _ hd happend => (flavor_append? happend).trans hd) rfl a target ts pending

theorem flavor_copy (d : Document) (pending : List (Tree α × Nat)) :
    (d.copy convert pending).flavor = d.flavor :=
  copy_induction (P := fun d' => d'.flavor = d.flavor)
    (fun _ _ _ _ _ hd happend => (flavor_append? happend).trans hd) rfl pending

end Copy

/-! ## Documents with given trees -/

namespace Document

theorem tree_copy_new {α : Type} (convert : (parent child : α) → Option Node) (flavor : Flavor)
    (t : Tree α) :
    ((new flavor).copy convert [(t, root)]).tree.map Prod.snd =
      .node .document (copiedAll convert t.value t.children) := by
  have hroot : root < (new flavor).cells.size := Nat.one_pos
  have hpending : ∀ p ∈ [(t, root)], p.2 < (new flavor).cells.size :=
    List.forall_mem_singleton.2 hroot
  have hcopies : copiesFor convert [(t, root)] root = copiedAll convert t.value t.children := by
    simp [copiesFor]
  rw [tree, treeAt_copy _ _ hpending root hroot, graft_treeAt, hcopies]
  rfl

def ofTrees (flavor : Flavor) (ts : List (Tree Node)) : Document :=
  (new flavor).copy (fun _ v => some v) [(.node .document ts, root)]

end Document

mutual

theorem copied_some (parent : Node) : (t : Tree Node) → copied (fun _ v => some v) parent t = [t]
  | .node v ts => by rw [copied, copiedAll_some]

theorem copiedAll_some (parent : Node) :
    (ts : List (Tree Node)) → copiedAll (fun _ v => some v) parent ts = ts
  | [] => rfl
  | t :: ts => by rw [copiedAll, copied_some, copiedAll_some, List.singleton_append]

end

theorem Document.tree_ofTrees (flavor : Flavor) (ts : List (Tree Node)) :
    (ofTrees flavor ts).tree.map Prod.snd = .node .document ts := by
  rw [ofTrees, tree_copy_new, value_node, children_node, copiedAll_some]

theorem Document.flavor_ofTrees (flavor : Flavor) (ts : List (Tree Node)) :
    (ofTrees flavor ts).flavor = flavor :=
  flavor_copy _ _

end Markup

end PrettyPayload
