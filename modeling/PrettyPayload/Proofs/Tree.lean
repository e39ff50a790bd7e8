import PrettyPayload.Tree

/-!
# Maps and predicates on trees

`map` changes the value at each node, and `All` says that each value has a property. `Ascending`
says that the values below a node are above it in an order, so that no value stands twice on a way
down.
-/

namespace PrettyPayload

namespace Tree

variable {α β : Type} {p q : α → Prop}

/-! ## Maps -/

mutual

def map (f : α → β) : Tree α → Tree β
  | node a ts => node (f a) (mapAll f ts)

def mapAll (f : α → β) : List (Tree α) → List (Tree β)
  | [] => []
  | t :: ts => map f t :: mapAll f ts

end

theorem mapAll_eq_map (f : α → β) (ts : List (Tree α)) : mapAll f ts = ts.map (map f) := by
  induction ts with
  | nil => rfl
  | cons t ts ih => rw [mapAll, ih, List.map_cons]

@[simp] theorem value_map (f : α → β) (t : Tree α) : (t.map f).value = f t.value := by
  cases t
  rfl

theorem map_value_mapAll (f : α → β) (ts : List (Tree α)) :
    (mapAll f ts).map value = ts.map fun t => f t.value := by
  simp [mapAll_eq_map]

@[simp] theorem mapAll_eq_nil_iff {f : α → β} {ts : List (Tree α)} :
    mapAll f ts = [] ↔ ts = [] := by
  simp [mapAll_eq_map]

/-! ## Predicates -/

mutual

def All (p : α → Prop) : Tree α → Prop
  | node a ts => p a ∧ AllOfAll p ts

def AllOfAll (p : α → Prop) : List (Tree α) → Prop
  | [] => True
  | t :: ts => All p t ∧ AllOfAll p ts

end

theorem allOfAll_iff {ts : List (Tree α)} : AllOfAll p ts ↔ ∀ t ∈ ts, t.All p := by
  induction ts with
  | nil => simp [AllOfAll]
  | cons t ts ih => rw [AllOfAll, ih, List.forall_mem_cons]

mutual

theorem All.mono (h : ∀ a, p a → q a) : (t : Tree α) → t.All p → t.All q
  | node a ts, ht => ⟨h a ht.1, AllOfAll.mono h ts ht.2⟩

theorem AllOfAll.mono (h : ∀ a, p a → q a) : (ts : List (Tree α)) → AllOfAll p ts → AllOfAll q ts
  | [], _ => trivial
  | t :: ts, hts => ⟨All.mono h t hts.1, AllOfAll.mono h ts hts.2⟩

end

/-! ## Order -/

mutual

/-- The values below each node come behind it in an order. -/
def Ascending (below : α → α → Prop) : Tree α → Prop
  | node a ts => AllOfAll (below a) ts ∧ AscendingAll below ts

def AscendingAll (below : α → α → Prop) : List (Tree α) → Prop
  | [] => True
  | t :: ts => Ascending below t ∧ AscendingAll below ts

end

theorem ascendingAll_iff {below : α → α → Prop} {ts : List (Tree α)} :
    AscendingAll below ts ↔ ∀ t ∈ ts, t.Ascending below := by
  induction ts with
  | nil => simp [AscendingAll]
  | cons t ts ih => rw [AscendingAll, ih, List.forall_mem_cons]

/-! ## Nodes with their children -/

mutual

/-- Every value of a tree and the subtrees below it have a property together. -/
def Each (p : α → List (Tree α) → Prop) : Tree α → Prop
  | node a ts => p a ts ∧ EachOfAll p ts

def EachOfAll (p : α → List (Tree α) → Prop) : List (Tree α) → Prop
  | [] => True
  | t :: ts => Each p t ∧ EachOfAll p ts

end

theorem eachOfAll_iff {p : α → List (Tree α) → Prop} {ts : List (Tree α)} :
    EachOfAll p ts ↔ ∀ t ∈ ts, t.Each p := by
  induction ts with
  | nil => simp [EachOfAll]
  | cons t ts ih => rw [EachOfAll, ih, List.forall_mem_cons]

mutual

theorem Each.mono {p q : α → List (Tree α) → Prop} (h : ∀ a ts, p a ts → q a ts) :
    (t : Tree α) → t.Each p → t.Each q
  | node a ts, ht => ⟨h a ts ht.1, EachOfAll.mono h ts ht.2⟩

theorem EachOfAll.mono {p q : α → List (Tree α) → Prop} (h : ∀ a ts, p a ts → q a ts) :
    (ts : List (Tree α)) → EachOfAll p ts → EachOfAll q ts
  | [], _ => trivial
  | t :: ts, hts => ⟨Each.mono h t hts.1, EachOfAll.mono h ts hts.2⟩

end

/-! ## Neighbors -/

/-- No two trees of a class stand side by side. -/
def Apart (p : α → Bool) : List (Tree α) → Prop
  | [] => True
  | t :: ts => (p t.value = true → ∀ u, ts.head? = some u → p u.value = false) ∧ Apart p ts

theorem apart_concat {p : α → Bool} {ts : List (Tree α)} {t : Tree α} :
    Apart p (ts ++ [t]) ↔
      Apart p ts ∧ (p t.value = true → ∀ u, ts.getLast? = some u → p u.value = false) := by
  induction ts with
  | nil => simp [Apart]
  | cons s ts ih =>
    rw [List.cons_append, Apart, ih, Apart]
    cases ts with
    | nil =>
      cases hs : p s.value <;> cases ht : p t.value <;> simp [Apart, hs, ht]
    | cons u ts => simp [and_assoc]

theorem Apart.of_map {p : α → Bool} {q : β → Bool} {f : α → β} :
    (ts : List (Tree α)) → (∀ t ∈ ts, q (f t.value) = p t.value) → Apart q (mapAll f ts) →
      Apart p ts
  | [], _, _ => trivial
  | t :: ts, hf, h => by
    rw [List.forall_mem_cons] at hf
    refine ⟨?_, Apart.of_map ts hf.2 h.2⟩
    intro ht u hu
    cases ts with
    | nil => cases hu
    | cons s ts =>
      obtain rfl := Option.some.inj hu
      rw [← hf.2 s List.mem_cons_self, ← value_map f s]
      exact h.1 (by rw [value_map, hf.1, ht]) _ rfl

end Tree

end PrettyPayload
