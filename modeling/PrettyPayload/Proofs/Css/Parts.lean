import PrettyPayload.Proofs.Css.Scan
import PrettyPayload.Proofs.Text.Join
import PrettyPayload.Proofs.Text.Split

/-!
# The parts of a text

Each search for a separator starts outside everything, in the middle of a text and whatever is left
open around it. That is sound because a separator is found only where the search is outside
everything itself: behind it the restarted search is where a single search over the whole text would
be. So the parts between separators make up the text (`joinWith_splitAtTop`), no separator counts in
any of them, and they are the only parts of this kind.
-/

namespace PrettyPayload

namespace Css

variable {separator : Char} {t part : Text} {parts : List Text}

/-- Parts that a separator keeps apart: no separator counts in a part that is read by itself, and
behind every part but the last one does. -/
structure Parted (separator : Char) (parts : List Text) : Prop where
  ne_nil : parts ≠ []
  uncut : ∀ part ∈ parts, ∀ front back, part = front ++ separator :: back →
    (Nesting.start.after front).isTop = false
  ends : ∀ part ∈ parts.dropLast, (Nesting.start.after part).isTop = true

theorem breakAt_eq_none_iff_of_eq {k : Nesting} :
    breakAt (fun c => decide (c = separator)) k t = none ↔
      ∀ front back, t = front ++ separator :: back → (k.after front).isTop = false := by
  rw [breakAt_eq_none_iff]
  constructor
  · exact fun h front back heq => h front separator back heq (decide_eq_true rfl)
  · rintro h front c back heq hc
    obtain rfl : c = separator := of_decide_eq_true hc
    exact h front back heq

theorem splitAtTop_ne_nil (separator : Char) (t : Text) : splitAtTop separator t ≠ [] := by
  rw [splitAtTop]
  split <;> exact List.cons_ne_nil _ _

theorem joinWith_splitAtTop (separator : Char) (t : Text) :
    Text.joinWith [separator] (splitAtTop separator t) = t := by
  fun_induction splitAtTop separator t with
  | case1 t hcut => exact Text.joinWith_singleton _ t
  | case2 t before stop after hcut ih =>
    obtain ⟨ht, hstop⟩ := breakAt_eq_some hcut
    obtain rfl : stop = separator := of_decide_eq_true hstop
    rw [Text.joinWith_cons, Text.flatMap_append_eq_joinWith _ (splitAtTop_ne_nil stop after), ih,
      ht, List.singleton_append]

theorem parted_splitAtTop (separator : Char) (t : Text) :
    Parted separator (splitAtTop separator t) := by
  fun_induction splitAtTop separator t with
  | case1 t hcut =>
    refine ⟨List.cons_ne_nil _ _, ?_, List.forall_mem_nil _⟩
    exact List.forall_mem_singleton.2 (breakAt_eq_none_iff_of_eq.1 hcut)
  | case2 t before stop after hcut ih =>
    obtain ⟨hnone, hstart⟩ := eq_none_of_breakAt hcut
    refine ⟨List.cons_ne_nil _ _, ?_, ?_⟩
    · exact List.forall_mem_cons.2 ⟨breakAt_eq_none_iff_of_eq.1 hnone, ih.uncut⟩
    · rw [List.dropLast_cons_of_ne_nil ih.ne_nil, List.forall_mem_cons, hstart]
      exact ⟨rfl, ih.ends⟩

theorem breakAt_of_mem_splitAtTop (h : part ∈ splitAtTop separator t) :
    breakAt (fun c => decide (c = separator)) Nesting.start part = none :=
  breakAt_eq_none_iff_of_eq.2 ((parted_splitAtTop separator t).uncut part h)

/-- Parts that are kept apart are found again. -/
theorem Parted.splitAtTop_joinWith (h : Parted separator parts) :
    splitAtTop separator (Text.joinWith [separator] parts) = parts := by
  induction parts with
  | nil => exact absurd rfl h.ne_nil
  | cons part parts ih =>
    have huncut := breakAt_eq_none_iff_of_eq.2 (h.uncut part List.mem_cons_self)
    cases parts with
    | nil => rw [Text.joinWith_singleton, splitAtTop, huncut]
    | cons next parts =>
      have hends := h.ends
      rw [List.dropLast_cons_cons, List.forall_mem_cons] at hends
      have hcut := breakAt_append_cons huncut hends.1 (decide_eq_true rfl)
        (Text.joinWith [separator] (next :: parts))
      have hrest : Parted separator (next :: parts) :=
        { ne_nil := List.cons_ne_nil _ _
          uncut := fun part hpart => h.uncut part (List.mem_cons_of_mem _ hpart)
          ends := hends.2 }
      rw [Text.joinWith_cons_cons, List.append_assoc, List.singleton_append, splitAtTop, hcut]
      exact congrArg (part :: ·) (ih hrest)

/-- The parts of a text make it up again with a separator between each two of them. No separator
counts in a part that is read from its own start, but behind every part but the last one does; and
there are no other parts of the text like that. -/
theorem splitAtTop_lossless_maximal (separator : Char) (t : Text) :
    Text.joinWith [separator] (splitAtTop separator t) = t ∧
      (∀ part ∈ splitAtTop separator t, ∀ front back, part = front ++ separator :: back →
        (Nesting.start.after front).isTop = false) ∧
      ∀ parts, splitAtTop separator t = parts ↔
        Text.joinWith [separator] parts = t ∧ Parted separator parts := by
  refine ⟨joinWith_splitAtTop separator t, (parted_splitAtTop separator t).uncut, fun parts => ?_⟩
  constructor
  · rintro rfl
    exact ⟨joinWith_splitAtTop separator t, parted_splitAtTop separator t⟩
  · rintro ⟨rfl, hparted⟩
    exact hparted.splitAtTop_joinWith

/-- A text with a bracket that nothing opens, an escaped separator, and a parenthesis and a literal
that are left open behind the last separator that counts. -/
def unbalancedText : Text := "a)b;[c;d]\\;';';(;'e;".toList

/-- The sample has three parts, the last of which holds separators inside what it leaves open. -/
theorem splitAtTop_unbalancedText :
    splitAtTop ';' unbalancedText = ["a)b".toList, "[c;d]\\;';'".toList, "(;'e;".toList] ∧
      Text.joinWith [';'] ["a)b".toList, "[c;d]\\;';'".toList, "(;'e;".toList] = unbalancedText ∧
      (Nesting.start.after ['(']).isTop = false ∧
      (Nesting.start.after "(;'e".toList).isTop = false := by
  obtain ⟨hjoin, huncut, -⟩ := splitAtTop_lossless_maximal ';' unbalancedText
  have hsplit : splitAtTop ';' unbalancedText =
      ["a)b".toList, "[c;d]\\;';'".toList, "(;'e;".toList] := by decide +kernel
  rw [hsplit] at hjoin huncut
  have hlast := huncut "(;'e;".toList (by decide)
  exact ⟨hsplit, hjoin, hlast _ _ rfl, hlast _ _ rfl⟩

end Css

end PrettyPayload
