import PrettyPayload.Proofs.Css.Alike
import PrettyPayload.Proofs.Css.Returnless
import PrettyPayload.Proofs.Css.Zone

/-!
# White space of a source

Runs of ASCII white space between the literals and comments of a source may be exchanged for other
runs. `Respaced` says that one source comes from another in this way. The comments are then removed
from both alike, or both are refused for the same literal or comment, and the texts without comments
are alike; so `parse_respaced`: both sources spell the same stylesheet and the same declarations, or
have the same fault.
-/

namespace PrettyPayload

namespace Css

variable {s t u v w : Text} {c quote : Char} {z : Zone} {slashed : Bool} {last last' : Option Char}

/-- A source with runs of white space outside literals and comments exchanged for other runs. -/
inductive Respaced : Zone → Text → Text → Prop
  | nil (z : Zone) : Respaced z [] []
  | cons {z : Zone} {s t : Text} (c : Char) (h : Respaced (z.step c) s t) :
      Respaced z (c :: s) (c :: t)
  | run {z : Zone} {v w s t : Text} (hz : z.isFree = true) (hv : IsRun v) (hw : IsRun w)
      (h : Respaced (z.after v) s t) : Respaced z (v ++ s) (w ++ t)

namespace Respaced

theorem append_left (u : Text) (h : Respaced (z.after u) s t) : Respaced z (u ++ s) (u ++ t) := by
  induction u generalizing z with
  | nil => exact h
  | cons c u ih => exact .cons c (ih h)

theorem refl (z : Zone) (s : Text) : Respaced z s s := by
  induction s generalizing z with
  | nil => exact .nil z
  | cons c s ih => exact .cons c (ih _)

theorem spaced (h : Respaced z s t) : Spaced s t := by
  induction h with
  | nil z => exact .nil
  | cons c _ ih => exact .cons c ih
  | run _ hv hw _ ih => exact .run hv hw ih

/-- What is no white space stands in both sources. -/
theorem exists_cons (h : Respaced z (c :: s) t) (hc : Text.isAsciiBlank c = false) :
    ∃ u, t = c :: u ∧ Respaced (z.step c) s u := by
  generalize hcs : c :: s = cs at h
  cases h with
  | nil => cases hcs
  | cons d h =>
    obtain ⟨rfl, rfl⟩ := List.cons.inj hcs
    exact ⟨_, rfl, h⟩
  | run _ hv _ _ =>
    obtain ⟨d, v, rfl⟩ := List.exists_cons_of_ne_nil hv.1
    obtain rfl := (List.cons.inj hcs).1
    rw [hv.2 c List.mem_cons_self] at hc
    cases hc

theorem head?_comment {starred : Bool} (h : Respaced (.comment starred) s t) :
    s.head? = t.head? := by
  cases h with
  | nil => rfl
  | cons c h => rfl
  | run hfree _ _ _ => cases hfree

/-! ## Literals and comments -/

theorem takeLiteral_cases (h : Respaced (.literal quote false) s t) (hs : '\\' ∉ s) :
    takeLiteral quote s = none ∧ takeLiteral quote t = none ∨
      ∃ body rest rest', takeLiteral quote s = some (body, rest) ∧
        takeLiteral quote t = some (body, rest') ∧ Respaced Zone.start rest rest' := by
  generalize hz : Zone.literal quote false = z at h
  induction h with
  | nil => exact Or.inl ⟨rfl, rfl⟩
  | @cons z s t c h ih =>
    subst hz
    rw [List.mem_cons, not_or] at hs
    have hslash : c ≠ '\\' := Ne.symm hs.1
    rw [takeLiteral.eq_def, takeLiteral.eq_def]
    simp only [if_neg hslash]
    by_cases hfeed : c = '\n'
    · exact Or.inl ⟨if_pos hfeed, if_pos hfeed⟩
    by_cases hquote : c = quote
    · rw [Zone.step, if_neg hslash, if_neg hfeed, if_pos hquote] at h
      refine Or.inr ⟨[c], s, t, ?_, ?_, h⟩ <;> rw [if_neg hfeed, if_pos hquote]
    · have hstep : (Zone.literal quote false).step c = .literal quote false := by
        rw [Zone.step, if_neg hslash, if_neg hfeed, if_neg hquote]
      rw [if_neg hfeed, if_neg hquote, if_neg hfeed, if_neg hquote]
      rcases ih hs.2 hstep.symm with ⟨hs, ht⟩ | ⟨body, rest, rest', hs, ht, hrest⟩
      · exact Or.inl ⟨by rw [hs]; rfl, by rw [ht]; rfl⟩
      · exact Or.inr ⟨c :: body, rest, rest', by rw [hs]; rfl, by rw [ht]; rfl, hrest⟩
  | run hfree _ _ _ _ =>
    subst hz
    cases hfree

theorem skipComment_cases {starred : Bool} (h : Respaced (.comment starred) s t)
    (hslash : starred = true → s.head? ≠ some '/') :
    skipComment s = none ∧ skipComment t = none ∨
      ∃ rest rest', skipComment s = some rest ∧ skipComment t = some rest' ∧
        Respaced Zone.start rest rest' := by
  generalize hz : Zone.comment starred = z at h
  induction h generalizing starred with
  | nil => exact Or.inl ⟨rfl, rfl⟩
  | @cons z s t c h ih =>
    subst hz
    have hstep : (Zone.comment starred).step c = .comment (c = '*') := by
      rw [Zone.step, if_neg]
      rw [Bool.and_eq_true, decide_eq_true_eq]
      rintro ⟨hstarred, rfl⟩
      exact hslash hstarred rfl
    by_cases hend : c = '*' ∧ s.head? = some '/'
    · obtain ⟨rfl, hhead⟩ := hend
      obtain ⟨s, rfl⟩ := List.head?_eq_some_iff.1 hhead
      rw [hstep] at h
      obtain ⟨t, rfl, hrest⟩ := h.exists_cons (by decide)
      exact Or.inr ⟨s, t, rfl, rfl, hrest⟩
    · rw [hstep] at h
      have hhead : s.head? = t.head? := h.head?_comment
      have hs : c = '*' → s.head? ≠ some '/' := fun hc hhead => hend ⟨hc, hhead⟩
      rw [skipComment_cons hs, skipComment_cons (hhead ▸ hs)]
      exact ih (fun hc => hs (of_decide_eq_true hc)) hstep.symm
  | run hfree _ _ _ _ =>
    subst hz
    cases hfree

end Respaced

/-! ## The removal of comments -/

inductive Agree : Except Error Text → Except Error Text → Prop
  | error (e : Error) : Agree (.error e) (.error e)
  | ok {u v : Text} (h : Alike Quoting.start u v) : Agree (.ok u) (.ok v)

namespace Agree

variable {x y : Except Error Text}

theorem map {f g : Text → Text} (h : Agree x y)
    (hf : ∀ u v, Alike Quoting.start u v → Alike Quoting.start (f u) (g v)) :
    Agree (f <$> x) (g <$> y) := by
  cases h with
  | error e => exact .error e
  | ok h => exact .ok (hf _ _ h)

theorem bind_eq {α : Type} {f : Text → Except Error α} (h : Agree x y)
    (hf : ∀ u v, Alike Quoting.start u v → f u = f v) : x >>= f = y >>= f := by
  cases h with
  | error e => rfl
  | ok h => exact hf _ _ h

end Agree

/-- A literal without backslashes stands in front of alike texts. -/
theorem Alike.literal {body : Text} (hq : isQuote quote = true) (hbody : Literal quote body)
    (hb : '\\' ∉ body) (h : Alike Quoting.start u v) :
    Alike Quoting.start (quote :: body ++ u) (quote :: body ++ v) := by
  have hslash : quote ≠ '\\' := by
    rintro rfl
    exact absurd hq (by decide)
  have hopen : Quoting.start.step quote = ⟨some quote, false⟩ := by
    simp [Quoting.step, Quoting.start, hslash, hq]
  have hinside : Alike ⟨some quote, false⟩ (body ++ u) (body ++ v) := by
    induction hbody with
    | close _ _ =>
      refine .cons hslash ?_
      simpa [Quoting.step, hslash] using h
    | escape c _ _ => exact absurd List.mem_cons_self hb
    | char hc _ hquote _ ih =>
      rw [List.mem_cons, not_or] at hb
      refine .cons hc ?_
      simpa [Quoting.step, hc, hquote] using ih hb.2
  exact .cons hslash (hopen ▸ hinside)

/-- Two sources that go the same way outside literals and comments: in both stand the same literals,
the same characters, and a comment or a run of white space where the other has one. -/
inductive Paired : Text → Text → Prop
  | nil : Paired [] []
  | run {v w s t : Text} (hv : IsRun v) (hw : IsRun w) (h : Paired s t) : Paired (v ++ s) (w ++ t)
  | openComment {s t : Text} (hs : skipComment s = none) (ht : skipComment t = none) :
      Paired ('/' :: '*' :: s) ('/' :: '*' :: t)
  | comment {s t u v : Text} (hs : skipComment s = some u) (ht : skipComment t = some v)
      (hspaced : Spaced u v) (h : Paired u v) : Paired ('/' :: '*' :: s) ('/' :: '*' :: t)
  | openLiteral {quote : Char} {s t : Text} (hq : isQuote quote = true)
      (hs : takeLiteral quote s = none) (ht : takeLiteral quote t = none) (hspaced : Spaced s t) :
      Paired (quote :: s) (quote :: t)
  | literal {quote : Char} {body s t u v : Text} (hq : isQuote quote = true)
      (hs : takeLiteral quote s = some (body, u)) (ht : takeLiteral quote t = some (body, v))
      (hbody : '\\' ∉ body) (h : Paired u v) : Paired (quote :: s) (quote :: t)
  | cons {c : Char} {s t : Text} (hslash : c ≠ '\\') (hquote : isQuote c = false)
      (hs : c = '/' → s.head? ≠ some '*') (ht : c = '/' → t.head? ≠ some '*') (h : Paired s t) :
      Paired (c :: s) (c :: t)

/-- Sources that differ in their runs of white space go the same way. No comment may be open at
their start. -/
theorem Respaced.paired {slashed : Bool} {s t : Text} (h : Respaced (.outside slashed) s t)
    (hs : '\\' ∉ s) (hstar : slashed = true → s.head? ≠ some '*') : Paired s t := by
  -- on the length of the source, as a comment or a literal is gone over at once
  induction hn : s.length using Nat.strongRecOn generalizing slashed s t with
  | _ n ih =>
  subst hn
  cases h with
  | nil => exact .nil
  | @run _ v w s t _ hv hw h =>
    rw [Zone.after_of_blanks slashed hv.1 hv.isBlank] at h
    rw [List.mem_append, not_or] at hs
    have hshort : s.length < (v ++ s).length := by
      rw [List.length_append]
      exact Nat.lt_add_of_pos_left (List.length_pos_iff.2 hv.1)
    exact .run hv hw (ih _ hshort h hs.2 Bool.false_ne_true.elim rfl)
  | @cons _ s t c h =>
    rw [List.mem_cons, not_or] at hs
    by_cases hcomment : c = '/' ∧ s.head? = some '*'
    · obtain ⟨rfl, hhead⟩ := hcomment
      obtain ⟨s, rfl⟩ := List.head?_eq_some_iff.1 hhead
      rw [Zone.step_outside slashed (fun _ => by decide) (by decide)] at h
      obtain ⟨t, rfl, hinner⟩ := h.exists_cons (by decide)
      rcases hinner.skipComment_cases Bool.false_ne_true.elim with
        ⟨hskip, hskip'⟩ | ⟨rest, rest', hskip, hskip', hrest⟩
      · exact .openComment hskip hskip'
      · have hslash : '\\' ∉ rest := fun hmem =>
          hs.2 (List.mem_cons_of_mem _ ((skipComment_suffix hskip).subset hmem))
        have hshort : rest.length < ('/' :: '*' :: s).length :=
          Nat.lt_add_right 1 (Nat.lt_succ_of_le (length_skipComment_le hskip))
        exact .comment hskip hskip' hrest.spaced
          (ih _ hshort hrest hslash Bool.false_ne_true.elim rfl)
    cases hquote : isQuote c with
    | true =>
      rw [Zone.step_outside_quote slashed hquote] at h
      rcases h.takeLiteral_cases hs.2 with ⟨hnone, hnone'⟩ | ⟨body, rest, rest', hs', ht, hrest⟩
      · exact .openLiteral hquote hnone hnone' h.spaced
      · have hsplit := takeLiteral_eq_some hs'
        rw [hsplit, List.mem_append, not_or] at hs
        have hshort : rest.length < (c :: s).length := by
          rw [hsplit, List.length_cons, List.length_append]
          exact Nat.lt_succ_of_le (Nat.le_add_left _ _)
        exact .literal hquote hs' ht hs.2.1
          (ih _ hshort hrest hs.2.2 Bool.false_ne_true.elim rfl)
    | false =>
      have hopen : c = '/' → s.head? ≠ some '*' := fun hc hhead => hcomment ⟨hc, hhead⟩
      have hc : slashed = true → c ≠ '*' := fun hslashed hc => hstar hslashed (congrArg some hc)
      rw [Zone.step_outside slashed hc hquote] at h
      have hopen' : c = '/' → t.head? ≠ some '*' := by
        intro hc hhead
        rcases h.spaced.head?_cases with heq | ⟨d, e, -, ht, -, he⟩
        · exact hopen hc (heq.trans hhead)
        · rw [hhead] at ht
          obtain rfl := Option.some.inj ht
          exact absurd he (by decide)
      exact .cons (Ne.symm hs.1) hquote hopen hopen'
        (ih _ (Nat.lt_succ_self s.length) h hs.2 (fun hc => hopen (of_decide_eq_true hc)) rfl)

/-- The comments of both sources are removed alike. A name may go on behind what stands before them
in both sources or in none. -/
theorem Paired.agree {last last' : Option Char} (h : Paired s t)
    (hlast : last.any isNameChar = last'.any isNameChar) :
    Agree (stripCommentsAfter last s) (stripCommentsAfter last' t) := by
  induction h generalizing last last' with
  | nil =>
    rw [stripCommentsAfter, stripCommentsAfter]
    exact .ok (.nil _)
  | @run v w s t hv hw _ ih =>
    have hlast' : (v.getLast?.or last).any isNameChar = (w.getLast?.or last').any isNameChar := by
      rw [any_isNameChar_of_blanks hv.1 hv.isBlank, any_isNameChar_of_blanks hw.1 hw.isBlank]
    rw [stripCommentsAfter_of_blanks hv.isBlank, stripCommentsAfter_of_blanks hw.isBlank]
    exact (ih hlast').map fun _ _ huv => .run hv hw huv
  | openComment hs ht =>
    rw [stripCommentsAfter_of_open_comment hs, stripCommentsAfter_of_open_comment ht]
    exact .error _
  | @comment s t u v hs ht hspaced _ ih =>
    have hfuses : fuses last u.head? = fuses last' v.head? := by
      rw [fuses, fuses, hlast, hspaced.any_isNameChar_head?]
    rw [stripCommentsAfter_comment hs, stripCommentsAfter_comment ht, hfuses]
    split
    · exact (ih rfl).map fun _ _ huv => .cons (by decide) huv
    · exact ih hlast
  | @openLiteral quote s t hq hs ht hspaced =>
    have hnear : excerpt (quote :: s) = excerpt (quote :: t) := hspaced.excerpt_append [quote]
    rw [stripCommentsAfter_of_open_literal hq hs, stripCommentsAfter_of_open_literal hq ht, hnear]
    exact .error _
  | literal hq hs ht hbody _ ih =>
    rw [stripCommentsAfter_literal hq hs, stripCommentsAfter_literal hq ht]
    exact (ih rfl).map fun _ _ huv => .literal hq (literal_of_takeLiteral hs) hbody huv
  | cons hslash hquote hs ht _ ih =>
    rw [stripCommentsAfter_cons hs hquote, stripCommentsAfter_cons ht hquote]
    refine (ih rfl).map fun _ _ huv => .cons hslash ?_
    rwa [Quoting.start_step hslash hquote]

/-- White space between literals and comments has no meaning beyond its being there. -/
theorem parse_respaced (hs : '\\' ∉ s) (h : Respaced Zone.start s t) :
    parseStylesheet t = parseStylesheet s ∧ parseDeclarations t = parseDeclarations s := by
  have hagree : Agree (stripComments s) (stripComments t) :=
    (h.paired hs Bool.false_ne_true.elim).agree rfl
  constructor
  · rw [parseStylesheet_eq, parseStylesheet_eq]
    exact (hagree.bind_eq fun u v huv => by rw [huv.readItems_eq]).symm
  · exact (hagree.bind_eq fun u v huv => huv.readDeclarations_eq).symm

/-- A rule with white space before its block and before a value. -/
def gappedRule (gap : Text) : Text :=
  "a".toList ++ (gap ++ ("\x7bb:".toList ++ (gap ++ "\"c  d\"/* e  f */;\x7d".toList)))

theorem respaced_gappedRule (hv : IsRun v) (hw : IsRun w) :
    Respaced Zone.start (gappedRule v) (gappedRule w) := by
  refine .append_left _ (.run rfl hv hw ?_)
  rw [show Zone.start.after "a".toList = .outside false from rfl,
    Zone.after_of_blanks false hv.1 hv.isBlank]
  exact .append_left _ (.run rfl hv hw (.refl _ _))

theorem parse_respaced_gappedRule :
    '\\' ∉ gappedRule " ".toList ∧
      Respaced Zone.start (gappedRule " ".toList) (gappedRule "\r\n\t".toList) ∧
      parseStylesheet (gappedRule "\r\n\t".toList) = parseStylesheet (gappedRule " ".toList) ∧
      parseDeclarations (gappedRule "\r\n\t".toList) =
        parseDeclarations (gappedRule " ".toList) := by
  have hs : '\\' ∉ gappedRule " ".toList := by decide
  have hrun : Respaced Zone.start (gappedRule " ".toList) (gappedRule "\r\n\t".toList) :=
    respaced_gappedRule ⟨by decide, Text.forall_mem_of_all (by decide)⟩
      ⟨by decide, Text.forall_mem_of_all (by decide)⟩
  exact ⟨hs, hrun, parse_respaced hs hrun⟩

end Css

end PrettyPayload
