import PrettyPayload.Css.Error
import PrettyPayload.Css.Scan
import PrettyPayload.Text.Alphanumeric

/-!
# Comments of a stylesheet

`stripComments` takes the comments out before anything else is read. String literals are copied
as they are, and a literal that reaches an unescaped line feed or the end of the text is a fault.
A comment between two name characters leaves one space behind, so that the names on its two sides
stay two names.
-/

namespace PrettyPayload

namespace Css

/-- The characters of names: letters and digits of every script, hyphen and underscore. -/
def isNameChar (c : Char) : Bool := Text.isAlphanumeric c || c = '-' || c = '_'

/-- What follows the end of the comment whose opening was just read. -/
def skipComment : Text → Option Text
  | [] => none
  | '*' :: '/' :: t => some t
  | _ :: t => skipComment t

theorem length_skipComment_le {t rest : Text} (h : skipComment t = some rest) :
    rest.length ≤ t.length := by
  fun_induction skipComment t with
  | case1 => simp at h
  | case2 t => simp only [Option.some.injEq] at h; subst h; simp; omega
  | case3 c t _ ih => have := ih h; simp; omega

/-- The rest of a literal whose opening quote was just read, closing quote included, and what
follows it. A backslash carries the character after it along, whatever it is. -/
def takeLiteral (quote : Char) : Text → Option (Text × Text)
  | [] => none
  | c :: t =>
    if c = '\\' then
      match t with
      | [] => none
      | d :: t => (takeLiteral quote t).map fun (body, rest) => (c :: d :: body, rest)
    else if c = '\n' then none
    else if c = quote then some ([c], t)
    else (takeLiteral quote t).map fun (body, rest) => (c :: body, rest)

theorem takeLiteral_eq_some {quote : Char} {t body rest : Text}
    (h : takeLiteral quote t = some (body, rest)) : t = body ++ rest := by
  fun_induction takeLiteral quote t generalizing body with
  | case1 => simp at h
  | case2 => simp at h
  | case3 d t ih =>
    obtain ⟨⟨b, r⟩, hb, he⟩ := Option.map_eq_some_iff.1 h
    simp only [Prod.mk.injEq] at he
    obtain ⟨rfl, rfl⟩ := he
    simp [ih hb]
  | case4 => simp at h
  | case5 => simp only [Option.some.injEq, Prod.mk.injEq] at h; obtain ⟨rfl, rfl⟩ := h; simp_all
  | case6 c t _ _ _ ih =>
    obtain ⟨⟨b, r⟩, hb, he⟩ := Option.map_eq_some_iff.1 h
    simp only [Prod.mk.injEq] at he
    obtain ⟨rfl, rfl⟩ := he
    simp [ih hb]

/-- Whether a comment between these two characters has to leave a space behind. -/
def fuses (last next : Option Char) : Bool := last.any isNameChar && next.any isNameChar

/-- Comment removal behind the character `last` of the result. -/
def stripCommentsAfter (last : Option Char) : Text → Except Error Text
  | [] => .ok []
  | c :: t =>
    if c = '/' ∧ t.head? = some '*' then
      match _comment : skipComment t.tail with
      | none => .error .unterminatedComment
      | some rest =>
        if fuses last rest.head? then (' ' :: ·) <$> stripCommentsAfter (some ' ') rest
        else stripCommentsAfter last rest
    else if isQuote c then
      match _literal : takeLiteral c t with
      | none => .error (.unterminatedString (excerpt (c :: t)))
      | some (literal, rest) => (c :: literal ++ ·) <$> stripCommentsAfter (some c) rest
    else (c :: ·) <$> stripCommentsAfter (some c) t
termination_by t => t.length
decreasing_by
  · have := length_skipComment_le _comment; simp at this ⊢; omega
  · have := length_skipComment_le _comment; simp at this ⊢; omega
  · have := takeLiteral_eq_some _literal
    rw [this]
    simp only [List.length_cons, List.length_append]; omega
  · simp

def stripComments (t : Text) : Except Error Text := stripCommentsAfter none t

end Css

end PrettyPayload
