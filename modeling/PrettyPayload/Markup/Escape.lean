import PrettyPayload.Markup.Basic

/-!
# Escaping

Character data and attribute values are written with references in place of the characters that
would be taken for markup, or that reading would change. The two flavors need different ones: HTML
writes the no-break space as a reference, XML also the blanks that would not survive in an
attribute value.
-/

namespace PrettyPayload

namespace Markup

def escapeTextChar (flavor : Flavor) (c : Char) : Text :=
  if c = '&' then "&amp;".toList
  else if c = '<' then "&lt;".toList
  else if c = '>' then "&gt;".toList
  else if c = '\u00A0' ∧ flavor = .html then "&nbsp;".toList
  else [c]

def escapeAttributeChar (flavor : Flavor) (c : Char) : Text :=
  if c = '&' then "&amp;".toList
  else if c = '"' then "&quot;".toList
  else
    match flavor with
    | .html => if c = '\u00A0' then "&nbsp;".toList else [c]
    | .xml =>
      if c = '<' then "&lt;".toList
      else if c = '\n' then "&#10;".toList
      else if c = '\t' then "&#9;".toList
      else if c = '\r' then "&#13;".toList
      else [c]

def escapeText (flavor : Flavor) (t : Text) : Text := t.flatMap (escapeTextChar flavor)

def escapeAttribute (flavor : Flavor) (t : Text) : Text := t.flatMap (escapeAttributeChar flavor)

@[simp] theorem escapeText_nil (flavor : Flavor) : escapeText flavor [] = [] := rfl

@[simp] theorem escapeText_append (flavor : Flavor) (s t : Text) :
    escapeText flavor (s ++ t) = escapeText flavor s ++ escapeText flavor t := by
  simp [escapeText]

@[simp] theorem escapeAttribute_nil (flavor : Flavor) : escapeAttribute flavor [] = [] := rfl

@[simp] theorem escapeAttribute_append (flavor : Flavor) (s t : Text) :
    escapeAttribute flavor (s ++ t) = escapeAttribute flavor s ++ escapeAttribute flavor t := by
  simp [escapeAttribute]

end Markup

end PrettyPayload
