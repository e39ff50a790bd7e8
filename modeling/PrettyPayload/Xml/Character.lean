import PrettyPayload.Text.Basic

/-!
# Characters of XML

The four character classes that the grammar of XML names: white space, the characters that may
occur at all, and the characters that may start and continue a name. A colon counts as a name
character here; where it separates a prefix, the reader of names looks for it first.
-/

namespace PrettyPayload

namespace Xml

/-- White space of XML: space, tab, line feed and carriage return. -/
def isSpace (c : Char) : Bool := c = ' ' || c = '\t' || c = '\n' || c = '\r'

def isAllowed (c : Char) : Bool :=
  if c.val < 0x20 then isSpace c else c.val ≠ 0xFFFE && c.val ≠ 0xFFFF

/-- Whether a number lies in one of several ranges, ends included. -/
def inRanges (ranges : List (UInt32 × UInt32)) (n : UInt32) : Bool :=
  ranges.any fun (low, high) => low ≤ n && n ≤ high

def nameStartRanges : List (UInt32 × UInt32) :=
  [(0x61, 0x7A), (0x41, 0x5A), (0x3A, 0x3A), (0x5F, 0x5F), (0xC0, 0xD6), (0xD8, 0xF6),
    (0xF8, 0x2FF), (0x370, 0x37D), (0x37F, 0x1FFF), (0x200C, 0x200D), (0x2070, 0x218F),
    (0x2C00, 0x2FEF), (0x3001, 0xD7FF), (0xF900, 0xFDCF), (0xFDF0, 0xFFFD), (0x10000, 0xEFFFF)]

def nameFollowRanges : List (UInt32 × UInt32) :=
  [(0x30, 0x39), (0x2D, 0x2E), (0xB7, 0xB7), (0x300, 0x36F), (0x203F, 0x2040)]

def isNameStart (c : Char) : Bool := inRanges nameStartRanges c.val

def isNameChar (c : Char) : Bool := isNameStart c || inRanges nameFollowRanges c.val

theorem isNameChar_of_isNameStart {c : Char} (h : isNameStart c = true) : isNameChar c = true := by
  simp [isNameChar, h]

end Xml

end PrettyPayload
