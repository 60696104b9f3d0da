/-!
# Blank text

A text is blank when every character of it is white space.
-/

namespace LadderDiagram.Text

/-- The code points with the property White_Space. -/
def whiteSpace : List Nat :=
  [0x9, 0xA, 0xB, 0xC, 0xD, 0x20, 0x85, 0xA0, 0x1680, 0x2000, 0x2001, 0x2002, 0x2003, 0x2004,
    0x2005, 0x2006, 0x2007, 0x2008, 0x2009, 0x200A, 0x2028, 0x2029, 0x202F, 0x205F, 0x3000]

def isWhiteSpace (c : Char) : Bool := whiteSpace.contains c.toNat

def isBlank (s : String) : Bool := s.toList.all isWhiteSpace

end LadderDiagram.Text
