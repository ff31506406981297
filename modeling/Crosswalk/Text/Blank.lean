/-!
# Blank characters

A character is blank when Unicode gives it the property `White_Space`; the
property has twenty-five members and reaches beyond ASCII (no-break space, the
typographic spaces, the line and paragraph separators). Trimming drops blank
characters at both ends. A text is blank when nothing is left after trimming,
which is to say when all its characters are blank.
-/

namespace Crosswalk.Text

/-- Code points with the property `White_Space`, in ascending order. -/
def blankCodes : List Nat :=
  [0x09, 0x0A, 0x0B, 0x0C, 0x0D, 0x20, 0x85, 0xA0, 0x1680, 0x2000, 0x2001, 0x2002, 0x2003, 0x2004,
   0x2005, 0x2006, 0x2007, 0x2008, 0x2009, 0x200A, 0x2028, 0x2029, 0x202F, 0x205F, 0x3000]

def isBlank (c : Char) : Bool := blankCodes.contains c.toNat

/-! ### Trimming -/

def dropBlank (cs : List Char) : List Char := cs.dropWhile isBlank

def dropBlankEnd (cs : List Char) : List Char := (cs.reverse.dropWhile isBlank).reverse

def trim (s : String) : String := String.ofList (dropBlankEnd (dropBlank s.toList))

def isBlankText (s : String) : Bool := s.toList.all isBlank

theorem isBlankText_empty : isBlankText "" = true := rfl

end Crosswalk.Text
