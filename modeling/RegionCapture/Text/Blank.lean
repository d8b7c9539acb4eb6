/-!
# Blanks

What may stand between the parts of a line, and the mark that a text may start with.
-/

namespace RegionCapture.Text

def isBlank (c : Char) : Bool := c = ' ' || c = '\t'

/-- A text without the byte order mark at its start. -/
def dropMark : List Char → List Char
  | [] => []
  | c :: cs => if c = Char.ofNat 0xfeff then cs else c :: cs

end RegionCapture.Text
