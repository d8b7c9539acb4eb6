import RegionCapture.Text.Quoted

/-!
# Tokens

A token anchors a node or a symbol in the source text. The analysis reads tokens only to place and
word its messages.
-/

namespace RegionCapture

/-- A lexeme with its place in a source file. A line that is not positive means "no place known". -/
structure Token where
  lexeme : String := ""
  file : String := ""
  line : Int := 0
  column : Int := 0
deriving DecidableEq, Inhabited

namespace Token

/-- Whether the token has a real place in a source file. -/
def isValid (t : Token) : Bool := 0 < t.line

/-- The place as `file:line:column`; parts that are not known are left out. -/
def position (t : Token) : String :=
  if t.isValid then
    let place := toString t.line ++ ":" ++ toString t.column
    if t.file = "" then place else t.file ++ ":" ++ place
  else if t.file = "" then "-"
  else t.file

/-- The place, followed by the quoted lexeme if there is one. -/
def text (t : Token) : String :=
  if t.lexeme = "" then t.position else t.position ++ " " ++ Text.quote t.lexeme

end Token

end RegionCapture
