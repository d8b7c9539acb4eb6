import RegionCapture.Token

/-!
# Provenance traces

A trace lists the expressions through which a region reaches a value, outermost first; below each
item stand the items that explain it in turn. Printed, every item is a line, and nesting is shown by
indentation.
-/

namespace RegionCapture

/-- One expression of a trace with the items that explain it. -/
structure TraceItem where
  token : Token
  message : String
  children : List TraceItem

/-- An ordered provenance trace. -/
abbrev Trace := List TraceItem

/-- Whether terminal colors are used. -/
structure Style where
  color : Bool
deriving DecidableEq

namespace Style

def plain : Style := ⟨false⟩

/-- A text in the given graphic rendition, which is reset after it. -/
def paint (s : Style) (rendition text : String) : String :=
  if s.color then rendition ++ text ++ "\x1b[0m" else text

def position (s : Style) (text : String) : String := s.paint "\x1b[2m" text

def code (s : Style) (text : String) : String := s.paint "\x1b[1m\x1b[31m" text

end Style

/-- As many copies of a text as given, one after the other. -/
def replicateText (n : Nat) (s : String) : String := String.join (List.replicate n s)

mutual
def TraceItem.size : TraceItem → Nat
  | ⟨_, _, children⟩ => 1 + traceSize children

def traceSize : List TraceItem → Nat
  | [] => 0
  | i :: is => i.size + traceSize is
end

mutual
/-- The lines of a trace item that stands `depth` levels deep. -/
def TraceItem.render (style : Style) (depth : Nat) : TraceItem → String
  | ⟨token, message, children⟩ =>
    replicateText (depth + 1) "  " ++ "- " ++ style.position token.position ++ ": " ++
      message ++ "\n"
      ++ renderTrace style (depth + 1) children

/-- The lines of a trace whose items stand `depth` levels deep. -/
def renderTrace (style : Style) (depth : Nat) : List TraceItem → String
  | [] => ""
  | i :: is => i.render style depth ++ renderTrace style depth is
end

namespace Trace

def size (t : Trace) : Nat := traceSize t

def render (style : Style) (t : Trace) : String := renderTrace style 0 t

def text (t : Trace) : String := t.render .plain

end Trace

end RegionCapture
