import RegionCapture.Region.Table
import RegionCapture.Trace

/-!
# Diagnostics

A rejected program is reported by one diagnostic: a code, a place, a message, and possibly a trace
and an underlying cause.
-/

namespace RegionCapture

/-- The codes diagnostics are classified by. -/
inductive Code where
  /-- two sets that have to be equal differ -/
  | mismatch
  /-- a function value captures more than its type allows -/
  | notAllowed
  /-- a value leaves the scope of the definition that introduced it -/
  | definitionEscape
  /-- a capability leaves the scope of its handler -/
  | handlerEscape
  /-- an invariant of the analysis does not hold -/
  | internal
  /-- a code outside the known ones -/
  | other (text : String)
deriving DecidableEq

namespace Code

def known : List Code := [mismatch, notAllowed, definitionEscape, handlerEscape, internal]

def text : Code → String
  | mismatch => "R001"
  | notAllowed => "R002"
  | definitionEscape => "R003"
  | handlerEscape => "R004"
  | internal => "R005"
  | other s => s

def ofText (s : String) : Code := (known.find? fun c => c.text = s).getD (other s)

def description : Code → String
  | mismatch => "region mismatch"
  | notAllowed => "region not allowed here"
  | definitionEscape => "value leaves the scope of its definition"
  | handlerEscape => "capability leaves the scope of its handler"
  | internal => "internal region checker error"
  | other s => s

end Code

/-- A message with gaps: the pieces of text before, between and after them. -/
structure Template where
  pieces : List String

namespace Template

/-- Arguments for which a template has no gap. -/
def surplus (args : List String) : String :=
  if args.isEmpty then ""
  else "%!(EXTRA " ++ String.intercalate ", " (args.map fun a => "string=" ++ a) ++ ")"

/-- Puts arguments between pieces; a gap without argument and arguments without gap are marked. -/
def join : (pieces args : List String) → String
  | [], args => surplus args
  | [p], args => p ++ surplus args
  | p :: q :: ps, [] => p ++ "%!s(MISSING)" ++ join (q :: ps) []
  | p :: q :: ps, a :: args => p ++ a ++ join (q :: ps) args

def fill (t : Template) (args : List String) : String := join t.pieces args

def mismatch : Template := ⟨["Region mismatch: ", " is not equal to ", ""]⟩

def notAllowed : Template := ⟨["Region not allowed here: ", ""]⟩

def definitionEscape : Template := ⟨["A value introduced in '", "' leaves its scope"]⟩

def handlerEscape : Template := ⟨["The capability ", " leaves the scope of its handler"]⟩

def internal : Template := ⟨["internal error: ", ""]⟩

def bare : Template := ⟨["", ""]⟩

end Template

/-- What lies behind a diagnostic. -/
inductive Cause where
  | solving (e : SolveError)
  | other (message : String)

def Cause.message : Cause → String
  | solving e => e.message
  | other m => m

/-- The report of a rejected program. -/
structure Diagnostic where
  code : Code
  token : Token
  message : String
  trace : Trace := []
  cause : Option Cause := none

namespace Diagnostic

def make (code : Code) (token : Token) (template : Template) (args : List String) : Diagnostic :=
  { code, token, message := template.fill args }

def text (d : Diagnostic) : String := d.token.position ++ ": " ++ d.code.text ++ ": " ++ d.message

/-- The diagnostic for a reader: its line, then its trace. -/
def render (style : Style) (d : Diagnostic) : String :=
  style.position d.token.position ++ ": " ++ style.code d.code.text ++ ": " ++ d.message ++ "\n"
    ++ d.trace.render style

end Diagnostic

/-- Whether colors are wanted: `always` and `never` decide; any other mode colors a terminal only.
Under tests there are no colors. -/
def Style.choose (testing : Bool) (mode : String) (terminal : Bool) : Style :=
  ⟨!testing && (mode = "always" || (mode ≠ "never" && terminal))⟩

/-- Where rendered diagnostics go. -/
inductive Sink where
  /-- collects what is written -/
  | buffer (written : String)
  /-- refuses what is written, with an error text -/
  | failing (error : String)
deriving DecidableEq

/-- Writes a text, or says why it cannot be written. -/
def Sink.write : Sink → String → Except String Sink
  | buffer written, s => .ok (buffer (written ++ s))
  | failing error, _ => .error error

end RegionCapture
