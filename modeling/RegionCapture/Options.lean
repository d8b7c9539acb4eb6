import RegionCapture.Text.Raw

/-!
# Options

What a user may set: logging, explanations, rendering, scope verification and the database of
exported signatures.
-/

namespace RegionCapture

def colorModes : List String := ["auto", "always", "never"]

/-- Logging. -/
structure LogOptions where
  /-- zero logs errors only, more is chattier -/
  verbosity : Int := 0
  /-- the file that receives the log, if any -/
  file : RawText := []
deriving DecidableEq, Inhabited

/-- Explanations. -/
structure ExplainOptions where
  /-- whether escapes are explained; they are if nothing is said -/
  enabled : Option Bool := none
  /-- how deep explanations may nest; zero asks for the default -/
  maxDepth : Int := 0
deriving DecidableEq, Inhabited

/-- Rendering. -/
structure RenderOptions where
  /-- the color mode; the empty text asks for the default -/
  color : RawText := []
deriving DecidableEq, Inhabited

/-- Exported signatures. -/
structure ExportOptions where
  /-- the path of the database; the empty text turns recording off -/
  database : RawText := []
deriving DecidableEq, Inhabited

/-- All options. -/
structure Options where
  log : LogOptions := {}
  explain : ExplainOptions := {}
  render : RenderOptions := {}
  /-- whether every node's regions are verified to be bound around it -/
  verifyScopes : Bool := false
  exports : ExportOptions := {}
deriving DecidableEq, Inhabited

namespace Options

/-- Fills in what is left to the default: sixteen levels of explanation, automatic colors. -/
def withDefaults (o : Options) : Options :=
  { o with
    explain.maxDepth := if o.explain.maxDepth = 0 then 16 else o.explain.maxDepth
    render.color := if o.render.color = [] then "auto" else o.render.color }

def default : Options := withDefaults {}

def explains (o : Options) : Bool := o.explain.enabled.getD true

end Options

end RegionCapture
