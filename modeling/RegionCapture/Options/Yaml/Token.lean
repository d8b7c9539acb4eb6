/-!
# Tokens of YAML

The smallest parts of a YAML text that its structure is built from. Indentation makes tokens too: a
block starts where a line is indented deeper and ends where one is not.
-/

namespace RegionCapture.Yaml

/-- The smallest parts of a text. -/
inductive Token where
  /-- the end of the text -/
  | textEnd
  /-- the version of the format that a document asks for -/
  | version (major minor : Nat)
  /-- the tags that a handle stands for -/
  | handle (handle stem : String)
  /-- the mark before a document -/
  | documentStart
  /-- the mark after a document -/
  | documentEnd
  | blockListStart | blockMapStart | blockEnd
  | listStart | listEnd | mapStart | mapEnd
  /-- the mark of a list item in block style -/
  | item
  /-- the mark between entries in flow style -/
  | comma
  /-- a key follows; the mark need not be written -/
  | key
  /-- a value follows -/
  | value
  | alias (name : String)
  | anchor (name : String)
  | tag (handle suffix : String)
  | scalar (plain : Bool) (text : String)
deriving DecidableEq, Inhabited

end RegionCapture.Yaml
