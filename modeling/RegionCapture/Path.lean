import RegionCapture.Text.Raw

/-!
# Paths

Paths of files are texts whose elements are divided by slashes. A clean path has no empty element,
no `.`, and `..` at most at its start; cleaning says nothing about which files exist.
-/

namespace RegionCapture.Path

abbrev Part := RawText

def slash : Glyph := '/'

def dot : Glyph := '.'

def up : Part := [dot, dot]

def isAbsolute (p : RawText) : Bool := p.head? = some slash

/-- Puts an element on a stack whose top is the innermost element: `..` takes the element below it
away, and nothing lies above the root. -/
def push (rooted : Bool) (stack : List Part) (part : Part) : List Part :=
  if part = [] ∨ part = [dot] then stack
  else if part = up then
    match stack with
    | [] => if rooted then [] else [up]
    | top :: rest => if top = up then up :: top :: rest else rest
  else part :: stack

/-- The elements of a clean path, the innermost first. -/
def stack (p : RawText) : List Part := (p.splitOn slash).foldl (push (isAbsolute p)) []

/-- The clean path with the given elements, the innermost first. -/
def ofStack (rooted : Bool) (parts : List Part) : RawText :=
  let body := [slash].intercalate parts.reverse
  if rooted then slash :: body else if body.isEmpty then [dot] else body

/-- The shortest path with the same meaning. -/
def clean (p : RawText) : RawText := ofStack (isAbsolute p) (stack p)

/-- A path below another one, clean. -/
def join (dir p : RawText) : RawText :=
  if dir = [] then (if p = [] then [] else clean p) else clean (dir ++ slash :: p)

def upToSlash (p : RawText) : RawText := (p.reverse.dropWhile (· ≠ slash)).reverse

def directory (p : RawText) : RawText := clean (upToSlash p)

/-- The last element of a path from its last dot on; empty if it has no dot. -/
def extension (p : RawText) : RawText :=
  let name := (p.reverse.takeWhile (· ≠ slash)).reverse
  if name.contains dot then dot :: (name.reverse.takeWhile (· ≠ dot)).reverse else []

/-- The absolute path of a path that is meant from a working directory. -/
def absolute (cwd p : RawText) : RawText := if isAbsolute p then clean p else join cwd p

/-- The directories named by a stack of elements and by what lies around it, up to the root. -/
def upward : List Part → List RawText
  | [] => [ofStack true []]
  | top :: rest => ofStack true (top :: rest) :: upward rest

/-- An absolute path and all directories around it, the innermost first. -/
def ancestors (p : RawText) : List RawText := upward (stack p)

end RegionCapture.Path
