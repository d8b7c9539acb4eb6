import RegionCapture.Options.Yaml.Token.Lexer

/-!
# Nodes of YAML

A document is a tree of nodes: scalars, lists and mappings, written in block or in flow style. A
node may have a tag, and an anchor by which other places refer to it; so a node may even refer to
one that it lies in. Nodes are built from tokens by recursive descent. Only the first document of a
text is read.
-/

namespace RegionCapture.Yaml

/-- A node of a document. -/
inductive Node where
  /-- a scalar, whether it is written without quotes, and its tag -/
  | scalar (tag : Option String) (plain : Bool) (text : String)
  | list (items : List Node)
  | map (entries : List (Node × Node))
  /-- a reference to the anchored node with a number; each reference has a number of its own -/
  | alias (name : String) (number target : Nat)
deriving Inhabited

/-- The scalar that stands where nothing is written. -/
def Node.empty : Node := .scalar none true ""

/-- What is known while a document is read. -/
structure Reading where
  lexer : Lexer
  /-- what the handles of tags stand for -/
  handles : List (String × String) := []
  /-- the numbers of anchors by name, the latest first -/
  anchors : List (String × Nat) := []
  /-- the anchored nodes that are complete, by their numbers -/
  anchored : List (Nat × Node) := []
  /-- how many anchors and references there were -/
  count : Nat := 0

abbrev Read (α : Type) := StateT Reading Option α

namespace Read

/-- The next token, which stays where it is. -/
def peek : Read Token := fun r => do
  let (t, lexer) ← r.lexer.peek
  return (t, { r with lexer })

def take : Read Unit := modify fun r => { r with lexer := r.lexer.take }

/-- Takes the next token if it is the given one, and tells so. -/
def takeIf (t : Token) : Read Bool := do
  if (← peek) = t then
    take
    return true
  else return false

def expect (t : Token) : Read Unit := do
  if !(← takeIf t) then failure

/-- A number that no anchor or reference has. -/
def fresh : Read Nat := fun r => some (r.count, { r with count := r.count + 1 })

/-! ## Tags and anchors -/

/-- The tags that all documents know by a short name. -/
def commonStem : String := "tag:yaml.org,2002:"

/-- A tag with the stem of the common tags made short; a lone exclamation mark says nothing. -/
def shortTag (tag : String) : Option String :=
  if tag = "!" then none
  else if commonStem.toList.isPrefixOf tag.toList then
    some ("!!" ++ String.ofList (tag.toList.drop commonStem.length))
  else some tag

/-- The tag that a handle and a suffix stand for. -/
def resolveTag (handle suffix : String) : Read (Option String) := do
  if handle = "" then return shortTag suffix
  else match (← get).handles.lookup handle with
    | some stem => return shortTag (stem ++ suffix)
    | none => failure

/-- What is written before a node. -/
structure Properties where
  anchor : Option String := none
  /-- the tag, if one is written; it may say nothing -/
  tag : Option (Option String) := none

/-- The tag before a node, if there is one. -/
def tagBefore : Read (Option (Option String)) := do
  match ← peek with
  | .tag handle suffix =>
    take
    let tag ← resolveTag handle suffix
    return some tag
  | _ => return none

/-- The anchor before a node, if there is one. -/
def anchorBefore : Read (Option String) := do
  match ← peek with
  | .anchor name =>
    take
    return some name
  | _ => return none

/-- The anchor and the tag before a node, in either order. -/
def properties : Read Properties := do
  match ← anchorBefore with
  | some name => return { anchor := some name, tag := ← tagBefore }
  | none =>
    match ← tagBefore with
    | some tag => return { anchor := ← anchorBefore, tag := some tag }
    | none => return {}

/-- Builds a node that has an anchor, which is known inside the node already. -/
def withAnchor (name : Option String) (build : Read Node) : Read Node := do
  match name with
  | none => build
  | some name =>
    let n ← fresh
    modify fun r => { r with anchors := (name, n) :: r.anchors }
    let node ← build
    modify fun r => { r with anchored := (n, node) :: r.anchored }
    return node

/-- A reference to a node, whose anchor has to stand before. -/
def reference (name : String) : Read Node := do
  match (← get).anchors.lookup name with
  | some target => return .alias name (← fresh) target
  | none => failure

/-! ## Nodes -/

/-- Where a node stands: in block style collections may be written in either style, and after the
mark of a key or a value a list need not be indented. -/
inductive Place where
  | flow | block | afterMark
deriving DecidableEq

/-- The node to build, or the empty one if the next token is among the given ones. -/
def orEmpty (ends : List Token) (build : Read Node) : Read Node := do
  if ends.contains (← peek) then return .empty else build

mutual

/-- A node. -/
def node : (fuel : Nat) → Place → Read Node
  | 0, _ => failure
  | fuel + 1, place => do
    match ← peek with
    | .alias name =>
      take
      reference name
    | _ =>
      let props ← properties
      let tag := props.tag.getD none
      withAnchor props.anchor do
        match ← peek, place with
        | .item, .afterMark => return .list (← looseItems fuel)
        | .scalar plain text, _ =>
          take
          return .scalar tag plain text
        | .listStart, _ =>
          take
          return .list (← flowItems fuel true)
        | .mapStart, _ =>
          take
          return .map (← flowEntries fuel true)
        | t, place =>
          if t = .blockListStart && place ≠ .flow then
            take
            return .list (← blockItems fuel)
          else if t = .blockMapStart && place ≠ .flow then
            take
            return .map (← blockEntries fuel)
          else if props.anchor.isSome || props.tag.isSome then return .scalar tag true ""
          else failure

/-- The items of a list in block style, up to its end. -/
def blockItems : (fuel : Nat) → Read (List Node)
  | 0 => failure
  | fuel + 1 => do
    if ← takeIf .item then
      let x ← orEmpty [.item, .blockEnd] (node fuel .block)
      return x :: (← blockItems fuel)
    else
      expect .blockEnd
      return []

/-- The items of a list that is not indented below its key. -/
def looseItems : (fuel : Nat) → Read (List Node)
  | 0 => failure
  | fuel + 1 => do
    if ← takeIf .item then
      let x ← orEmpty [.item, .key, .value, .blockEnd] (node fuel .block)
      return x :: (← looseItems fuel)
    else return []

/-- The entries of a mapping in block style, up to its end. -/
def blockEntries : (fuel : Nat) → Read (List (Node × Node))
  | 0 => failure
  | fuel + 1 => do
    if ← takeIf .key then
      let k ← orEmpty [.key, .value, .blockEnd] (node fuel .afterMark)
      let v ← if ← takeIf .value then orEmpty [.key, .value, .blockEnd] (node fuel .afterMark)
          else pure .empty
      return (k, v) :: (← blockEntries fuel)
    else
      expect .blockEnd
      return []

/-- The items of a list in flow style, up to its end; an item may be a single entry. -/
def flowItems : (fuel : Nat) → (first : Bool) → Read (List Node)
  | 0, _ => failure
  | fuel + 1, first => do
    if ← takeIf .listEnd then return []
    else
      if !first then expect .comma
      if ← takeIf .listEnd then return []
      else
        let x ← if ← takeIf .key then (do return .map [← flowPair fuel]) else node fuel .flow
        return x :: (← flowItems fuel false)

/-- The entry that an item of a list is. Where its key is missing, the token in its place is passed
over. -/
def flowPair : (fuel : Nat) → Read (Node × Node)
  | 0 => failure
  | fuel + 1 => do
    let k ←
      if [Token.value, .comma, .listEnd].contains (← peek) then
        take
        pure .empty
      else node fuel .flow
    let v ← if ← takeIf .value then orEmpty [.comma, .listEnd] (node fuel .flow) else pure .empty
    return (k, v)

/-- The entries of a mapping in flow style, up to its end. Without a mark an entry has no value. -/
def flowEntries : (fuel : Nat) → (first : Bool) → Read (List (Node × Node))
  | 0, _ => failure
  | fuel + 1, first => do
    if ← takeIf .mapEnd then return []
    else
      if !first then expect .comma
      if ← takeIf .mapEnd then return []
      else
        let e ←
          if ← takeIf .key then
            let k ← orEmpty [.value, .comma, .mapEnd] (node fuel .flow)
            let v ← if ← takeIf .value then orEmpty [.comma, .mapEnd] (node fuel .flow)
                else pure .empty
            pure (k, v)
          else (do return (← node fuel .flow, .empty))
        return e :: (← flowEntries fuel false)

end

/-! ## Documents -/

/-- Adds what a handle stands for; no handle is given twice. -/
def addHandle (handle stem : String) : Read Unit := do
  if ((← get).handles.lookup handle).isSome then failure
  else modify fun r => { r with handles := (handle, stem) :: r.handles }

/-- The directives before a document. There is one version at most, and only one is known. -/
def directives : (fuel : Nat) → (versioned : Bool) → Read Unit
  | 0, _ => failure
  | fuel + 1, versioned => do
    match ← peek with
    | .version major minor =>
      if versioned || (major, minor) ≠ (1, 1) then failure
      else
        take
        directives fuel true
    | .handle handle stem =>
      take
      addHandle handle stem
      directives fuel versioned
    | _ => modify fun r => { r with handles := r.handles ++ [("!", "!"), ("!!", commonStem)] }

/-- Whether a token starts a directive. -/
def isDirective : Token → Bool
  | .version .. => true
  | .handle .. => true
  | _ => false

/-- The first document of a text, if the text has one. What follows it is looked at no further than
to its end. -/
def document (fuel : Nat) : Read (Option Node) := do
  let t ← peek
  if t = .textEnd then return none
  else
    directives fuel false
    let root ←
      if isDirective t || t = .documentStart then
        expect .documentStart
        let t ← peek
        if isDirective t || [Token.documentStart, .documentEnd, .textEnd].contains t
          then pure .empty
        else node fuel .block
      else node fuel .block
    discard peek
    return some root

end Read

/-- A document: its root and the anchored nodes by their numbers. -/
structure Composition where
  root : Node
  anchored : List (Nat × Node)

def isAllowed (c : Char) : Bool :=
  let n := c.toNat
  n = 0x09 || n = 0x0a || n = 0x0d || (0x20 ≤ n && n ≤ 0x7e) || n = 0x85 ||
    (0xa0 ≤ n && n ≤ 0xfffd) || 0x10000 ≤ n

/-- How many bytes of a text are read at a time. -/
def portion : Nat := 512

/-- The characters that have been read, in whole portions, where the first `n` ones are needed. No
character is read in parts: one for which a portion has no room starts the next. -/
def readFor : (room n : Nat) → List Char → List Char
  | _, _, [] => []
  | room, n, c :: cs =>
    if c.utf8Size ≤ room then c :: readFor (room - c.utf8Size) (n - 1) cs
    else if n = 0 then []
    else c :: readFor (portion - c.utf8Size) (n - 1) cs

/-- The first document of a text; a text without one is an empty document. What has been read of the
text by the end of the document holds allowed characters only. Every token takes a character or ends
something that another one started, so the fuel is enough. -/
def compose? (src : String) : Option Composition := do
  let cs := Text.dropMark src.toList
  let (root, r) ← (Read.document (10 * cs.length + 100)).run { lexer := .ofText cs }
  let mark := src.utf8ByteSize - (String.ofList cs).utf8ByteSize
  if (readFor (portion - mark) (r.lexer.here.index + 1) cs).all isAllowed then
    return { root := root.getD .empty, anchored := r.anchored }
  else none

end RegionCapture.Yaml
