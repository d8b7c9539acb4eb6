import RegionCapture.Options.Toml.Scalar
import RegionCapture.Options.Toml.Table

/-!
# Reading TOML

A text is a sequence of headers and settings. A header opens a table, and a setting gives a key of
the open table a value. A table inside a line is built in its place like any other, and once more by
itself.
-/

namespace RegionCapture.Toml

/-! ## Values -/

mutual

/-- A value for the key at a path, and what follows it. The items of an array are for the key of the
array. -/
def value : (fuel : Nat) → KeyPath → (inArray : Bool) → Reading → List Char →
    Option (Item × Reading × List Char)
  | 0, _, _, _, _ => none
  | _, _, _, _, [] => none
  | fuel + 1, path, inArray, r, c :: rest =>
    if c = '"' ∨ c = '\'' then
      (string c true rest).map fun (s, rest) => (.scalar { text := some s }, r, rest)
    else if c = '[' then
      (arrayItems fuel path (r.note true path) (skipLines fuel rest)).map fun (r, rest) =>
        (.array, r, rest)
    else if c = '{' then do
      let r := r.imply path
      let r ← if inArray then r.openItem path else r.openTable path
      let (t, r, rest) ← inlineEntries fuel path [] r (skipLines fuel rest)
      return (.table t, r, rest)
    else
      let (w, rest) := takeWord (c :: rest)
      (word? w).map fun s => (.scalar s, r, rest)

/-- The items of an array up to its closing bracket. -/
def arrayItems : (fuel : Nat) → KeyPath → Reading → List Char → Option (Reading × List Char)
  | 0, _, _, _ => none
  | _, _, _, [] => none
  | fuel + 1, path, r, c :: rest =>
    if c = ']' then some (r, rest)
    else do
      let (_, r, rest) ← value fuel path true r (c :: rest)
      match skipLines fuel rest with
      | ',' :: rest => arrayItems fuel path r (skipLines fuel rest)
      | ']' :: rest => return (r, rest)
      | _ => none

/-- The entries of a table inside a line up to its closing brace; those before are given. -/
def inlineEntries :
    (fuel : Nat) → KeyPath → Table → Reading → List Char → Option (Table × Reading × List Char)
  | 0, _, _, _, _ => none
  | _, _, _, _, [] => none
  | fuel + 1, path, t, r, c :: rest =>
    if c = '}' then some (t, r, rest)
    else do
      let (parts, v, r, rest) ← setting fuel path r (c :: rest)
      let t ← t.putBelow v parts
      match skipLines fuel rest with
      | ',' :: rest => inlineEntries fuel path t r (skipLines fuel rest)
      | '}' :: rest => return (t, r, rest)
      | _ => none

/-- A key of the table at a path and its value, and what follows them. -/
def setting : (fuel : Nat) → (here : KeyPath) → Reading → List Char →
    Option (KeyPath × Item × Reading × List Char)
  | 0, _, _, _ => none
  | fuel + 1, here, r, cs => do
    match ← keyPath fuel cs with
    | (parts, '=' :: rest) =>
      let r ← r.openParts here parts.dropLast
      let path := here ++ parts
      let (v, r, rest) ← value fuel path false r (skip rest)
      let r ← r.put path v
      return (parts, v, r.note (v matches .array) path, rest)
    | _ => none

end

/-! ## Lines -/

/-- One header or setting, and what follows its line. With what is read goes the path of the open
table. -/
def line? (here : KeyPath) (r : Reading) (cs : List Char) :
    Option (KeyPath × Reading × List Char) := do
  let fuel := 2 * cs.length + 2
  match cs with
  | '[' :: '[' :: rest =>
    match ← keyPath fuel rest with
    | (path, ']' :: ']' :: rest) =>
      return (path, (← r.openItem path).noteAt false path, ← endLine? rest)
    | _ => none
  | '[' :: rest =>
    match ← keyPath fuel rest with
    | (path, ']' :: rest) => return (path, (← r.openTable path).noteAt false path, ← endLine? rest)
    | _ => none
  | cs =>
    let (_, _, r, rest) ← setting fuel here r cs
    return (here, r, ← endLine? rest)

/-- All headers and settings. -/
def lines : (fuel : Nat) → (here : KeyPath) → Reading → List Char → Option Reading
  | 0, _, _, _ => none
  | fuel + 1, here, r, cs =>
    match skipLines (fuel + 1) cs with
    | [] => some r
    | cs => do
      let (here, r, rest) ← line? here r cs
      lines fuel here r rest

/-- Reads a text as a document. -/
def read (src : String) : Except DocumentError Document :=
  let cs := Text.dropMark src.toList
  match if hasLoneReturn cs then none else lines (cs.length + 2) [] {} cs with
  | some r => .ok (.table (entriesDocument r.root))
  | none => .error .malformed

end RegionCapture.Toml
