import RegionCapture.Options.Document

/-!
# Tables of TOML

A text builds tables below one root. A table may exist only since something was put below it; such
an implied table may still be opened or given once, and then it counts as given. A key that holds an
array may be given anew only while it is implied, and any other key is given once. Paths lead
through tables, and of several tables under one key through the last. What is known of a path holds
for all tables that it leads through.
-/

namespace RegionCapture.Toml

/-- What a key of a table holds. -/
inductive Item where
  | scalar (s : Scalar)
  | array
  | table (entries : List (String × Item))
  /-- tables that were appended one by one -/
  | tables (items : List (List (String × Item)))

/-- The entries of a table, in the order in which they were given. -/
abbrev Table := List (String × Item)

abbrev KeyPath := List String

/-! ## Entries -/

/-- Puts an item in place of the one that a key holds. -/
def Table.replace (t : Table) (k : String) (v : Item) : Table :=
  t.map fun e => if e.1 = k then (k, v) else e

/-- What stands at a path. -/
def Table.find? (t : Table) : KeyPath → Option Item
  | [] => some (.table t)
  | [k] => t.lookup k
  | k :: ks =>
    match t.lookup k with
    | some (.table t) => Table.find? t ks
    | some (.tables ts) => (ts.getLast?).bind fun t => Table.find? t ks
    | _ => none

/-- Changes the table at a path, which has to be there. -/
def Table.edit (f : Table → Option Table) (t : Table) : KeyPath → Option Table
  | [] => f t
  | k :: ks =>
    match t.lookup k with
    | some (.table u) => (Table.edit f u ks).map fun u => t.replace k (.table u)
    | some (.tables us) => do
      let u ← Table.edit f (← us.getLast?) ks
      return t.replace k (.tables (us.dropLast ++ [u]))
    | _ => none

/-- Puts an item below tables, which are made if they are missing. -/
def Table.putBelow (v : Item) (t : Table) : KeyPath → Option Table
  | [] => some t
  | [k] => some (if (t.lookup k).isSome then t.replace k v else t ++ [(k, v)])
  | k :: ks =>
    match t.lookup k with
    | none => (Table.putBelow v [] ks).map fun u => t ++ [(k, .table u)]
    | some (.table u) => (Table.putBelow v u ks).map fun u => t.replace k (.table u)
    | some _ => none

/-- Appends a table to those under a key. -/
def Table.append (k : String) (t : Table) : Option Table :=
  match t.lookup k with
  | none => some (t ++ [(k, .tables [[]])])
  | some (.tables us) => some (t.replace k (.tables (us ++ [[]])))
  | some _ => none

/-! ## What has been read -/

/-- What is read so far. -/
structure Reading where
  root : Table := []
  /-- the tables that exist only since something was put below them -/
  implied : List KeyPath := []
  /-- the keys that were last given an array -/
  arrays : List KeyPath := []

namespace Reading

/-- Takes a table for an implied one. -/
def imply (r : Reading) (path : KeyPath) : Reading := { r with implied := path :: r.implied }

/-- The path under which it is noted whether a key holds an array: an empty key counts for the table
around it. -/
def notedPath (path : KeyPath) : KeyPath :=
  if path.getLast? = some "" && path.length ≠ 1 then path.dropLast else path

/-- Notes whether a path holds an array. -/
def noteAt (r : Reading) (isArray : Bool) (path : KeyPath) : Reading :=
  let others := r.arrays.filter (· ≠ path)
  { r with arrays := if isArray then path :: others else others }

def note (r : Reading) (isArray : Bool) (path : KeyPath) : Reading :=
  r.noteAt isArray (notedPath path)

/-- No longer takes a table for an implied one. -/
def settle (r : Reading) (path : KeyPath) : Reading :=
  { r with implied := r.implied.filter (· ≠ path) }

/-- Gives a key a value. An implied table stays as it is, and an implied array gives way. -/
def put (r : Reading) (path : KeyPath) (v : Item) : Option Reading := do
  let k ← path.getLast?
  let _ ← r.root.edit some path.dropLast
  let store (f : Table → Table) : Option Reading :=
    (r.root.edit (fun t => some (f t)) path.dropLast).map fun root => { r with root }
  if (r.root.find? path).isNone then store fun t => t ++ [(k, v)]
  else if !r.implied.contains path then none
  else if r.arrays.contains path then (store fun t => t.replace k v).map (·.settle path)
  else return r.settle path

/-- Makes the tables on a path that are missing, as implied ones. -/
def reach (r : Reading) (path : KeyPath) : Option Reading :=
  (List.range path.length).foldlM (fun r n =>
    let path := path.take (n + 1)
    match r.root.find? path with
    | some (.table _) | some (.tables _) => some r
    | some _ => none
    | none => (r.put path (.table [])).map (·.imply path)) r

def openTable (r : Reading) (path : KeyPath) : Option Reading := do
  (← r.reach path.dropLast).put path (.table [])

/-- Appends a table to those at a path and opens it. -/
def openItem (r : Reading) (path : KeyPath) : Option Reading := do
  let r ← r.reach path.dropLast
  return { r with root := ← r.root.edit (Table.append (← path.getLast?)) path.dropLast }

/-- Opens the tables that a key of several parts leads through, from the table at a path on. -/
def openParts (r : Reading) (here : KeyPath) (parts : List String) : Option Reading :=
  (List.range parts.length).foldlM (fun r n =>
    let path := here ++ parts.take (n + 1)
    (r.imply path).openTable path) r

end Reading

/-! ## Documents -/

mutual

/-- What a key holds, as a part of a document. -/
def Item.document : Item → Document
  | .scalar s => .scalar s
  | .table es => .table (entriesDocument es)
  | .array => .list []
  | .tables _ => .list []

def entriesDocument : List (String × Item) → List (String × Document)
  | [] => []
  | (k, v) :: es => (k, v.document) :: entriesDocument es

end

end RegionCapture.Toml
