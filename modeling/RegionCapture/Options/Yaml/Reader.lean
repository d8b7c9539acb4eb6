import RegionCapture.Options.Yaml.Node
import RegionCapture.Options.Yaml.Scalar

/-!
# Reading YAML

The nodes of a text become a document of options, led by what the keys of options ask for; what no
key asks for is not looked at. A mapping has no key twice. The key `<<` takes in the entries of
other mappings, as far as the mapping has no entry for their keys itself.

A part that cannot be read is refused, and reading goes on with the next one. A scalar that
contradicts its tag, a reference inside the node that it refers to, and too many references stop it
at once. So does a key that would have to be compared with others and cannot be, because it is no
scalar.
-/

namespace RegionCapture.Yaml

/-! ## Keys -/

def distinct {α : Type} [BEq α] : List α → Bool
  | [] => true
  | a :: as => !as.contains a && distinct as

theorem distinct_iff_nodup {α : Type} [BEq α] [LawfulBEq α] (l : List α) :
    distinct l = true ↔ l.Nodup := by
  induction l with
  | nil => simp [distinct]
  | cons a as ih => simp [distinct, ih]

/-- The kinds of nodes. -/
inductive NodeKind where
  | scalar | list | map | alias
deriving DecidableEq

/-- What tells two keys of a mapping apart: their kinds and how they are written. -/
def Node.keyText : Node → NodeKind × String
  | .scalar _ _ text => (.scalar, text)
  | .list _ => (.list, "")
  | .map _ => (.map, "")
  | .alias name _ _ => (.alias, name)

/-- The spelling of a key by which a mapping takes in other mappings. -/
def mergeWord : String := "<<"

def mergeTag : String := "!!merge"

/-- Whether a key takes in other mappings. -/
def Node.isMerge : Node → Bool
  | .scalar tag plain text => text = mergeWord && (tag = some mergeTag || (tag = none && plain))
  | _ => false

/-- What a node is without regard to what it refers to: a value that can be compared, or one that
cannot. -/
inductive Datum where
  | scalar (v : Value)
  | collection

/-! ## Progress -/

/-- How far reading has come. -/
structure Progress where
  /-- how many nodes have been read -/
  read : Nat := 0
  /-- how many of them inside references -/
  referred : Nat := 0
  /-- the references that are followed -/
  followed : List Nat := []
  /-- whether a part has been refused -/
  refused : Bool := false
  /-- while mappings are taken in, the keys that are no longer wanted -/
  taken : Option (List Value) := none

namespace Progress

/-- What the share of nodes that are read inside references is measured in. -/
def shareUnit : Nat := 360000000

/-- The largest share of nodes that may be read inside references: from 99 of 100 in a small
document down to 10 of 100 in a large one. -/
def allowedShare (read : Nat) : Nat :=
  if read ≤ 400000 then 356400000
  else if 4000000 ≤ read then 36000000
  else 356400000 - 89 * (read - 400000)

/-- Whether too many nodes have been read inside references. A few do no harm. -/
def isExcessive (p : Progress) : Bool :=
  100 < p.referred && 1000 < p.read && allowedShare p.read * p.read < shareUnit * p.referred

def count (p : Progress) : Progress :=
  { p with
    read := p.read + 1, referred := if p.followed.isEmpty then p.referred else p.referred + 1 }

end Progress

abbrev Decode := StateT Progress (Except DocumentError)

namespace Decode

def stop {α : Type} : Decode α := throw .malformed

def noteRefusal : Decode Unit := modify fun p => { p with refused := true }

def refuse {α : Type} : Decode (Option α) := do
  noteRefusal
  return none

/-- Counts a node, of which there may be too many. -/
def step : Decode Unit := do
  let p := (← get).count
  if p.isExcessive then stop else set p

/-- The value of a scalar; one that contradicts its tag stops the reading. -/
def scalarValue (tag : Option String) (plain : Bool) (text : String) : Decode Value :=
  match value? tag plain text with
  | some v => return v
  | none => stop

/-- Sets the keys that are no longer wanted. -/
def setTaken (taken : Option (List Value)) : Decode Unit := modify fun p => { p with taken }

end Decode

/-- What mappings are read into. -/
inductive Target where
  /-- settings -/
  | settings (fields : List (String × Shape))
  /-- entries of any kind; their keys may have to be texts -/
  | entries (textKeys : Bool)

namespace Composition

open Decode (noteRefusal refuse scalarValue setTaken step stop)

/-- The node with an anchor. -/
def anchoredNode (c : Composition) (target : Nat) : Decode Node :=
  match c.anchored.lookup target with
  | some n => return n
  | none => stop

/-- Reads the node that a reference leads to, unless the reference is being followed already. -/
def following {α : Type} (c : Composition) (number target : Nat)
    (read : Node → Decode α) : Decode α := do
  let followed := (← get).followed
  if followed.contains number then stop
  else
    modify fun p => { p with followed := number :: followed }
    let a ← read (← c.anchoredNode target)
    modify fun p => { p with followed }
    return a

/-- Whether a key is written as a text, or takes in other mappings. -/
def isTextKey (c : Composition) : Node → Bool
  | .scalar tag plain text =>
    match tag with
    | some tag => tag = textTag || tag = mergeTag
    | none => !plain || (Value.ofPlain text = .text (text : RawText))
  | .alias _ _ target =>
    match c.anchored.lookup target with
    | some (.scalar (some tag) _ _) => tag = textTag || tag = mergeTag
    | some (.scalar none plain text) => !plain || (Value.ofPlain text = .text (text : RawText))
    | _ => false
  | _ => false

/-- Whether a node is a mapping, or refers to one. -/
def isMapping (c : Composition) : Node → Bool
  | .map _ => true
  | .alias _ _ target => match c.anchored.lookup target with
    | some (.map _) => true
    | _ => false
  | _ => false

/-- What a key says: a null says nothing, and lists and mappings are no texts. -/
def keyName (c : Composition) : (fuel : Nat) → Node → Decode (Option RawText)
  | 0, _ => stop
  | fuel + 1, n => do
    step
    match n with
    | .alias _ number target => c.following number target (c.keyName fuel)
    | .scalar tag plain text => return (← scalarValue tag plain text).scalar text |>.text
    | _ => refuse

mutual

/-- Reads a node as a setting, or as a table of settings. A null leaves the settings as they are. -/
def document (c : Composition) : (fuel : Nat) → Shape → Node → Decode (Option Document)
  | 0, _, _ => stop
  | fuel + 1, shape, n => do
    step
    match n, shape with
    | .alias _ number target, shape => c.following number target (c.document fuel shape)
    | .scalar tag plain text, shape =>
      let s := (← scalarValue tag plain text).scalar text
      if s.blank then return none
      else if s.fits shape then return some (.scalar s)
      else refuse
    | .map es, .table fields =>
      if distinct (es.map fun e => e.1.keyText)
        then return some (.table (← c.settings fuel fields es)) else refuse
    | _, _ => refuse

/-- The settings in a mapping, and those in the mappings that it takes in. No setting is given
twice. -/
def settings (c : Composition) : (fuel : Nat) → List (String × Shape) → List (Node × Node) →
    Decode (List (String × Document))
  | 0, _, _ => stop
  | fuel + 1, fields, es => do
    let outer := (← get).taken
    setTaken none
    let (found, taken) ← es.foldlM (fun (found, taken) (k, v) => do
      if k.isMerge then return (found, taken)
      else
        match ← c.keyName fuel k with
        | none => return (found, taken)
        | some name =>
          if taken.any fun ks => ks.any (Value.equals (.text name)) then return (found, taken)
          else
            let taken := taken.map (Value.text name :: ·)
            match fields.find? fun f => name = (f.1 : RawText) with
            | none => return (found, taken)
            | some (key, shape) =>
              if (found.lookup key).isSome then
                noteRefusal
                return (found, taken)
              else return (found ++ [(key, ← c.document fuel shape v)], taken))
      (([] : List (String × Option Document)), outer)
    setTaken taken
    let own := found.filterMap fun (key, d) => d.map (key, ·)
    match es.find? fun e => e.1.isMerge with
    | none => return own
    | some (_, m) => return own ++ (← c.merge fuel (.settings fields) es m)

/-- Reads a node of any kind, for the sake of its rules. -/
def datum (c : Composition) : (fuel : Nat) → Node → Decode (Option Datum)
  | 0, _ => stop
  | fuel + 1, n => do
    step
    match n with
    | .alias _ number target => c.following number target (c.datum fuel)
    | .scalar tag plain text => return some (.scalar (← scalarValue tag plain text))
    | .list items =>
      items.forM fun n => discard (c.datum fuel n)
      return some .collection
    | .map es =>
      if distinct (es.map fun e => e.1.keyText) then
        c.entries fuel (es.all fun e => c.isTextKey e.1) es
        return some .collection
      else refuse

/-- The key of an entry. -/
def entryKey (c : Composition) : (fuel : Nat) → (textKeys : Bool) → Node → Decode (Option Datum)
  | 0, _, _ => stop
  | fuel + 1, textKeys, n =>
    if textKeys then do return (← c.keyName fuel n).map fun name => .scalar (.text name)
    else c.datum fuel n

/-- Reads the entries of a mapping, for the sake of their rules, and those of the mappings that it
takes in. -/
def entries (c : Composition) : (fuel : Nat) → (textKeys : Bool) → List (Node × Node) → Decode Unit
  | 0, _, _ => stop
  | fuel + 1, textKeys, es => do
    let outer := (← get).taken
    setTaken none
    let taken ← es.foldlM (fun taken (k, v) => do
      if k.isMerge then return taken
      else
        match ← c.entryKey fuel textKeys k, taken with
        | none, _ => return taken
        | some .collection, some _ => throw .incomparableKey
        | some .collection, none => stop
        | some (.scalar _), none =>
          discard (c.datum fuel v)
          return none
        | some (.scalar key), some ks =>
          if ks.any (Value.equals key) then return taken
          else
            discard (c.datum fuel v)
            return some (key :: ks)) outer
    setTaken taken
    match es.find? fun e => e.1.isMerge with
    | none => return ()
    | some (_, m) => discard (c.merge fuel (.entries textKeys) es m)

/-- Takes mappings into another one. The keys of the outermost one are told apart from all
others. -/
def merge (c : Composition) : (fuel : Nat) → Target → List (Node × Node) → Node →
    Decode (List (String × Document))
  | 0, _, _, _ => stop
  | fuel + 1, target, es, m => do
    let outer := (← get).taken
    if outer.isNone then
      setTaken (some [])
      es.forM fun (k, _) => do
        match ← c.datum fuel k with
        | none => return ()
        | some (.scalar v) => modify fun p => { p with taken := p.taken.map (v :: ·) }
        | some .collection => throw .incomparableKey
    let more ← match m with
      | .list ms => ms.foldlM (fun more m => return more ++ (← c.mergeOne fuel target m)) []
      | m => c.mergeOne fuel target m
    if outer.isNone then setTaken none
    return more

/-- Takes one mapping into another one. -/
def mergeOne (c : Composition) : (fuel : Nat) → Target → Node → Decode (List (String × Document))
  | 0, _, _ => stop
  | fuel + 1, target, m => do
    if !c.isMapping m then stop
    else
      match target with
      | .settings fields =>
        match ← c.document fuel (.table fields) m with
        | some (.table more) => return more
        | _ => return []
      | .entries textKeys =>
        c.mergeEntries fuel textKeys m
        return []

/-- Reads the entries of one mapping that another one takes in. -/
def mergeEntries (c : Composition) : (fuel : Nat) → (textKeys : Bool) → Node → Decode Unit
  | 0, _, _ => stop
  | fuel + 1, textKeys, n => do
    step
    match n with
    | .alias _ number target => c.following number target (c.mergeEntries fuel textKeys)
    | .map es =>
      if distinct (es.map fun e => e.1.keyText) then c.entries fuel textKeys es
      else noteRefusal
    | _ => stop

end

end Composition

/-- Reads a text as a document. Every step goes deeper into a node or follows one more reference, of
which there are no more than characters. -/
def read (src : String) : Except DocumentError Document := do
  match compose? src with
  | none => throw .malformed
  | some c =>
    let n := src.length + 3
    let decode : Decode (Option Document) := do
      Decode.step
      c.document (8 * n * n) Options.shape c.root
    let (d, p) ← decode.run {}
    if p.refused then throw .malformed else return d.getD .blank

end RegionCapture.Yaml
