import SchemaGraph.Data.ReadError

/-! # Nodes

The tree of a text as it is written, before anything is expected of it. A text that breaks off
still has a tree, open where it breaks, so that a reader reports the first fault in reading
order, be it one of notation or of content. -/

namespace SchemaGraph

structure Scalar where
  /-- The atom it stands for, or why it stands for none. -/
  value : Except ReadError Atom
  /-- The atom that a message names where something else is expected. -/
  seen : Except ReadError Atom := value
  /-- The text it is where any text will do. -/
  text : Option String := none
  /-- Nothing is written, which will do for an empty collection. -/
  blank : Bool := false
deriving Inhabited

/-- A node. A tagged collection cannot stand for a plain value. -/
inductive Node where
  | scalar (s : Scalar)
  | seq (items : List Node) (closed tagged : Bool)
  | map (entries : List (Node × Node)) (closed tagged : Bool)
  /-- Nothing can be read here. -/
  | broken
deriving Inhabited

namespace Node

/-- The error of finding this node where something else is expected. -/
def mismatch (n : Node) (expected : String) : ReadError :=
  match n with
  | .scalar s =>
    match s.seen with
    | .ok a => .invalidType (.atom a) expected
    | .error e => e
  | .seq .. => .invalidType .seq expected
  | .map .. => .invalidType .map expected
  | .broken => .broken

def text (expected : String) : Node → Except ReadError String
  | .scalar s =>
    match s.text with
    | some t => .ok t
    | none => .error ((Node.scalar s).mismatch expected)
  | n => .error (n.mismatch expected)

/-- Fails unless a collection is closed. -/
def finish {α : Type} (closed : Bool) (a : α) : Except ReadError α :=
  if closed then .ok a else .error .broken

/-- The items of a sequence, and whether it is closed; a blank scalar has none. -/
def items (expected : String) : Node → Except ReadError (List Node × Bool)
  | .seq items closed _ => .ok (items, closed)
  | .scalar s => if s.blank then .ok ([], true) else .error ((Node.scalar s).mismatch expected)
  | n => .error (n.mismatch expected)

/-- The entries of a mapping, and whether it is closed; a blank scalar has none. -/
def entries (expected : String) : Node → Except ReadError (List (Node × Node) × Bool)
  | .map entries closed _ => .ok (entries, closed)
  | .scalar s => if s.blank then .ok ([], true) else .error ((Node.scalar s).mismatch expected)
  | n => .error (n.mismatch expected)

def each {α : Type} (read : Node → Except ReadError α) (n : Node) :
    Except ReadError (List α) := do
  let (items, closed) ← n.items "a sequence"
  finish closed (← items.mapM read)

def texts (n : Node) : Except ReadError (List String) := n.each (text "a string")

/-! ## Skipping -/

mutual

/-- Nothing breaks off inside the node. -/
def isClosed : Node → Bool
  | .scalar _ => true
  | .seq items closed _ => closed && areClosed items
  | .map entries closed _ => closed && areEntriesClosed entries
  | .broken => false

def areClosed : List Node → Bool
  | [] => true
  | n :: ns => isClosed n && areClosed ns

def areEntriesClosed : List (Node × Node) → Bool
  | [] => true
  | (k, v) :: es => isClosed k && isClosed v && areEntriesClosed es

end

/-- Passes over a node, whatever it holds. -/
def skip (n : Node) : Except ReadError Unit := if n.isClosed then .ok () else .error .broken

/-! ## Values -/

mutual

/-- The value of a node in which collections nest at most `depth` deep. -/
def toValue (depth : Nat) : Node → Except ReadError Value
  | .scalar s => do
    match ← s.value with
    | .int n =>
      if Atom.fits n then .ok (.atom (.int n))
      else .error (.invalidType (.atom (.int n)) "any value")
    | a => .ok (.atom a)
  | .seq items closed tagged => do
    if tagged || depth == 0 then .error .broken
    let vs ← toValues (depth - 1) items
    finish closed (.seq vs)
  | .map entries closed tagged => do
    if tagged || depth == 0 then .error .broken
    let es ← toEntries (depth - 1) entries
    finish closed (.map es)
  | .broken => .error .broken

def toValues (depth : Nat) : List Node → Except ReadError (List Value)
  | [] => .ok []
  | n :: ns => do
    let v ← toValue depth n
    return v :: (← toValues depth ns)

def toEntries (depth : Nat) : List (Node × Node) → Except ReadError (List (Value × Value))
  | [] => .ok []
  | (k, v) :: es => do
    let k ← toValue depth k
    let v ← toValue depth v
    return (k, v) :: (← toEntries depth es)

end

mutual

/-- The JSON value of a node, if it is closed and every key is a string. Of two fields with one
name the later value takes the place of the first. -/
def toJson : Node → Option Json
  | .scalar s =>
    match s.value with
    | .ok .null => some .null
    | .ok (.bool b) => some (.bool b)
    | .ok (.int n) => some (.int n)
    | .ok (.float text) => some (.float text)
    | .ok (.str s) => some (.str s)
    | .error _ => none
  | .seq items closed _ => if closed then (toJsons items).map .arr else none
  | .map entries closed _ =>
    if closed then (toFields entries).map fun fs => .obj (Table.ofList fs) else none
  | .broken => none

def toJsons : List Node → Option (List Json)
  | [] => some []
  | n :: ns => do
    let v ← toJson n
    return v :: (← toJsons ns)

def toFields : List (Node × Node) → Option (List (String × Json))
  | [] => some []
  | (k, v) :: es => do
    let .str k ← toJson k | none
    let v ← toJson v
    return (k, v) :: (← toFields es)

end

def ofAtom (a : Atom) : Node :=
  .scalar { value := .ok a, text := match a with
    | .str s => some s
    | _ => none }

mutual

def ofJson : Json → Node
  | .null => ofAtom .null
  | .bool b => ofAtom (.bool b)
  | .int n => ofAtom (.int n)
  | .float text => ofAtom (.float text)
  | .str s => ofAtom (.str s)
  | .arr vs => .seq (ofJsons vs) true false
  | .obj fs => .map (ofFields fs) true false

def ofJsons : List Json → List Node
  | [] => []
  | v :: vs => ofJson v :: ofJsons vs

def ofFields : List (String × Json) → List (Node × Node)
  | [] => []
  | (k, v) :: fs => (ofAtom (.str k), ofJson v) :: ofFields fs

end

end Node
end SchemaGraph
