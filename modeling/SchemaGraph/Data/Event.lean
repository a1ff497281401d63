import SchemaGraph.Data.Node

/-! # Events

A text in reading order: scalars, and collections that open and close. Anchors name nodes and
aliases repeat them. -/

namespace SchemaGraph

inductive Event where
  | scalar (anchor : Option String) (s : Scalar)
  | openSeq (anchor : Option String) (tagged : Bool)
  | openMap (anchor : Option String) (tagged : Bool)
  | close
  | alias (name : String)
  /-- The text cannot be read from here on. -/
  | broken
deriving Inhabited

structure Tree where
  root : Node
  complete : Bool
deriving Inhabited

namespace Tree

/-- A collection that is open: its parts so far, the last one first. The parts of a mapping are
keys and values by turns. -/
structure Frame where
  isMap : Bool
  tagged : Bool
  /-- The anchor, with the number of anchors before it. -/
  anchor : Option (String × Nat)
  parts : List Node
deriving Inhabited

/-- Keys and values as entries; a key without a value breaks off. -/
def pairs : List Node → List (Node × Node)
  | k :: v :: rest => (k, v) :: pairs rest
  | [k] => [(k, .broken)]
  | [] => []

def Frame.node (f : Frame) (closed : Bool) : Node :=
  if f.isMap then .map (pairs f.parts.reverse) closed f.tagged
  else .seq f.parts.reverse closed f.tagged

structure Builder where
  /-- The open collections, the innermost first. -/
  frames : List Frame := []
  root : Option Node := none
  /-- What each anchor stands for, the latest first: nothing yet while its node is open. -/
  anchors : List (String × Option Node) := []
deriving Inhabited

namespace Builder

/-- Adds a part to the innermost collection, or the root. -/
def add (b : Builder) (n : Node) : Builder :=
  match b.frames with
  | [] => { b with root := some (b.root.getD n) }
  | f :: fs => { b with frames := { f with parts := n :: f.parts } :: fs }

def anchored (b : Builder) (anchor : Option String) (n : Option Node) : Builder :=
  match anchor with
  | none => b
  | some name => { b with anchors := (name, n) :: b.anchors }

def openFrame (b : Builder) (isMap tagged : Bool) (anchor : Option String) : Builder :=
  let frame : Frame := ⟨isMap, tagged, anchor.map fun name => (name, b.anchors.length), []⟩
  let b := b.anchored anchor none
  { b with frames := frame :: b.frames }

/-- The node of the innermost collections down to a frame, all of them broken off. -/
def brokenOff : List Frame → Option Node → (Frame → Bool) → Option Node
  | [], inner, _ => inner
  | f :: fs, inner, isLast =>
    let f := { f with parts := inner.toList ++ f.parts }
    if isLast f then some (f.node false) else brokenOff fs (some (f.node false)) isLast

/-- What an alias stands for. The node of a collection that is still open is the collection as
far as it is known. -/
def resolve (b : Builder) (name : String) : Option Node :=
  match b.anchors.find? (·.1 == name) with
  | none => none
  | some (_, some n) => some n
  | some (_, none) =>
    let rank := (b.anchors.dropWhile (·.1 != name)).length - 1
    brokenOff b.frames none fun f => f.anchor == some (name, rank)

def closeFrame (b : Builder) : Builder :=
  match b.frames with
  | [] => b
  | f :: fs =>
    let n := f.node true
    let b := { b with frames := fs }
    let b := match f.anchor with
      | none => b
      | some (name, rank) =>
        { b with anchors := b.anchors.set (b.anchors.length - 1 - rank) (name, some n) }
    b.add n

def finish (b : Builder) (complete : Bool) : Tree :=
  match b.root with
  | some root => ⟨root, complete⟩
  | none => ⟨(brokenOff b.frames none fun _ => false).getD .broken, complete⟩

end Builder

def build (b : Builder) : List Event → Tree
  | [] => b.finish true
  | .scalar anchor s :: es => build ((b.anchored anchor (some (.scalar s))).add (.scalar s)) es
  | .openSeq anchor tagged :: es => build (b.openFrame false tagged anchor) es
  | .openMap anchor tagged :: es => build (b.openFrame true tagged anchor) es
  | .close :: es => build b.closeFrame es
  | .alias name :: es =>
    match b.resolve name with
    | some n => build (b.add n) es
    | none => b.finish false
  | .broken :: _ => b.finish false

def ofEvents (es : List Event) : Tree := build {} es

end Tree
end SchemaGraph
