import SchemaGraph.Data.Event
import SchemaGraph.Yaml.Scalar
import SchemaGraph.Yaml.Token

/-! # Reading YAML

The tokens of a YAML text as a run of events. A text holds one document; anything behind it is a
fault, and a text without any node holds a blank scalar. -/

namespace SchemaGraph
namespace Yaml

/-- What is read next. -/
inductive Goal where
  /-- A node: in block style or not, perhaps a sequence that is indented like its key. -/
  | node (block indentless : Bool)
  | blockItem
  | indentlessItem
  | blockKey
  | blockValue
  | flowItem (first : Bool)
  /-- The key, the value and the end of a mapping of one entry inside a flow sequence. -/
  | pairKey
  | pairValue
  | pairEnd
  | flowKey (first : Bool)
  | flowValue
  /-- The value of an entry that is written without one. -/
  | noValue
deriving Repr, DecidableEq

/-- A scalar that is not written. -/
def blankEvent : Event := .scalar none (scalarOf none true [])

/-! ## Tags -/

/-- What the handles of tags stand for. -/
abbrev Handles := Table String

def standardHandles : Handles := [("!", "!"), ("!!", coreTag "")]

def fullTag? (handles : Handles) (handle suffix : String) : Option String :=
  if handle.isEmpty then some suffix else (handles.get? handle).map (· ++ suffix)

/-- What may stand in front of a node. -/
structure Properties where
  anchor : Option String := none
  tag : Option String := none

/-- Reads an anchor and a tag, in either order. -/
def properties? (handles : Handles) (ts : List Token) : Option (Properties × List Token) :=
  match ts with
  | .anchor name :: .tag handle suffix :: ts | .tag handle suffix :: .anchor name :: ts =>
    (fullTag? handles handle suffix).map fun tag => (⟨some name, some tag⟩, ts)
  | .anchor name :: ts => some (⟨some name, none⟩, ts)
  | .tag handle suffix :: ts =>
    (fullTag? handles handle suffix).map fun tag => (⟨none, some tag⟩, ts)
  | ts => some ({}, ts)

/-! ## Nodes -/

/-- What one step of reading does: an event, if it makes one, the goals that replace the one it
was taken for, and the tokens left. -/
abbrev Step := Option Event × List Goal × List Token

def node? (handles : Handles) (isBlock indentless : Bool) (ts : List Token) : Option Step :=
  match ts with
  | .alias name :: ts => some (some (.alias name), [], ts)
  | _ => do
    let (p, ts) ← properties? handles ts
    let isTagged := p.tag.any isLocalTag
    match ts with
    | .blockEntry :: _ =>
      if indentless then return (some (.openSeq p.anchor isTagged), [.indentlessItem], ts)
      else bare p ts
    | .scalar text isPlain :: ts =>
      return (some (.scalar p.anchor (scalarOf p.tag isPlain text)), [], ts)
    | .flowSeq :: ts => return (some (.openSeq p.anchor isTagged), [.flowItem true], ts)
    | .flowMap :: ts => return (some (.openMap p.anchor isTagged), [.flowKey true], ts)
    | .blockSeq :: rest =>
      if isBlock then return (some (.openSeq p.anchor isTagged), [.blockItem], rest) else bare p ts
    | .blockMap :: rest =>
      if isBlock then return (some (.openMap p.anchor isTagged), [.blockKey], rest) else bare p ts
    | ts => bare p ts
where
  /-- A node that consists of its properties alone. -/
  bare (p : Properties) (ts : List Token) : Option Step :=
    if ts.head? != some .broken && (p.anchor.isSome || p.tag.isSome) then
      some (some (.scalar p.anchor (scalarOf p.tag true [])), [], ts)
    else none

def nextIs (ts : List Token) (kinds : List Token) : Bool := ts.head?.any kinds.contains

/-- A node unless the next token shows that there is none; then a blank scalar. -/
def nodeUnless (kinds : List Token) (isBlock indentless : Bool) (goals : List Goal)
    (ts : List Token) : Option Step :=
  if nextIs ts kinds then some (some blankEvent, goals, ts)
  else if nextIs ts [.broken] then none
  else some (none, .node isBlock indentless :: goals, ts)

def step (handles : Handles) : Goal → List Token → Option Step
  | .node isBlock indentless, ts => node? handles isBlock indentless ts
  | .blockItem, .blockEntry :: ts =>
    nodeUnless [.blockEntry, .blockEnd] true false [.blockItem] ts
  | .blockItem, .blockEnd :: ts => some (some .close, [], ts)
  | .indentlessItem, .blockEntry :: ts =>
    nodeUnless [.blockEntry, .key, .value, .blockEnd] true false [.indentlessItem] ts
  | .indentlessItem, ts => if nextIs ts [.broken] then none else some (some .close, [], ts)
  | .blockKey, .key :: ts => nodeUnless [.key, .value, .blockEnd] true true [.blockValue] ts
  | .blockKey, .blockEnd :: ts => some (some .close, [], ts)
  | .blockValue, .value :: ts => nodeUnless [.key, .value, .blockEnd] true true [.blockKey] ts
  | .blockValue, ts =>
    if nextIs ts [.broken] then none else some (some blankEvent, [.blockKey], ts)
  | .flowItem _, .flowSeqEnd :: ts => some (some .close, [], ts)
  | .flowItem true, ts => item ts
  | .flowItem false, .flowEntry :: ts =>
    match ts with
    | .flowSeqEnd :: ts => some (some .close, [], ts)
    | ts => item ts
  | .pairKey, ts =>
    if nextIs ts [.value, .flowEntry, .flowSeqEnd] then
      some (some blankEvent, [.pairValue], ts.drop 1)
    else nodeUnless [] false false [.pairValue] ts
  | .pairValue, .value :: ts => nodeUnless [.flowEntry, .flowSeqEnd] false false [.pairEnd] ts
  | .pairValue, ts => if nextIs ts [.broken] then none else some (some blankEvent, [.pairEnd], ts)
  | .pairEnd, ts => some (some .close, [.flowItem false], ts)
  | .flowKey _, .flowMapEnd :: ts => some (some .close, [], ts)
  | .flowKey true, ts => entry ts
  | .flowKey false, .flowEntry :: ts =>
    match ts with
    | .flowMapEnd :: ts => some (some .close, [], ts)
    | ts => entry ts
  | .flowValue, .value :: ts => nodeUnless [.flowEntry, .flowMapEnd] false false [.flowKey false] ts
  | .flowValue, ts =>
    if nextIs ts [.broken] then none else some (some blankEvent, [.flowKey false], ts)
  | .noValue, ts => some (some blankEvent, [.flowKey false], ts)
  | _, _ => none
where
  /-- An item of a flow sequence, perhaps a mapping of one entry. -/
  item (ts : List Token) : Option Step :=
    match ts with
    | .key :: ts => some (some (.openMap none false), [.pairKey], ts)
    | ts => nodeUnless [] false false [.flowItem false] ts
  entry (ts : List Token) : Option Step :=
    match ts with
    | .key :: ts => nodeUnless [.value, .flowEntry, .flowMapEnd] false false [.flowValue] ts
    | ts => nodeUnless [] false false [.noValue] ts

/-! ## Documents -/

/-- Nothing but marks of the document's end follows. -/
def isEnd (ts : List Token) : Bool := ts.dropWhile (· == .documentEnd) == [.streamEnd]

/-- The events towards goals, behind those in `acc`, which are in reverse order. -/
def eventsFrom (handles : Handles) : Nat → List Goal → List Token → List Event → List Event
  | 0, _, _, acc => (.broken :: acc).reverse
  | _, [], ts, acc => (if isEnd ts then acc else .broken :: acc).reverse
  | fuel + 1, goal :: goals, ts, acc =>
    match step handles goal ts with
    | some (some e, more, ts) => eventsFrom handles fuel (more ++ goals) ts (e :: acc)
    | some (none, more, ts) => eventsFrom handles fuel (more ++ goals) ts acc
    | none => (.broken :: acc).reverse

/-- Reads directives: at most one version, which is 1.1 or 1.2, and handles of tags, each of them
once. -/
def directives? : Bool → Handles → List Token → Option (Handles × List Token)
  | versioned, handles, .version major minor :: ts =>
    if versioned || major != 1 || (minor != 1 && minor != 2) then none
    else directives? true handles ts
  | versioned, handles, .tagHandle handle lead :: ts =>
    if (handles.get? handle).isSome then none
    else directives? versioned (handles ++ [(handle, lead)]) ts
  | _, handles, ts => some (handles, ts)

def eventsOf (ts : List Token) : List Event :=
  let fuel := 4 * ts.length + 4
  match ts with
  | .streamEnd :: _ => [blankEvent]
  | .version .. :: _ | .tagHandle .. :: _ | .documentStart :: _ =>
    match directives? false [] ts with
    | some (handles, .documentStart :: ts) =>
      let goals := [Goal.node true false]
      match ts with
      | .version .. :: _ | .tagHandle .. :: _ | .documentStart :: _ | .documentEnd :: _
      | .streamEnd :: _ => eventsFrom [] fuel [] ts [blankEvent]
      | ts => eventsFrom (handles ++ standardHandles) fuel goals ts []
    | _ => [.broken]
  | ts => eventsFrom standardHandles fuel [.node true false] ts []

def events (text : String) : List Event := eventsOf (tokens text)

def readTree (text : String) : Tree := .ofEvents (events text)

end Yaml
end SchemaGraph
