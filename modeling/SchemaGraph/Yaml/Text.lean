import SchemaGraph.Yaml.Input

/-! # Scalars in a text

Plain, quoted and block scalars as they are written over one or more lines. Each reader returns
the text of the scalar and the input behind it; nothing is returned for a scalar that breaks the
rules. -/

namespace SchemaGraph
namespace Yaml

/-! ## Gaps -/

/-- The blanks between two pieces of a scalar. -/
structure Gap where
  /-- Spaces and tabs, unless there is a line break. -/
  spaces : List Char := []
  /-- There is a line break. -/
  broken : Bool := false
  /-- The first line break. -/
  first : List Char := []
  /-- The line breaks after the first. -/
  later : List Char := []
deriving Inhabited

namespace Gap

/-- What the blanks stand for: a single line break is folded into a space. -/
def text (g : Gap) : List Char :=
  if !g.broken then g.spaces
  else if g.first.head? == some '\n' then (if g.later.isEmpty then [' '] else g.later)
  else g.first ++ g.later

/-- Reads blanks. At the start of a line no tab may stand left of `indent`. -/
def read (indent : Nat) : Nat → Gap → Input → Option (Gap × Input)
  | 0, g, i => some (g, i)
  | fuel + 1, g, i =>
    match i.rest.head? with
    | none => some (g, i)
    | some c =>
      if isSpaceOrTab c then
        if !g.broken then read indent fuel { g with spaces := g.spaces ++ [c] } (i.skip 1)
        else if c == '\t' && i.column < indent then none
        else read indent fuel g (i.skip 1)
      else
        match i.break? with
        | none => some (g, i)
        | some (t, n) =>
          let g : Gap :=
            if g.broken then { g with later := g.later ++ t }
            else { broken := true, first := t }
          read indent fuel g (i.skipBreak n)

end Gap

/-! ## Plain scalars -/

/-- A character that ends a collection or an item of it in flow style. -/
def isFlowEnd (c : Char) : Bool := ",[]\x7b\x7d".toList.contains c

/-- The characters of a plain scalar up to the next blank or the end of the scalar. In flow style
a colon may not touch an indicator. -/
def plainPiece (inFlow : Bool) : List Char → Option (List Char)
  | [] => some []
  | c :: cs =>
    if endsWord (some c) then some []
    else if inFlow && c == ':' && cs.head?.any (fun d => isFlowEnd d || d == '?') then none
    else if (c == ':' && endsWord cs.head?) || (inFlow && isFlowEnd c) then some []
    else (plainPiece inFlow cs).map (c :: ·)

/-- Reads a plain scalar from lines that are indented by `indent` at least. The flag tells
whether a line break was passed behind the last piece. -/
def plainFrom (inFlow : Bool) (indent : Nat) :
    Nat → List Char → Gap → Input → Option (List Char × Bool × Input)
  | 0, _, _, _ => none
  | fuel + 1, acc, gap, i =>
    if i.atDocumentMark || i.isAt '#' then some (acc.reverse, gap.broken, i)
    else do
      let piece ← plainPiece inFlow i.rest
      let (acc, gap) : List Char × Gap :=
        if piece.isEmpty then (acc, gap) else (piece.reverse ++ gap.text.reverse ++ acc, {})
      let i := i.skip piece.length
      if i.rest.isEmpty || !i.endsAt 0 then return (acc.reverse, gap.broken, i)
      let (gap, i) ← gap.read indent i.fuel i
      if !inFlow && i.column < indent then return (acc.reverse, gap.broken, i)
      plainFrom inFlow indent fuel acc gap i

def plain (inFlow : Bool) (indent : Nat) (i : Input) : Option (List Char × Bool × Input) :=
  plainFrom inFlow indent i.fuel [] {} i

/-! ## Quoted scalars -/

def hexValue? (c : Char) : Option Nat :=
  if c.isDigit then some (c.toNat - '0'.toNat)
  else if 'a' ≤ c && c ≤ 'f' then some (c.toNat - 'a'.toNat + 10)
  else if 'A' ≤ c && c ≤ 'F' then some (c.toNat - 'A'.toNat + 10)
  else none

def shortEscape? (c : Char) : Option Char :=
  let table : List (Char × Nat) := [('0', 0), ('a', 7), ('b', 8), ('t', 9), ('\t', 9), ('n', 10),
    ('v', 11), ('f', 12), ('r', 13), ('e', 27), (' ', 32), ('"', 34), ('/', 47), ('\\', 92),
    ('N', 0x85), ('_', 0xA0), ('L', 0x2028), ('P', 0x2029)]
  (table.find? (·.1 == c)).map fun e => Char.ofNat e.2

/-- The number of hexadecimal digits behind the letter of an escape. -/
def escapeWidth? (c : Char) : Option Nat :=
  if c == 'x' then some 2 else if c == 'u' then some 4 else if c == 'U' then some 8 else none

def codeChar? (width : Nat) (digits : List Char) : Option Char := do
  if digits.length != width then none
  let code ← digits.foldlM (fun n c => (hexValue? c).map fun d => n * 16 + d) 0
  if code.isValidChar then return Char.ofNat code else none

/-- Where a piece of a quoted scalar ends. -/
inductive PieceEnd where
  /-- In front of a blank. -/
  | blank
  /-- In front of the closing quote. -/
  | quote
  /-- In front of a backslash and a line break. -/
  | escapedBreak
deriving Repr, DecidableEq

/-- Reads a piece between single quotes: its text behind `acc`, in reverse order, and the number
of characters passed, `n` of them before. -/
def singlePiece (acc : List Char) (n : Nat) : List Char → List Char × Nat × PieceEnd
  | '\'' :: '\'' :: cs => singlePiece ('\'' :: acc) (n + 2) cs
  | [] => (acc, n, .blank)
  | c :: cs =>
    if endsWord (some c) then (acc, n, .blank)
    else if c == '\'' then (acc, n, .quote)
    else singlePiece (c :: acc) (n + 1) cs

def doublePiece : Nat → List Char → Nat → List Char → Option (List Char × Nat × PieceEnd)
  | 0, _, _, _ => none
  | _, acc, n, [] => some (acc, n, .blank)
  | fuel + 1, acc, n, c :: cs =>
    if endsWord (some c) then some (acc, n, .blank)
    else if c == '"' then some (acc, n, .quote)
    else if c == '\\' then
      match cs with
      | [] => none
      | e :: cs =>
        if isBreak e then some (acc, n, .escapedBreak)
        else
          match shortEscape? e, escapeWidth? e with
          | some d, _ => doublePiece fuel (d :: acc) (n + 2) cs
          | none, some width => do
            let d ← codeChar? width (cs.take width)
            doublePiece fuel (d :: acc) (n + 2 + width) (cs.drop width)
          | none, none => none
    else doublePiece fuel (c :: acc) (n + 1) cs

/-- Reads a quoted scalar from behind its opening quote. -/
def quotedFrom (single : Bool) : Nat → List Char → Input → Option (List Char × Input)
  | 0, _, _ => none
  | fuel + 1, acc, i =>
    if i.atDocumentMark || i.rest.isEmpty then none
    else do
      let (acc, n, ends) ←
        if single then some (singlePiece acc 0 i.rest)
        else doublePiece i.fuel acc 0 i.rest
      let i := i.skip n
      let resume (gap : Gap) (i : Input) : Option (List Char × Input) := do
        let (gap, i) ← gap.read 0 i.fuel i
        quotedFrom single fuel (gap.text.reverse ++ acc) i
      match ends with
      | .quote => return (acc.reverse, i.skip 1)
      | .blank => resume {} i
      | .escapedBreak =>
        let i := i.skip 1
        let (_, n) ← i.break?
        resume { broken := true } (i.skipBreak n)

def quoted (single : Bool) (i : Input) : Option (List Char × Input) :=
  quotedFrom single i.fuel [] (i.skip 1)

/-! ## Block scalars -/

/-- What becomes of the line breaks at the end. -/
inductive Chomp where
  | strip
  | clip
  | keep
deriving Repr, DecidableEq

/-- A mark of the header that says what becomes of the last breaks. -/
def chomp? (i : Input) : Option Chomp :=
  if i.isAt '+' then some .keep else if i.isAt '-' then some .strip else none

/-- The digit of the header that gives the indentation. Zero is no indentation. -/
def increment? (i : Input) : Option (Option Nat × Input) :=
  match i.rest.head? with
  | some c =>
    if !c.isDigit then some (none, i)
    else if c == '0' then none
    else some (some (c.toNat - '0'.toNat), i.skip 1)
  | none => some (none, i)

/-- Reads the header behind the bar or the angle bracket, and its line. -/
def header? (i : Input) : Option (Chomp × Option Nat × Input) := do
  let (chomp, increment, i) ← match chomp? i with
    | some chomp => do
      let (increment, i) ← increment? (i.skip 1)
      pure (chomp, increment, i)
    | none => do
      let (increment, i) ← increment? i
      match increment, chomp? i with
      | some n, some chomp => pure (chomp, some n, i.skip 1)
      | increment, _ => pure (.clip, increment, i)
  let i ← i.endLine?
  match i.break? with
  | some (_, n) => return (chomp, increment, i.skipBreak n)
  | none => return (chomp, increment, i)

/-- Passes over the indentation of a line and over empty lines in front of it, behind the breaks
`acc`. Without a known `indent` all spaces count, and the widest indentation is found. -/
def blockBreaks (indent : Option Nat) :
    Nat → Nat → List Char → Input → Option (List Char × Nat × Input)
  | 0, widest, acc, i => some (acc, widest, i)
  | fuel + 1, widest, acc, i =>
    let found := (i.rest.takeWhile (· == ' ')).length
    let i := i.skip (match indent with
      | some n => min found (n - i.column)
      | none => found)
    let widest := max widest i.column
    if i.isAt '\t' && indent.all (i.column < ·) then none
    else
      match i.break? with
      | some (t, n) => blockBreaks indent fuel widest (acc ++ t) (i.skipBreak n)
      | none => some (acc, widest, i)

/-- The lines of a block scalar as far as they are read. -/
structure Block where
  /-- The text, in reverse order. -/
  acc : List Char := []
  /-- The break of the last line. -/
  last : List Char := []
  /-- The breaks of the empty lines behind it. -/
  later : List Char := []
  /-- The last line starts with a blank. -/
  indented : Bool := false
deriving Inhabited

namespace Block

/-- Takes in a line. In folded style the break between two lines that start without a blank
becomes a space, or nothing if empty lines follow it. -/
def add (folded : Bool) (b : Block) (line : List Char) : Block :=
  let blank := line.head?.any isSpaceOrTab
  let joint :=
    if folded && b.last.head? == some '\n' && !b.indented && !blank then
      (if b.later.isEmpty then [' '] else [])
    else b.last
  { acc := line.reverse ++ (joint ++ b.later).reverse ++ b.acc, indented := blank }

def read (folded : Bool) (indent : Nat) : Nat → Block → Input → Option (Block × Input)
  | 0, _, _ => none
  | fuel + 1, b, i =>
    if i.column != indent || i.rest.isEmpty then some (b, i)
    else do
      let line := i.rest.takeWhile (!isBreak ·)
      let b := b.add folded line
      let i := i.skip line.length
      let (last, i) := match i.break? with
        | some (t, n) => (t, i.skipBreak n)
        | none => ([], i)
      let (later, _, i) ← blockBreaks (some indent) i.fuel 0 [] i
      read folded indent fuel { b with last, later } i

def text (b : Block) (chomp : Chomp) : List Char :=
  b.acc.reverse ++ match chomp with
    | .strip => []
    | .clip => b.last
    | .keep => b.last ++ b.later

end Block

/-- Reads a block scalar in a collection indented by `outer`. -/
def block (folded : Bool) (outer : Int) (i : Input) : Option (List Char × Input) := do
  let (chomp, increment, i) ← header? (i.skip 1)
  let fuel := i.fuel
  let (indent, later, i) ← match increment with
    | some n => do
      let indent := (max outer 0).toNat + n
      let (later, _, i) ← blockBreaks (some indent) fuel 0 [] i
      pure (indent, later, i)
    | none => do
      let (later, widest, i) ← blockBreaks none fuel 0 [] i
      pure (max (max widest (outer + 1).toNat) 1, later, i)
  let (b, i) ← Block.read folded indent fuel { later } i
  return (b.text chomp, i)

end Yaml
end SchemaGraph
