import SchemaGraph.Yaml.Text

/-! # YAML tokens

A YAML text as a run of tokens. Indentation is turned into starts and ends of block collections.
That a scalar or a flow collection is a key shows at the colon behind it only, so the token of a
possible key is held back until that is settled. -/

namespace SchemaGraph
namespace Yaml

inductive Token where
  | version (major minor : Nat)
  | tagHandle (handle lead : String)
  | documentStart
  | documentEnd
  | blockSeq
  | blockMap
  | blockEnd
  | flowSeq
  | flowSeqEnd
  | flowMap
  | flowMapEnd
  | blockEntry
  | flowEntry
  | key
  | value
  | alias (name : String)
  | anchor (name : String)
  | tag (handle suffix : String)
  | scalar (text : List Char) (plain : Bool)
  | streamEnd
  /-- No further token can be read. -/
  | broken
deriving Repr, DecidableEq, Inhabited

/-! ## Directives, anchors and tags -/

/-- Reads a version number of up to nine digits. -/
def versionNumber? (i : Input) : Option (Nat × Input) :=
  let ds := i.rest.takeWhile Char.isDigit
  if ds.isEmpty || ds.length > 9 then none
  else some (ds.foldl (fun n c => n * 10 + (c.toNat - '0'.toNat)) 0, i.skip ds.length)

/-- Reads the handle of a tag: an exclamation mark, and perhaps a name and another mark. -/
def tagHandle? (i : Input) : Option (List Char × Input) :=
  match i.rest with
  | '!' :: cs =>
    let name := cs.takeWhile isNameChar
    let closing := match cs.drop name.length with
      | '!' :: _ => ['!']
      | _ => []
    let handle := '!' :: name ++ closing
    some (handle, i.skip handle.length)
  | _ => none

/-- A character of a tag, between angle brackets or not. -/
def isTagChar (bracketed : Bool) (c : Char) : Bool :=
  isNameChar c || ";/?:@&=+$.%!~*'()".toList.contains c ||
    (bracketed && ",[]".toList.contains c)

def escapedOctet? : List Char → Option Nat
  | '%' :: a :: b :: _ => do return (← hexValue? a) * 16 + (← hexValue? b)
  | _ => none

/-- The value of `n` escaped octets that continue a character. -/
def continuation? : Nat → Nat → List Char → Option Nat
  | 0, code, _ => some code
  | n + 1, code, cs => do
    let octet ← escapedOctet? cs
    if octet / 64 != 2 then none
    continuation? n (code * 64 + octet % 64) (cs.drop 3)

/-- The character of an escape of one or more octets, and the number of octets. -/
def escapedChar? (cs : List Char) : Option (Char × Nat) := do
  let octet ← escapedOctet? cs
  let (code, more) ←
    if octet < 0x80 then some (octet, 0)
    else if octet / 32 == 6 then some (octet % 32, 1)
    else if octet / 16 == 14 then some (octet % 16, 2)
    else if octet / 8 == 30 then some (octet % 8, 3)
    else none
  let code ← continuation? more code (cs.drop 3)
  if code.isValidChar then return (Char.ofNat code, more + 1) else none

def tagText (bracketed : Bool) : Nat → List Char → Input → Option (List Char × Input)
  | 0, _, _ => none
  | fuel + 1, acc, i =>
    match i.rest.head? with
    | none => some (acc.reverse, i)
    | some c =>
      if c == '%' then do
        let (d, n) ← escapedChar? i.rest
        tagText bracketed fuel (d :: acc) (i.skip (3 * n))
      else if isTagChar bracketed c then tagText bracketed fuel (c :: acc) (i.skip 1)
      else some (acc.reverse, i)

def tagText? (bracketed : Bool) (i : Input) : Option (List Char × Input) :=
  tagText bracketed i.fuel [] i

/-- Reads a directive from behind its percent sign, and the line it stands on. -/
def directive? (i : Input) : Option (Token × Input) := do
  let name := i.rest.takeWhile isNameChar
  let i := i.skip name.length
  if !i.endsAt 0 then none
  let i := i.skipWhile isSpaceOrTab
  let (token, i) ←
    if name == "YAML".toList then do
      let (major, i) ← versionNumber? i
      if !i.isAt '.' then none
      let (minor, i) ← versionNumber? (i.skip 1)
      pure (Token.version major minor, i)
    else if name == "TAG".toList then do
      let (handle, i) ← tagHandle? i
      if handle.length > 1 && handle.getLast? != some '!' then none
      if !(i.rest.head?.any isSpaceOrTab) then none
      let (lead, i) ← tagText? true (i.skipWhile isSpaceOrTab)
      if lead.isEmpty || !i.endsAt 0 then none
      pure (Token.tagHandle (.ofList handle) (.ofList lead), i)
    else none
  let i ← i.endLine?
  match i.break? with
  | some (_, n) => return (token, i.skipBreak n)
  | none => return (token, i)

/-- Reads the name of an anchor or an alias from behind its mark. -/
def anchorName? (i : Input) : Option (String × Input) :=
  let name := i.rest.takeWhile isNameChar
  let i := i.skip name.length
  if name.isEmpty then none
  else if i.endsAt 0 || i.rest.head?.any (fun c => "?:,]\x7d%@\x60".toList.contains c) then
    some (.ofList name, i)
  else none

def tag? (inFlow : Bool) (i : Input) : Option (Token × Input) := do
  let (handle, suffix, i) ←
    if i.peek? 1 == some '<' then do
      let (text, i) ← tagText? true (i.skip 2)
      if text.isEmpty || !i.isAt '>' then none
      pure ([], text, i.skip 1)
    else do
      let (handle, i) ← tagHandle? i
      let (text, i) ← tagText? false i
      if handle.length > 1 && handle.getLast? == some '!' then
        if text.isEmpty then none
        pure (handle, text, i)
      else
        let suffix := handle.drop 1 ++ text
        pure (if suffix.isEmpty then ([], ['!'], i) else (['!'], suffix, i))
  if (inFlow && i.isAt ',') || i.endsAt 0 then
    return (.tag (.ofList handle) (.ofList suffix), i)
  else none

/-! ## The scanner -/

/-- A token that a key would start with. -/
structure Candidate where
  /-- The number of tokens in front of it. -/
  number : Nat
  /-- It stands where nothing but a key may. -/
  required : Bool
  line : Nat
  column : Nat
  index : Nat
deriving Repr, DecidableEq

structure Scanner where
  input : Input
  /-- The tokens, the last one first. -/
  tokens : List Token := []
  count : Nat := 0
  /-- The indentation of the innermost block collection, -1 outside of all. -/
  indent : Int := -1
  /-- The indentations of the collections around it. -/
  outer : List Int := []
  /-- The candidate of each flow collection, the innermost first, and that of the block. -/
  candidates : List (Option Candidate) := [none]
  keyAllowed : Bool := true
deriving Inhabited

namespace Scanner

def inFlow (s : Scanner) : Bool := s.candidates.length > 1

def emit (s : Scanner) (t : Token) : Scanner :=
  { s with tokens := t :: s.tokens, count := s.count + 1 }

/-- Puts a token in front of the one with a number. -/
def emitAt (s : Scanner) (number : Nat) (t : Token) : Scanner :=
  let behind := s.count - number
  { s with tokens := s.tokens.take behind ++ t :: s.tokens.drop behind, count := s.count + 1 }

def skip (s : Scanner) (n : Nat) : Scanner := { s with input := s.input.skip n }

/-- The tokens that are not held back by a candidate, and the fault behind them. -/
def settled (s : Scanner) : List Token :=
  let ready := s.candidates.foldl (fun n c => match c with
    | some c => min n c.number
    | none => n) s.count
  s.tokens.reverse.take ready ++ [.broken]

/-- Drops candidates that the colon no longer can make keys: a key is no longer than one line
and 1024 characters. -/
def dropStale (s : Scanner) : Option Scanner := do
  let candidates ← s.candidates.mapM fun
    | some c =>
      if c.line < s.input.line || c.index + 1024 < s.input.index then
        if c.required then none else some none
      else some (some c)
    | none => some none
  return { s with candidates }

def dropCandidate (s : Scanner) : Option Scanner :=
  match s.candidates with
  | some c :: rest => if c.required then none else some { s with candidates := none :: rest }
  | _ => some s

/-- Makes the next token a candidate where a key may start. -/
def noteCandidate (s : Scanner) : Option Scanner :=
  if !s.keyAllowed then some s
  else do
    let s ← s.dropCandidate
    let i := s.input
    let c : Candidate :=
      ⟨s.count, !s.inFlow && s.indent == i.column, i.line, i.column, i.index⟩
    return { s with candidates := some c :: s.candidates.drop 1 }

/-- Ends the block collections that are indented by more than a column. -/
def unrollFrom (column : Int) : List Int → Scanner → Scanner
  | [], s => s
  | o :: outer, s =>
    if s.indent > column then unrollFrom column outer { s.emit .blockEnd with indent := o, outer }
    else s

def unroll (s : Scanner) (column : Int) : Scanner :=
  if s.inFlow then s else unrollFrom column s.outer s

/-- Starts a block collection at a column that is indented by more than the innermost one. The
token goes in front of the one with a number, or to the end. -/
def roll (s : Scanner) (column : Nat) (number : Option Nat) (t : Token) : Scanner :=
  if !s.inFlow && s.indent < column then
    let s := match number with
      | some n => s.emitAt n t
      | none => s.emit t
    { s with indent := column, outer := s.indent :: s.outer }
  else s

/-- Passes over spaces, comments and line breaks. A tab may stand where no key may start. -/
def toNextToken : Nat → Scanner → Scanner
  | 0, s => s
  | fuel + 1, s =>
    let i := s.input.skipWhile fun c => c == ' ' || ((s.inFlow || !s.keyAllowed) && c == '\t')
    let i := if i.isAt '#' then i.skipWhile (!isBreak ·) else i
    match i.break? with
    | some (_, n) =>
      toNextToken fuel
        { s with input := i.skipBreak n, keyAllowed := !s.inFlow || s.keyAllowed }
    | none => { s with input := i }

/-! ### Tokens of one kind -/

def toTopLevel (s : Scanner) : Option Scanner := do
  let s ← (s.unroll (-1)).dropCandidate
  return { s with keyAllowed := false }

def finish (s : Scanner) : Option Scanner := do
  let i := s.input
  let s :=
    if i.column == 0 then s else { s with input := { i with column := 0, line := i.line + 1 } }
  return (← s.toTopLevel).emit .streamEnd

def directive (s : Scanner) : Option Scanner := do
  let s ← s.toTopLevel
  let (t, i) ← directive? (s.input.skip 1)
  return { s.emit t with input := i }

def documentMark (s : Scanner) (t : Token) : Option Scanner := do
  return ((← s.toTopLevel).emit t).skip 3

def openFlow (s : Scanner) (t : Token) : Option Scanner := do
  let s ← s.noteCandidate
  return { (s.emit t).skip 1 with candidates := none :: s.candidates, keyAllowed := true }

def closeFlow (s : Scanner) (t : Token) : Option Scanner := do
  let s ← s.dropCandidate
  let candidates := if s.inFlow then s.candidates.drop 1 else s.candidates
  return { (s.emit t).skip 1 with candidates, keyAllowed := false }

def flowEntry (s : Scanner) : Option Scanner := do
  let s ← s.dropCandidate
  return { (s.emit .flowEntry).skip 1 with keyAllowed := true }

def blockEntry (s : Scanner) : Option Scanner := do
  if !s.inFlow && !s.keyAllowed then none
  let s ← (s.roll s.input.column none .blockSeq).dropCandidate
  return { (s.emit .blockEntry).skip 1 with keyAllowed := true }

def explicitKey (s : Scanner) : Option Scanner := do
  if !s.inFlow && !s.keyAllowed then none
  let s ← (s.roll s.input.column none .blockMap).dropCandidate
  return { (s.emit .key).skip 1 with keyAllowed := !s.inFlow }

def colon (s : Scanner) : Option Scanner := do
  let s ← match s.candidates with
    | some c :: rest =>
      let s := s.emitAt c.number .key
      let s := s.roll c.column (some c.number) .blockMap
      pure { s with candidates := none :: rest, keyAllowed := false }
    | _ =>
      if !s.inFlow && !s.keyAllowed then none
      let s := s.roll s.input.column none .blockMap
      pure { s with keyAllowed := !s.inFlow }
  return (s.emit .value).skip 1

/-- A token that a key may start with and none can follow at once. -/
def keyPart (s : Scanner) (read : Input → Option (Token × Input)) : Option Scanner := do
  let s ← s.noteCandidate
  let (t, i) ← read s.input
  return { s.emit t with input := i, keyAllowed := false }

def blockScalar (s : Scanner) (folded : Bool) : Option Scanner := do
  let s ← s.dropCandidate
  let (text, i) ← block folded s.indent s.input
  return { s.emit (.scalar text false) with input := i, keyAllowed := true }

def quotedScalar (s : Scanner) (single : Bool) : Option Scanner :=
  s.keyPart fun i => (quoted single i).map fun (text, i) => (.scalar text false, i)

def plainScalar (s : Scanner) : Option Scanner := do
  let s ← s.noteCandidate
  let (text, brokeLine, i) ← plain s.inFlow (s.indent + 1).toNat s.input
  return { s.emit (.scalar text true) with input := i, keyAllowed := brokeLine }

/-! ### The run -/

/-- A character that starts a token other than a plain scalar, whatever follows it. -/
def startsNoPlain (c : Char) : Bool := ",[]\x7b\x7d#&*!|>'\"%@\x60".toList.contains c

def next (s : Scanner) : Option Scanner := do
  let s := toNextToken s.input.fuel s
  let s ← s.dropStale
  let s := s.unroll s.input.column
  let i := s.input
  match i.rest with
  | [] => s.finish
  | c :: _ =>
    let free := i.endsAt 1
    if i.column == 0 && c == '%' then s.directive
    else if i.startsWith3 '-' then s.documentMark .documentStart
    else if i.startsWith3 '.' then s.documentMark .documentEnd
    else if c == '[' then s.openFlow .flowSeq
    else if c == '\x7b' then s.openFlow .flowMap
    else if c == ']' then s.closeFlow .flowSeqEnd
    else if c == '\x7d' then s.closeFlow .flowMapEnd
    else if c == ',' then s.flowEntry
    else if c == '-' && free then s.blockEntry
    else if c == '?' && (s.inFlow || free) then s.explicitKey
    else if c == ':' && (s.inFlow || free) then s.colon
    else if c == '*' then
      s.keyPart fun i => (anchorName? (i.skip 1)).map fun (name, i) => (.alias name, i)
    else if c == '&' then
      s.keyPart fun i => (anchorName? (i.skip 1)).map fun (name, i) => (.anchor name, i)
    else if c == '!' then s.keyPart (tag? s.inFlow)
    else if c == '|' && !s.inFlow then s.blockScalar false
    else if c == '>' && !s.inFlow then s.blockScalar true
    else if c == '\'' then s.quotedScalar true
    else if c == '"' then s.quotedScalar false
    else if isSpaceOrTab c || startsNoPlain c then none
    else s.plainScalar

def run : Nat → Scanner → List Token
  | 0, s => s.settled
  | fuel + 1, s =>
    match s.dropStale with
    | none => s.settled
    | some s =>
      match s.next with
      | none => s.settled
      | some s => if s.tokens.head? == some .streamEnd then s.tokens.reverse else run fuel s

end Scanner

def isAllowed (c : Char) : Bool :=
  let n := c.toNat
  n == 0x09 || n == 0x0A || n == 0x0D || (0x20 ≤ n && n ≤ 0x7E) || n == 0x85 ||
    (0xA0 ≤ n && n ≤ 0xFFFD && n != 0xFEFF) || 0x10000 ≤ n

/-- The text without the mark of its encoding. -/
def unmarked : List Char → List Char
  | c :: cs => if c.toNat == 0xFEFF then cs else c :: cs
  | [] => []

def tokens (text : String) : List Token :=
  let cs := unmarked text.toList
  if cs.all isAllowed then Scanner.run (2 * cs.length + 2) { input := .ofChars cs } else [.broken]

end Yaml
end SchemaGraph
