import SchemaGraph.Token

/-! # Type references

A reference as a tree: a named type with its generic arguments, or an array of an element. -/

namespace SchemaGraph

inductive Reference where
  /-- A type under the name as written, arity suffix included. -/
  | named (name : String) (arguments : List Reference)
  | array (element : Reference)
deriving Repr, BEq, Inhabited

namespace Reference

abbrev leaf (name : String) : Reference := .named name []

/-- The element wrapped in `rank` arrays. -/
def arrays (element : Reference) : Nat → Reference
  | 0 => element
  | rank + 1 => .array (arrays element rank)

def name? : Reference → Option String
  | .named name _ => some name
  | .array _ => none

def isArray : Reference → Bool
  | .named .. => false
  | .array _ => true

/-- The generic arguments of a named type; an array has its element as the only one. -/
def arguments : Reference → List Reference
  | .named _ arguments => arguments
  | .array element => [element]

/-! ## Display -/

mutual

/-- The reference as people write it: `Pair<Int32,String>`, `Int32[]`. Arity suffixes are
dropped. -/
def display : Reference → String
  | .named name [] => stripArity name
  | .named name (argument :: more) =>
    stripArity name ++ ("<" ++ display argument ++ displayMore more ++ ">")
  | .array element => display element ++ "[]"

def displayMore : List Reference → String
  | [] => ""
  | argument :: more => "," ++ display argument ++ displayMore more

end

/-! ## Substitution -/

/-- What each name is bound to, if it is. -/
abbrev Bindings := String → Option Reference

/-- Binds parameters to arguments in turn; of two equal parameters the later one counts. -/
def Bindings.ofLists : List String → List Reference → Bindings
  | parameter :: parameters, argument :: arguments => fun name =>
    (ofLists parameters arguments name).or (if name = parameter then some argument else none)
  | _, _ => fun _ => none

mutual

/-- Replaces every bound leaf at once. A node with arguments stays, whatever its name. -/
def substitute (b : Bindings) : Reference → Reference
  | .named name [] => (b name).getD (leaf name)
  | .named name (argument :: more) =>
    .named name (substitute b argument :: substituteAll b more)
  | .array element => .array (substitute b element)

def substituteAll (b : Bindings) : List Reference → List Reference
  | [] => []
  | argument :: more => substitute b argument :: substituteAll b more

end

@[simp] theorem substituteAll_eq_map (b : Bindings) (rs : List Reference) :
    substituteAll b rs = rs.map (substitute b) := by
  induction rs with
  | nil => simp [substituteAll]
  | cons r rs ih => simp [substituteAll, ih]

/-! ## Spelling -/

mutual

/-- The token list that spells the reference, each node before its arguments. An array is one
token: its element's text with a marker behind it. -/
def tokens : Reference → List String
  | .named name arguments => name :: tokensAll arguments
  | .array element => [arrayText element ++ "[]"]

def tokensAll : List Reference → List String
  | [] => []
  | r :: rs => tokens r ++ tokensAll rs

def arrayText : Reference → String
  | .named name _ => name
  | .array element => arrayText element ++ "[]"

end

@[simp] theorem tokensAll_append (rs ss : List Reference) :
    tokensAll (rs ++ ss) = tokensAll rs ++ tokensAll ss := by
  induction rs with
  | nil => simp [tokensAll]
  | cons r rs ih => simp [tokensAll, ih]

end Reference
end SchemaGraph
