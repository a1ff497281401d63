/-! # Arguments

The arguments of a command are options and operands in any order. An option is `--name`, with a
value as `--name value` or `--name=value`; everything behind `--` is an operand. -/

namespace SchemaGraph
namespace CommandLine

/-- Why the arguments are no request. -/
inductive Stop where
  | help
  | version
  | misuse
deriving Repr, DecidableEq, Inhabited

inductive Argument where
  | option (name : String) (value : Option String)
  /-- Letters behind one dash. -/
  | letters (letters : List Char)
  /-- The mark that ends the options. -/
  | mark
  | operand (text : String)
deriving Repr, DecidableEq, Inhabited

def Argument.ofText (text : String) : Argument :=
  match text.toList with
  | ['-', '-'] => .mark
  | '-' :: '-' :: cs =>
    let name := String.ofList (cs.takeWhile (· != '='))
    match cs.dropWhile (· != '=') with
    | _ :: value => .option name (some (.ofList value))
    | [] => .option name none
  | '-' :: c :: cs => .letters (c :: cs)
  | _ => .operand text

inductive Arity where
  | flag
  /-- A value that `accepts` holds of; unless repeatable, the option is given once. -/
  | value (repeatable : Bool) (accepts : String → Bool)

structure Usage where
  options : List (String × Arity)
  /-- The largest number of operands, if there is one. -/
  operandLimit : Option Nat

structure Sorted where
  flags : List String := []
  values : List (String × String) := []
  operands : List String := []
deriving Repr, DecidableEq, Inhabited

namespace Sorted

def hasFlag (s : Sorted) (name : String) : Bool := s.flags.contains name

def valuesOf (s : Sorted) (name : String) : List String :=
  s.values.filterMap fun (n, value) => if n == name then some value else none

def valueOf? (s : Sorted) (name : String) : Option String := (s.valuesOf name).head?

/-- Adds a flag. None is given twice. -/
def addFlag (s : Sorted) (name : String) : Except Stop Sorted :=
  if s.hasFlag name then .error .misuse else .ok { s with flags := s.flags ++ [name] }

def addValue (s : Sorted) (name value : String) (repeatable : Bool) (accepts : String → Bool) :
    Except Stop Sorted :=
  if !accepts value || (!repeatable && !(s.valuesOf name).isEmpty) then .error .misuse
  else .ok { s with values := s.values ++ [(name, value)] }

def addOperand (s : Sorted) (usage : Usage) (text : String) : Except Stop Sorted :=
  if usage.operandLimit.any (s.operands.length ≥ ·) then .error .misuse
  else .ok { s with operands := s.operands ++ [text] }

/-- Adds the letters behind a dash: `v` is the flag `verbose`, `h` asks for help. -/
def addLetters (s : Sorted) : List Char → Except Stop Sorted
  | [] => .ok s
  | 'v' :: more => do addLetters (← s.addFlag "verbose") more
  | 'h' :: _ => .error .help
  | _ :: _ => .error .misuse

/-- Sorts the arguments of a command behind those sorted so far. The first that does not fit
decides. -/
def addAll (usage : Usage) : Sorted → List String → Except Stop Sorted
  | s, [] => .ok s
  | s, text :: more =>
    match Argument.ofText text with
    | .mark => more.foldlM (addOperand · usage ·) s
    | .operand text => do addAll usage (← s.addOperand usage text) more
    | .letters letters => do addAll usage (← s.addLetters letters) more
    | .option "help" none => .error .help
    | .option "verbose" none => do addAll usage (← s.addFlag "verbose") more
    | .option name given =>
      match usage.options.lookup name, given with
      | some .flag, none => do addAll usage (← s.addFlag name) more
      | some (.value repeatable accepts), some value => do
        addAll usage (← s.addValue name value repeatable accepts) more
      | some (.value repeatable accepts), none =>
        match more with
        | [] => .error .misuse
        | value :: more =>
          match Argument.ofText value with
          | .operand value => do addAll usage (← s.addValue name value repeatable accepts) more
          | _ => .error .misuse
      | _, _ => .error .misuse

end Sorted

def Usage.sort (usage : Usage) (arguments : List String) : Except Stop Sorted :=
  Sorted.addAll usage {} arguments

end CommandLine
end SchemaGraph
