import SchemaGraph.Document.References
import SchemaGraph.Files.FileError
import SchemaGraph.Text.Quoted

/-! # Outcomes

How a command ends: its exit code and what it prints. -/

namespace SchemaGraph
namespace CommandLine

inductive Failure where
  | file (cause : FileError)
  | schema (cause : Error)
  /-- The reference list, written in the notation, cannot be read. -/
  | referenceList (format : Format) (cause : ReadError)
  | reference (name : String) (cause : Error)
  | outputDirectory (cause : FileError)
  | output (cause : FileError)
  | noTokens
  /-- No identity has the key. -/
  | noKey (key : String)
deriving Repr, DecidableEq, Inhabited

namespace Failure

def record (name : String) (fields : List (String × String)) : String :=
  name ++ " \x7b " ++ ", ".intercalate (fields.map fun (n, v) => n ++ ": " ++ v) ++ " \x7d"

def labelled (name argument : String) : String := name ++ "(" ++ argument ++ ")"

def quotedList (texts : List String) : String :=
  "[" ++ ", ".intercalate (texts.map Text.quoted) ++ "]"

def resolveText : ResolveError → String
  | .notFound name searched =>
    record "TypeNotFound" [("name", Text.quoted name), ("searched", quotedList searched)]
  | .ambiguous name candidates =>
    record "AmbiguousType" [("name", Text.quoted name), ("candidates", quotedList candidates)]

def schemaText : Error → String
  | .decode cause =>
    labelled
      (if cause.isMalformed then "MalformedGenericReference" else "OutOfOrderGenericReference")
      (Text.quoted cause.detail)
  | .unresolved display cause =>
    record "UnresolvedTypeReference"
      [("reference", Text.quoted display), ("source", resolveText cause)]
  | .arityMismatch name expected found =>
    record "GenericArityMismatch"
      [("name", Text.quoted name), ("expected", toString expected), ("found", toString found)]
  | .recursionLimit display limit =>
    record "RecursionLimit" [("reference", Text.quoted display), ("limit", toString limit)]
  | .pendingSchema key => labelled "PendingSchema" (Text.quoted key)
  | .catalog cause => labelled "Catalog" (Text.quoted cause.detail)

def fileText (e : FileError) : String :=
  labelled "Io" (record "Os"
    [("code", toString e.code), ("kind", e.kind), ("message", Text.quoted e.detail)])

def general (message : String) : String := labelled "General" (Text.quoted message)

def text : Failure → String
  | .file cause => fileText cause
  | .schema cause => schemaText cause
  | .referenceList format cause => general ("Failed to parse reference list" ++ cause.suffix format)
  | .reference name cause =>
    general ("Failed to compile reference '" ++ name ++ "': " ++ cause.message)
  | .outputDirectory cause => general ("Failed to create output dir: " ++ cause.message)
  | .output cause => general ("Failed to write document: " ++ cause.message)
  | .noTokens => general "no tokens given"
  | .noKey key => general ("'" ++ key ++ "' is not a sanitized key")

def ofDocument : Document.Failure → Failure
  | .reference name cause => .reference name cause
  | .document cause => .schema cause

end Failure

inductive Outcome where
  | done (output : String)
  | failed (cause : Failure)
  /-- The arguments are no request and the text says how to give one. -/
  | misuse (advice : String)
  /-- The text says how to give a request, as it was asked for. -/
  | help (advice : String)
deriving Repr, DecidableEq, Inhabited

namespace Outcome

def exit : Outcome → Nat
  | .done _ | .help _ => 0
  | .failed _ => 1
  | .misuse _ => 2

def output : Outcome → String
  | .done output => output
  | _ => ""

def report : Outcome → String
  | .done _ => ""
  | .failed cause => "Error: " ++ cause.text
  | .misuse advice | .help advice => advice

end Outcome
end CommandLine
end SchemaGraph
