/-! # Resolution errors

Why a name does not identify exactly one type. -/

namespace SchemaGraph

inductive ResolveError where
  /-- No type has the name in any of the sources. -/
  | notFound (name : String) (searched : List String)
  | ambiguous (name : String) (candidates : List String)
deriving Repr, DecidableEq, Inhabited

namespace ResolveError

def message : ResolveError → String
  | .notFound name searched =>
    "type '" ++ name ++ "' not found (searched: " ++ ", ".intercalate searched ++ ")"
  | .ambiguous name candidates =>
    "type '" ++ name ++ "' is ambiguous; candidates: " ++ ", ".intercalate candidates

end ResolveError
end SchemaGraph
