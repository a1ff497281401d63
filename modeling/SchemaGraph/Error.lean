import SchemaGraph.CatalogError
import SchemaGraph.ResolveError

/-! # Errors

Everything that can go wrong between a token list and a document. -/

namespace SchemaGraph

inductive Error where
  | decode (cause : DecodeError)
  | unresolved (reference : String) (cause : ResolveError)
  /-- A type is given another number of arguments than it declares. -/
  | arityMismatch (name : String) (expected found : Nat)
  | recursionLimit (reference : String) (limit : Nat)
  /-- A component is reserved but not finished. -/
  | pendingSchema (key : String)
  | catalog (cause : CatalogError)
deriving Repr, DecidableEq, Inhabited

def Error.message : Error → String
  | .decode cause => cause.message
  | .unresolved reference cause =>
    "Unresolved type reference '" ++ reference ++ "': " ++ cause.message
  | .arityMismatch name expected found =>
    "Type '" ++ name ++ "' expects " ++ toString expected ++ " generic argument(s), found " ++
      toString found
  | .recursionLimit reference limit =>
    "Type reference '" ++ reference ++ "' nests deeper than " ++ toString limit ++ " levels"
  | .pendingSchema key => "Schema '" ++ key ++ "' is still pending compilation"
  | .catalog cause => "Catalog Error: " ++ cause.detail

end SchemaGraph
