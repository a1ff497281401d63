import SchemaGraph.Data.ReadError

/-! # Catalog errors

Why a catalog does not take in a descriptor or a text. -/

namespace SchemaGraph

inductive CatalogError where
  | unnamed
  | duplicate (name : String)
  | unreadable (source : String) (format : Format) (cause : ReadError)
deriving Repr, DecidableEq, Inhabited

def CatalogError.detail : CatalogError → String
  | .unnamed => "type descriptor without a name"
  | .duplicate name => "type '" ++ name ++ "' is declared more than once"
  | .unreadable source format cause =>
    "Failed to parse catalog '" ++ source ++ "'" ++ cause.suffix format

end SchemaGraph
