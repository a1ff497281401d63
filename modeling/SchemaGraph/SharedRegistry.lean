import SchemaGraph.Compile

/-! # Shared registries

A registry behind a lock, for several builders of one document. The lock is held for a whole
compilation, so no other builder sees a pending entry. A builder that dies with the lock in its
hands leaves it poisoned, and nobody gets it again. -/

namespace SchemaGraph

inductive SharedError where
  | poisoned
  | compile (cause : Error)
deriving Repr, DecidableEq, Inhabited

def SharedError.message : SharedError → String
  | .poisoned => "General Error: schema registry lock poisoned"
  | .compile cause => cause.message

structure SharedRegistry where
  registry : Registry := .empty
  poisoned : Bool := false
deriving Inhabited

namespace SharedRegistry

def compile (s : SharedRegistry) (c : Catalog) (r : Reference) :
    Except SharedError Schema × SharedRegistry :=
  if s.poisoned then (.error .poisoned, s)
  else
    match c.compile r s.registry with
    | (.ok n, g) => (.ok n, { s with registry := g })
    | (.error e, g) => (.error (.compile e), { s with registry := g })

def snapshot (s : SharedRegistry) : Except SharedError Registry :=
  if s.poisoned then .error .poisoned else .ok s.registry

/-- Drops every entry before another document is built. -/
def reset (s : SharedRegistry) : Except SharedError Unit × SharedRegistry :=
  if s.poisoned then (.error .poisoned, s) else (.ok (), { s with registry := .empty })

end SharedRegistry
end SchemaGraph
