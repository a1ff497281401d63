import SchemaGraph.Json.Reader
import SchemaGraph.Yaml.Reader

/-! # Reading texts

The tree of a text in either notation. -/

namespace SchemaGraph
namespace Format

/-- How deep collections may nest where their values are read. -/
def maxDepth : Format → Nat
  | .json => 127
  | .yaml => 128

/-- A record may be written as the sequence of its fields. -/
def hasSequenceRecords : Format → Bool
  | .json => true
  | .yaml => false

def readTree : Format → String → Tree
  | .json => Json.readTree
  | .yaml => Yaml.readTree

def read {α : Type} (f : Format) (root : Node → Except ReadError α) (text : String) :
    Except ReadError α := do
  let t := f.readTree text
  let a ← root t.root
  Node.finish t.complete a

end Format
end SchemaGraph
