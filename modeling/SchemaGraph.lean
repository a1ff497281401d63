import SchemaGraph.Main
import SchemaGraph.Proofs.Compile.Plan
import SchemaGraph.Proofs.Compile.Atomicity
import SchemaGraph.Proofs.Compile.Denotation
import SchemaGraph.Proofs.Document.Components
import SchemaGraph.Proofs.Document.Pointers
import SchemaGraph.Proofs.Compile.Calls
import SchemaGraph.Proofs.Compile.Closure
import SchemaGraph.Proofs.Key
import SchemaGraph.Proofs.Token
import SchemaGraph.Proofs.Reference.Names
import SchemaGraph.Proofs.Compile.Order
import SchemaGraph.Proofs.Compile.Refinement
import SchemaGraph.Proofs.Reference.Spelling
import SchemaGraph.Proofs.Compile.Component
import SchemaGraph.Proofs.Compile.Coverage
import SchemaGraph.Proofs.Compile.Orphans
import SchemaGraph.Proofs.Document.Leniency
import SchemaGraph.Proofs.Catalog.FullNames
import SchemaGraph.Proofs.Key.Escapes
import SchemaGraph.Proofs.Compile.Rollback
import SchemaGraph.Proofs.Compile.Depth
import SchemaGraph.Proofs.Compile.Nesting
import SchemaGraph.Proofs.Compile.Respelling
import SchemaGraph.Proofs.Reference.Prefixes
import SchemaGraph.Proofs.Reference.Cursor
import SchemaGraph.Proofs.Compile.Arity
import SchemaGraph.Proofs.Compile.Legality
import SchemaGraph.Proofs.Compile.Recompilation
import SchemaGraph.Proofs.Identity.Display
import SchemaGraph.Proofs.Token.Grammar
import SchemaGraph.Proofs.Catalog.Writability
import SchemaGraph.Proofs.Reference.Display
import SchemaGraph.Proofs.Compile.ReadOnly
import SchemaGraph.Proofs.Reference.Substitution
import SchemaGraph.Proofs.Catalog.InsertionOrder
import SchemaGraph.Proofs.Document.Emission
