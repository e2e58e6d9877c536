import SchemaGen.Main
import SchemaGen.Proofs.Outcome
import SchemaGen.Proofs.Catalog
import SchemaGen.Proofs.Nesting
import SchemaGen.Proofs.Walk
import SchemaGen.Proofs.WellFormed
import SchemaGen.Proofs.Registry
import SchemaGen.Proofs.Containment
import SchemaGen.Proofs.Dotted
import SchemaGen.Proofs.Naming
import SchemaGen.Proofs.Folder
import SchemaGen.Proofs.Schedule
import SchemaGen.Proofs.Tree
import SchemaGen.Proofs.ModuleTree
import SchemaGen.Proofs.Collision
import SchemaGen.Proofs.Loading
import SchemaGen.Proofs.References
import SchemaGen.Proofs.BreadthFirst
import SchemaGen.Proofs.ImportClosure
import SchemaGen.Proofs.Registration
import SchemaGen.Proofs.RegistrationOrder
import SchemaGen.Proofs.Sketch
import SchemaGen.Proofs.WireIdentity
import SchemaGen.Proofs.Strictness
import SchemaGen.Proofs.Lookahead
import SchemaGen.Proofs.Layout
import SchemaGen.Proofs.Placement
import SchemaGen.Proofs.Grammar
import SchemaGen.Proofs.Numeral
import SchemaGen.Proofs.Spelling
import SchemaGen.Proofs.Written
import SchemaGen.Proofs.RoundTrip
import SchemaGen.Proofs.Emission
import SchemaGen.Proofs.Rescheduling
import SchemaGen.Proofs.BuiltIns
import SchemaGen.Proofs.Casing
import SchemaGen.Proofs.MemberNames
import SchemaGen.Proofs.Identifiers
import SchemaGen.Proofs.GeneratedNames
import SchemaGen.Proofs.Resolution
import SchemaGen.Proofs.Visibility
import SchemaGen.Proofs.FieldOptions
import SchemaGen.Proofs.DepthFirst
import SchemaGen.Proofs.Reaching
import SchemaGen.Proofs.FieldStatement
import SchemaGen.Proofs.Lexical
import SchemaGen.Proofs.Coverage
import SchemaGen.Proofs.IntegerLiteral
import SchemaGen.Proofs.Numbering
import SchemaGen.Proofs.Unresolved
import SchemaGen.Proofs.Paths
import SchemaGen.Proofs.Shadowing
import SchemaGen.Proofs.Literals
import SchemaGen.Proofs.Separators
import SchemaGen.Proofs.Ahead
import SchemaGen.Proofs.BlockDescent
import SchemaGen.Proofs.FileDescent
import SchemaGen.Proofs.Progress
import SchemaGen.Proofs.Matching
