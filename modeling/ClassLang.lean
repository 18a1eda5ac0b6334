import ClassLang.Text.Lines
import ClassLang.Token.Scanner
import ClassLang.Source.Positions
import ClassLang.Source.Cursor
import ClassLang.Source.Parse.Expr
import ClassLang.Source.Parse.Program
import ClassLang.Table
import ClassLang.Types.Basic
import ClassLang.Types.Error
import ClassLang.Types.Hierarchy
import ClassLang.Types.Functions
import ClassLang.Typing.Analysis
import ClassLang.Report.Diagnostic
import ClassLang.Report.Drawing
import ClassLang.Ir.Builder
import ClassLang.Ir.Layout
import ClassLang.Lowering.Allocator
import ClassLang.Lowering.Classes
import ClassLang.Lowering.Expr
import ClassLang.Lowering.Stmt
import ClassLang.Lowering.Program
import ClassLang.Text.Span
import ClassLang.Proofs.Growth
import ClassLang.Proofs.Hierarchy.Climbs
import ClassLang.Proofs.Hierarchy.Description
import ClassLang.Proofs.Hierarchy.Lineage
import ClassLang.Proofs.Hierarchy.Members
import ClassLang.Proofs.Hierarchy.Nearest
import ClassLang.Proofs.Hierarchy.Orders
import ClassLang.Proofs.Hierarchy.Resolution
import ClassLang.Proofs.Ir.Bodies
import ClassLang.Proofs.Ir.Emissions
import ClassLang.Proofs.Ir.Nesting
import ClassLang.Proofs.Ir.Operations
import ClassLang.Proofs.Ir.Placement
import ClassLang.Proofs.Ir.Closing
import ClassLang.Proofs.Ir.Results
import ClassLang.Proofs.Ir.Machine
import ClassLang.Proofs.Ir.Paths
import ClassLang.Proofs.Ir.Ranges
import ClassLang.Proofs.Ir.Sizes
import ClassLang.Proofs.Ir.Typing
import ClassLang.Proofs.Lowering.Acceptance
import ClassLang.Proofs.Lowering.Allocators
import ClassLang.Proofs.Lowering.Bodies
import ClassLang.Proofs.Lowering.Calls
import ClassLang.Proofs.Lowering.Code
import ClassLang.Proofs.Lowering.Declarations
import ClassLang.Proofs.Lowering.Definitions
import ClassLang.Proofs.Lowering.Emits
import ClassLang.Proofs.Lowering.Expressions
import ClassLang.Proofs.Lowering.Functions
import ClassLang.Proofs.Lowering.Guarantees
import ClassLang.Proofs.Lowering.Layouts
import ClassLang.Proofs.Lowering.Objects
import ClassLang.Proofs.Lowering.Programs
import ClassLang.Proofs.Lowering.Sessions
import ClassLang.Proofs.Lowering.Statements
import ClassLang.Proofs.Lowering.Yields
import ClassLang.Proofs.Source.Nodes
import ClassLang.Proofs.Source.Programs
import ClassLang.Proofs.Source.Reading
import ClassLang.Proofs.Source.Semantics
import ClassLang.Proofs.Typing.Bodies
import ClassLang.Proofs.Typing.Decision
import ClassLang.Proofs.Typing.Declarations
import ClassLang.Proofs.Typing.Denotation
import ClassLang.Proofs.Typing.Expressions
import ClassLang.Proofs.Typing.Growth
import ClassLang.Proofs.Typing.NotedPrograms
import ClassLang.Proofs.Typing.Notes
import ClassLang.Proofs.Typing.Noting
import ClassLang.Proofs.Typing.Programs
import ClassLang.Proofs.Typing.Rules
import ClassLang.Proofs.Typing.Statements
import ClassLang.Proofs.Ir.Runs
import ClassLang.Proofs.Lowering.Allocations
import ClassLang.Proofs.Lowering.Evaluation
import ClassLang.Proofs.Ir.Names
import ClassLang.Proofs.Source.Names
import ClassLang.Proofs.Lowering.Names
import ClassLang.Proofs.Lowering.Execution
import ClassLang.Proofs.Lowering.Invocations
import ClassLang.Proofs.Lowering.Preservation
import ClassLang.Proofs.Lowering.Shapes
import ClassLang.Proofs.Lowering.Safety
import ClassLang.Proofs.Hierarchy.References
import ClassLang.Proofs.Source.Parts
import ClassLang.Proofs.Source.Regions
import ClassLang.Proofs.Typing.Visits
import ClassLang.Proofs.Typing.Exactness
import ClassLang.Proofs.Typing.Tables
import ClassLang.Proofs.Typing.Scoping
import ClassLang.Proofs.Typing.Coverage
import ClassLang.Proofs.Typing.Bindings
import ClassLang.Proofs.Typing.Containment
import ClassLang.Proofs.Hierarchy.Reordering
import ClassLang.Proofs.Typing.Reordering
import ClassLang.Proofs.Typing.Fading
import ClassLang.Proofs.Typing.Sparing
import ClassLang.Proofs.Hierarchy.Outlines
import ClassLang.Proofs.Typing.Lexical
import ClassLang.Proofs.Source.Grammar
import ClassLang.Proofs.Source.Phrases
import ClassLang.Proofs.Source.Recognition
import ClassLang.Proofs.Source.Bare
import ClassLang.Proofs.Source.Lookahead
import ClassLang.Proofs.Source.Readable
import ClassLang.Proofs.Token.Sentences
import ClassLang.Proofs.Source.Derivations
import ClassLang.Proofs.Source.Acceptance
import ClassLang.Proofs.Token.Spelling
import ClassLang.Proofs.Source.Printing
import ClassLang.Proofs.Source.Printed
import ClassLang.Proofs.Source.RoundTrip
import ClassLang.Proofs.Source.Shortest
import ClassLang.Proofs.Lowering.Strangers
import ClassLang.Proofs.Typing.Outlines
import ClassLang.Proofs.Typing.Exchange
import ClassLang.Proofs.Typing.Cascades
import ClassLang.Proofs.Token.Lossless
import ClassLang.Proofs.Report.Pointing
import ClassLang.Proofs.Typing.Positions
import ClassLang.Proofs.Lowering.Accounts
import ClassLang.Proofs.Token.Concatenation
import ClassLang.Proofs.Token.Cuts
import ClassLang.Proofs.Text.Positions
import ClassLang.Proofs.Source.Identities
import ClassLang.Proofs.Source.Outcomes
import ClassLang.Proofs.Source.Locality
import ClassLang.Proofs.Source.LocalReading
import ClassLang.Proofs.Source.Partial
import ClassLang.Proofs.Source.Completions
import ClassLang.Proofs.Source.FirstFault
import ClassLang.Proofs.Hierarchy.Subtypes
import ClassLang.Proofs.Ir.Comments
import ClassLang.Proofs.Ir.Traces
import ClassLang.Proofs.Ir.Slots
import ClassLang.Proofs.Lowering.Comments
import ClassLang.Proofs.Lowering.Passages
import ClassLang.Proofs.Lowering.Listings
import ClassLang.Proofs.Lowering.Quotients
import ClassLang.Proofs.Lowering.Division
import ClassLang.Proofs.Lowering.Filling
import ClassLang.Proofs.Lowering.Arrays
import ClassLang.Proofs.Lowering.Flatness
import ClassLang.Proofs.Lowering.Crossings
import ClassLang.Proofs.Lowering.Elements
import ClassLang.Proofs.Lowering.Continuations
import ClassLang.Proofs.Lowering.Indexing
import ClassLang.Proofs.Text.Offsets
import ClassLang.Proofs.Typing.Interning
import ClassLang.Proofs.Typing.Enumerations
import ClassLang.Proofs.Lowering.Changes
import ClassLang.Proofs.Lowering.Courses
import ClassLang.Proofs.Lowering.Creations
import ClassLang.Proofs.Lowering.Memos
import ClassLang.Proofs.Typing.Copies
import ClassLang.Proofs.Typing.ArrayTypes
import ClassLang.Proofs.Source.Rounds
import ClassLang.Proofs.Source.Attempts
import ClassLang.Proofs.Source.Progress
