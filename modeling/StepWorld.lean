import StepWorld.Archive
import StepWorld.Archive.Document
import StepWorld.Archive.Error
import StepWorld.Archive.Files
import StepWorld.Archive.Memory
import StepWorld.Cancellation
import StepWorld.Chance
import StepWorld.Console
import StepWorld.Document.Check
import StepWorld.Document.Expr
import StepWorld.Document.Json
import StepWorld.Engine.Basic
import StepWorld.Engine.Lifecycle
import StepWorld.Engine.Loop
import StepWorld.Engine.Schedule
import StepWorld.Engine.Specifications
import StepWorld.Engine.Step
import StepWorld.Evaluation
import StepWorld.Expr
import StepWorld.Folder
import StepWorld.Number.Binary
import StepWorld.Number.Fault
import StepWorld.Number.Layout
import StepWorld.Number.Parsing
import StepWorld.Number.Shortest
import StepWorld.Options
import StepWorld.Path
import StepWorld.Program
import StepWorld.Proofs.Engine.TerminalStep
import StepWorld.Proofs.Syntax.ExpressionGrammar
import StepWorld.Rest
import StepWorld.Review
import StepWorld.Scenario
import StepWorld.Settings
import StepWorld.Simulation
import StepWorld.Specification
import StepWorld.Syntax.Declaration
import StepWorld.Syntax.Error
import StepWorld.Syntax.Expression
import StepWorld.Syntax.Scan
import StepWorld.Syntax.Token
import StepWorld.Syntax.Tokenize
import StepWorld.Table
import StepWorld.Text.Blank
import StepWorld.Text.Digit
import StepWorld.Text.Printable
import StepWorld.Text.Quoted
import StepWorld.Text.Upper
import StepWorld.Text.Word
import StepWorld.Value
import StepWorld.Value.Sharing
import StepWorld.World.Ambient
import StepWorld.World.Arena
import StepWorld.World.Basic
import StepWorld.World.Change
import StepWorld.World.Effect
import StepWorld.World.Execution
import StepWorld.World.LoneEffect
import StepWorld.Proofs.Archive.FileShelf
import StepWorld.Proofs.Archive.Shelf
import StepWorld.Proofs.Engine.Iteration
import StepWorld.Proofs.Engine.LoneLoop
import StepWorld.Proofs.World.ChangeLog
import StepWorld.Proofs.Engine.Refinement
import StepWorld.Proofs.Engine.Pausing
import StepWorld.Proofs.Engine.EarlyStop
import StepWorld.Proofs.Engine.Bookkeeping
import StepWorld.Proofs.Syntax.Tiling
import StepWorld.Proofs.Syntax.ProgramGrammar
import StepWorld.Proofs.Engine.RuleRuns
import StepWorld.Proofs.Review.Valid
import StepWorld.Proofs.Archive.Filing
import StepWorld.Proofs.Archive.Kinds
import StepWorld.Proofs.Engine.Deeds
import StepWorld.Proofs.Engine.Interleaving
import StepWorld.Proofs.Engine.Faultless
import StepWorld.Proofs.Engine.HistoryWindow
import StepWorld.Proofs.Document.Respelling
import StepWorld.Proofs.Syntax.Concatenation
import StepWorld.Proofs.Engine.Registry
import StepWorld.Proofs.Syntax.Rendering
import StepWorld.Proofs.World.Upkeep
import StepWorld.Proofs.World.Addressed
import StepWorld.Proofs.Engine.Attempts
import StepWorld.Proofs.Review.Reported
import StepWorld.Proofs.Syntax.Respacing
import StepWorld.Proofs.Document.FreeForm
import StepWorld.Proofs.World.Draws
import StepWorld.Proofs.World.OwnWrites
import StepWorld.Proofs.Review.Balanced
import StepWorld.Proofs.Syntax.ErrorPlaces
import StepWorld.Proofs.Engine.Counters
import StepWorld.Proofs.Engine.Deletion
import StepWorld.Proofs.World.Likeness
import StepWorld.Proofs.World.Clauses
import StepWorld.Proofs.Engine.Taking
import StepWorld.Proofs.Engine.Statistics
import StepWorld.Proofs.Engine.Listing
import StepWorld.Proofs.Syntax.Traversal
import StepWorld.Proofs.Syntax.OperatorRuns
