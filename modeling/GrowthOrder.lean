import GrowthOrder.Batch
import GrowthOrder.Bound
import GrowthOrder.Command
import GrowthOrder.Command.Arguments
import GrowthOrder.Command.Run
import GrowthOrder.Command.Session
import GrowthOrder.Construct
import GrowthOrder.Construct.Header
import GrowthOrder.Construct.Read
import GrowthOrder.Construct.Subscript
import GrowthOrder.Dialect
import GrowthOrder.Encoding
import GrowthOrder.Encoding.Utf16
import GrowthOrder.Encoding.Utf8
import GrowthOrder.Encoding.Windows1252
import GrowthOrder.Error
import GrowthOrder.Estimate.Decrement
import GrowthOrder.Estimate.Space
import GrowthOrder.Estimate.Time
import GrowthOrder.Files
import GrowthOrder.Grammar
import GrowthOrder.Json
import GrowthOrder.Main
import GrowthOrder.Output
import GrowthOrder.Output.Duration
import GrowthOrder.Output.Table
import GrowthOrder.Path
import GrowthOrder.Report
import GrowthOrder.Settings
import GrowthOrder.Settings.Entries
import GrowthOrder.Settings.Load
import GrowthOrder.Settings.OfToml
import GrowthOrder.Settings.OfYaml
import GrowthOrder.Text.CharClass
import GrowthOrder.Text.Hex
import GrowthOrder.Text.Shown
import GrowthOrder.Token
import GrowthOrder.Token.Comment
import GrowthOrder.Token.Scan
import GrowthOrder.Toml
import GrowthOrder.Toml.Document
import GrowthOrder.Toml.Lexeme
import GrowthOrder.Toml.Number
import GrowthOrder.Tree.Basic
import GrowthOrder.Tree.Builder
import GrowthOrder.Tree.Draft
import GrowthOrder.Tree.Node
import GrowthOrder.Tree.Outline
import GrowthOrder.Tree.Shape
import GrowthOrder.Yaml
import GrowthOrder.Yaml.Scalar
import GrowthOrder.Yaml.Token
import GrowthOrder.Proofs.Tree.Descent
import GrowthOrder.Proofs.Bound.Polynomial
import GrowthOrder.Proofs.Time.Cost
import GrowthOrder.Proofs.Time.PathMaximum
import GrowthOrder.Proofs.Tree.Bare
import GrowthOrder.Proofs.Draft.Spine
import GrowthOrder.Proofs.Draft.Moves
import GrowthOrder.Proofs.Draft.Placement
import GrowthOrder.Proofs.Space.Allocations
import GrowthOrder.Proofs.Time.Calls
import GrowthOrder.Proofs.Tree.Nesting
import GrowthOrder.Proofs.Token.Kinds
import GrowthOrder.Proofs.Construct.Extent
import GrowthOrder.Proofs.Draft.Run
import GrowthOrder.Proofs.Program.Syntax
import GrowthOrder.Proofs.Program.Reading
import GrowthOrder.Proofs.Program.Bounds
import GrowthOrder.Proofs.Time.Decrement
import GrowthOrder.Proofs.Routine.Syntax
import GrowthOrder.Proofs.Routine.Reading
import GrowthOrder.Proofs.Time.Recursion
import GrowthOrder.Proofs.Routine.Bounds
import GrowthOrder.Proofs.Draft.Truncation
import GrowthOrder.Proofs.Draft.Trailer
import GrowthOrder.Proofs.Draft.Unclosed
import GrowthOrder.Proofs.Tree.Outline
import GrowthOrder.Proofs.Tree.Scopes
import GrowthOrder.Proofs.Draft.Calls
import GrowthOrder.Proofs.Draft.Form
import GrowthOrder.Proofs.Draft.Order
import GrowthOrder.Proofs.Bound.Order
import GrowthOrder.Proofs.Time.Domination
import GrowthOrder.Proofs.Token.Lexemes
import GrowthOrder.Proofs.Token.Printing
import GrowthOrder.Proofs.Encoding.RoundTrip
import GrowthOrder.Proofs.Files.Paths
import GrowthOrder.Proofs.Files.Walk
import GrowthOrder.Proofs.Files.Batch
import GrowthOrder.Proofs.Construct.CallSites
import GrowthOrder.Proofs.Time.SelfCalls
import GrowthOrder.Proofs.Draft.Coverage
import GrowthOrder.Proofs.Draft.Texts
import GrowthOrder.Proofs.Time.ArgumentTokens
import GrowthOrder.Proofs.Space.ElementCount
import GrowthOrder.Proofs.Token.Comments
import GrowthOrder.Proofs.Token.Spelling
import GrowthOrder.Proofs.Token.Conservation
import GrowthOrder.Proofs.Bound.Arithmetic
import GrowthOrder.Proofs.Time.Siblings
import GrowthOrder.Proofs.Output.Alignment
import GrowthOrder.Proofs.Settings.Names
import GrowthOrder.Proofs.Token.Ends
import GrowthOrder.Proofs.Encoding.Typed
import GrowthOrder.Proofs.Construct.Positions
import GrowthOrder.Proofs.Draft.Positions
import GrowthOrder.Proofs.Draft.BareArrays
import GrowthOrder.Proofs.Space.Walk
