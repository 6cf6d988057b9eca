import ProtoSchema.Text.Basic
import ProtoSchema.Text.Blank
import ProtoSchema.Text.Quoted
import ProtoSchema.Decimal.Shortest
import ProtoSchema.Literal.Escape
import ProtoSchema.Token.Basic
import ProtoSchema.Problem.Source
import ProtoSchema.Token.Lexeme
import ProtoSchema.Token.Lexer
import ProtoSchema.Schema.Basic
import ProtoSchema.Grammar.Symbol
import ProtoSchema.Grammar.Rules
import ProtoSchema.Grammar.Tree
import ProtoSchema.Grammar.Automaton
import ProtoSchema.Grammar.Machine
import ProtoSchema.Schema.Parse
import ProtoSchema.Problem.Report
import ProtoSchema.Json.Basic
import ProtoSchema.Schema.Json
import ProtoSchema.Name.Dotted
import ProtoSchema.Descriptor.Basic
import ProtoSchema.Linker.Basic
import ProtoSchema.Linker.Declare
import ProtoSchema.Linker.Resolve
import ProtoSchema.Linker.Default
import ProtoSchema.Linker.Link
import ProtoSchema.Linker.Load
import ProtoSchema.Text.Capital
import ProtoSchema.FileTree.Path
import ProtoSchema.FileTree.Basic
import ProtoSchema.Linker.Files
import ProtoSchema.Pool.Basic
import ProtoSchema.Pool.Imports
import ProtoSchema.Pool.Lifecycle
import ProtoSchema.Pool.Query
import ProtoSchema.Descriptor.Render
import ProtoSchema.Cli.Arguments
import ProtoSchema.Text.Similarity
import ProtoSchema.Screen.Message
import ProtoSchema.Screen.Markup
import ProtoSchema.Screen.Table
import ProtoSchema.Cli.Run
import ProtoSchema.Main
import ProtoSchema.Proofs.Places
import ProtoSchema.Proofs.Descriptor.Index
import ProtoSchema.Proofs.Name.Words
import ProtoSchema.Proofs.Decimal.Overflow
import ProtoSchema.Proofs.Token.Language
import ProtoSchema.Proofs.Token.Literal
import ProtoSchema.Proofs.Token.Whole
import ProtoSchema.Proofs.Token.Legible
import ProtoSchema.Proofs.Token.Cut
import ProtoSchema.Proofs.Grammar.Derivation
import ProtoSchema.Proofs.Grammar.Piece
import ProtoSchema.Proofs.Grammar.Phrase
import ProtoSchema.Proofs.Grammar.Written
import ProtoSchema.Proofs.Grammar.Leavings
import ProtoSchema.Proofs.Grammar.Agreement
import ProtoSchema.Proofs.Grammar.Exploration
import ProtoSchema.Proofs.Grammar.Lookahead
import ProtoSchema.Proofs.Grammar.Closure
import ProtoSchema.Proofs.Grammar.Outcome
import ProtoSchema.Proofs.Grammar.Steps
import ProtoSchema.Proofs.Grammar.Followers
import ProtoSchema.Proofs.Grammar.Acceptance
import ProtoSchema.Proofs.Grammar.Viability
import ProtoSchema.Proofs.Grammar.Refinement
import ProtoSchema.Proofs.Schema.Parsed
import ProtoSchema.Proofs.Schema.Worded
import ProtoSchema.Proofs.Schema.Accepted
import ProtoSchema.Proofs.Schema.Faults
import ProtoSchema.Proofs.Schema.Fields
import ProtoSchema.Proofs.Grammar.Refusal
import ProtoSchema.Proofs.Schema.Listing
import ProtoSchema.Proofs.Schema.Quoting
import ProtoSchema.Proofs.Linker.Step
import ProtoSchema.Proofs.Linker.Coherence
import ProtoSchema.Proofs.Linker.Meaning
import ProtoSchema.Proofs.Linker.Extensions
import ProtoSchema.Proofs.Linker.Diagnostics
import ProtoSchema.Proofs.Linker.Linked
import ProtoSchema.Proofs.Linker.Outline
import ProtoSchema.Proofs.Linker.Clean
import ProtoSchema.Proofs.Linker.Holdings
import ProtoSchema.Proofs.Linker.Reordering
import ProtoSchema.Proofs.Linker.Shuffled
import ProtoSchema.Proofs.Linker.Alongside
import ProtoSchema.Proofs.Linker.Nesting
import ProtoSchema.Proofs.Linker.Passes
import ProtoSchema.Proofs.Linker.Hidden
import ProtoSchema.Proofs.Tables.Integrity
import ProtoSchema.Proofs.Tables.Names
import ProtoSchema.Proofs.Tables.Complete
import ProtoSchema.Proofs.Tables.LoadOrder
import ProtoSchema.Proofs.Tables.Preorder
import ProtoSchema.Proofs.Tables.Sources
import ProtoSchema.Proofs.Tables.Numbers
import ProtoSchema.Proofs.Linker.Outcome
import ProtoSchema.Proofs.Linker.Notes
import ProtoSchema.Proofs.Linker.Dropped
import ProtoSchema.Proofs.Linker.Holders
import ProtoSchema.Proofs.Tables.Traceless
import ProtoSchema.Proofs.Pool.Lifecycle
import ProtoSchema.Proofs.Pool.Questions
import ProtoSchema.Proofs.Pool.Handles
import ProtoSchema.Proofs.Pool.Twins
import ProtoSchema.Proofs.Pool.Rebuilding
import ProtoSchema.Proofs.Pool.Loading
import ProtoSchema.Proofs.Pool.Refusals
import ProtoSchema.Proofs.FileTree.Location
import ProtoSchema.Proofs.Linker.Redefinitions
import ProtoSchema.Proofs.Linker.Forgetting
import ProtoSchema.Proofs.Linker.Spelled
import ProtoSchema.Proofs.Pool.Steady
import ProtoSchema.Proofs.Pool.Imports
import ProtoSchema.Proofs.Pool.Lookups
import ProtoSchema.Proofs.Pool.Declared
import ProtoSchema.Proofs.Pool.Thorough
import ProtoSchema.Proofs.Cli.Check
import ProtoSchema.Proofs.Literal.Digits
import ProtoSchema.Proofs.Decimal.Written
import ProtoSchema.Proofs.Descriptor.Clauses
import ProtoSchema.Proofs.Descriptor.Rendered
import ProtoSchema.Proofs.Descriptor.Reparsed
import ProtoSchema.Proofs.Descriptor.Writable
import ProtoSchema.Proofs.Pool.Rendering
import ProtoSchema.Proofs.Tables.Dialects
import ProtoSchema.Proofs.Linker.Contents
import ProtoSchema.Proofs.Linker.Retold
import ProtoSchema.Proofs.Linker.Worklist
import ProtoSchema.Proofs.Linker.Innermost
import ProtoSchema.Proofs.Tables.Defaults
import ProtoSchema.Proofs.Linker.Stages
import ProtoSchema.Proofs.Tables.Extended
import ProtoSchema.Proofs.Pool.Accessors
import ProtoSchema.Proofs.Tables.Origins
import ProtoSchema.Proofs.Tables.Maps
import ProtoSchema.Proofs.Linker.Founded
import ProtoSchema.Proofs.Tables.Enums
import ProtoSchema.Proofs.Schema.Groups
import ProtoSchema.Proofs.Tables.Groups
import ProtoSchema.Proofs.Linker.Repeated
import ProtoSchema.Proofs.Descriptor.Relinked
import ProtoSchema.Proofs.Pool.Following
import ProtoSchema.Proofs.Pool.Views
import ProtoSchema.Proofs.Pool.Visits
import ProtoSchema.Proofs.Pool.Directories
import ProtoSchema.Proofs.Token.Placed
import ProtoSchema.Proofs.Schema.Placed
import ProtoSchema.Proofs.Literal.Pieces
import ProtoSchema.Proofs.Grammar.Numbers
import ProtoSchema.Proofs.Schema.Entries
import ProtoSchema.Proofs.Schema.Aggregates
import ProtoSchema.Proofs.Token.Exchange
import ProtoSchema.Proofs.Token.Scans
import ProtoSchema.Proofs.Grammar.Namings
import ProtoSchema.Proofs.Grammar.Traces
import ProtoSchema.Proofs.Grammar.Fronts
import ProtoSchema.Proofs.Schema.Moved
import ProtoSchema.Proofs.Schema.Renamed
import ProtoSchema.Proofs.Schema.Renaming
