import HostSql.CommandLine.Arguments
import HostSql.CommandLine.Session
import HostSql.Config
import HostSql.Diff
import HostSql.Event
import HostSql.Files.Discover
import HostSql.Files.Glob
import HostSql.Files.Path
import HostSql.Files.Tree
import HostSql.Files.Workspace
import HostSql.Formatter
import HostSql.Host.Fragment
import HostSql.Host.Literal
import HostSql.Host.Locate
import HostSql.Layout.Comments
import HostSql.Layout.Lines
import HostSql.Layout.Refine
import HostSql.Main
import HostSql.Mask
import HostSql.Pipeline
import HostSql.Pretty.Layout
import HostSql.Pretty.Token
import HostSql.Pretty.Words
import HostSql.Proofs.Blocks
import HostSql.Proofs.Clauses
import HostSql.Proofs.Contents
import HostSql.Proofs.Expressions
import HostSql.Proofs.Files.Discovery
import HostSql.Proofs.Files.SearchOrder
import HostSql.Proofs.Files.Writes
import HostSql.Proofs.Host.Alike
import HostSql.Proofs.Host.Bytes
import HostSql.Proofs.Host.Calls
import HostSql.Proofs.Host.Decomposition
import HostSql.Proofs.Host.Fits
import HostSql.Proofs.Host.Markers
import HostSql.Proofs.Host.Places
import HostSql.Proofs.Host.Progress
import HostSql.Proofs.Host.Relocation
import HostSql.Proofs.Host.Shape
import HostSql.Proofs.Host.Steps
import HostSql.Proofs.Layout.Comments
import HostSql.Proofs.Layout.Locations
import HostSql.Proofs.Layout.Refine
import HostSql.Proofs.LineEndings
import HostSql.Proofs.Mask.Arrangement
import HostSql.Proofs.Mask.Braces
import HostSql.Proofs.Mask.Nesting
import HostSql.Proofs.Mask.Numbering
import HostSql.Proofs.Mask.Reformat
import HostSql.Proofs.Mask.Tokens
import HostSql.Proofs.Mask.Unmask
import HostSql.Proofs.Placement
import HostSql.Proofs.Repetition
import HostSql.Proofs.Run
import HostSql.Proofs.Schedule
import HostSql.Proofs.Splice.Chain
import HostSql.Proofs.Splice.Change
import HostSql.Proofs.Splice.Located
import HostSql.Proofs.Splice.Relocation
import HostSql.Proofs.Splice.Weave
import HostSql.Proofs.Stability
import HostSql.Proofs.Text.Cuts
import HostSql.Proofs.Text.Holds
import HostSql.Proofs.Text.Search
import HostSql.Replacement
import HostSql.Report
import HostSql.Run
import HostSql.Settings
import HostSql.Splice
import HostSql.Sql.Dialect
import HostSql.Sql.Grammar
import HostSql.Sql.Grammar.Call
import HostSql.Sql.Grammar.Change
import HostSql.Sql.Grammar.Cursor
import HostSql.Sql.Grammar.DataType
import HostSql.Sql.Grammar.Definition
import HostSql.Sql.Grammar.Literal
import HostSql.Sql.Grammar.Names
import HostSql.Sql.Grammar.Operand
import HostSql.Sql.Grammar.Operator
import HostSql.Sql.Grammar.Parser
import HostSql.Sql.Grammar.Query
import HostSql.Sql.Grammar.Rules
import HostSql.Sql.Grammar.Stage
import HostSql.Sql.Grammar.Statement
import HostSql.Sql.Grammar.Table
import HostSql.Sql.Grammar.Transfer
import HostSql.Sql.Lexer
import HostSql.Sql.Token
import HostSql.Standard
import HostSql.Text.Basic
import HostSql.Text.Letters
import HostSql.Text.Quoted
import HostSql.Toml.Document
import HostSql.Toml.Number
import HostSql.Toml.Quoted
import HostSql.Toml.Scan
import HostSql.Toml.Tables
import HostSql.Toml.Value
import HostSql.Transform
