import SelectorCompiler.CommandLine.Options
import SelectorCompiler.CommandLine.Run
import SelectorCompiler.Compilation.Path
import SelectorCompiler.Compilation.Predicate
import SelectorCompiler.Error
import SelectorCompiler.Files
import SelectorCompiler.Json.Numeral
import SelectorCompiler.Json.Quoted
import SelectorCompiler.Json.Reader
import SelectorCompiler.Json.Token
import SelectorCompiler.Json.Value
import SelectorCompiler.Json.Writer
import SelectorCompiler.Language
import SelectorCompiler.Main
import SelectorCompiler.Memo.Basic
import SelectorCompiler.Memo.Command
import SelectorCompiler.OrderedMap
import SelectorCompiler.Proofs.CommandLine.Isolation
import SelectorCompiler.Proofs.CommandLine.Output
import SelectorCompiler.Proofs.CommandLine.Records
import SelectorCompiler.Proofs.CommandLine.Safekeeping
import SelectorCompiler.Proofs.CommandLine.Transparency
import SelectorCompiler.Proofs.CommandLine.Warnings
import SelectorCompiler.Proofs.Compilation.ClassWords
import SelectorCompiler.Proofs.Compilation.Composition
import SelectorCompiler.Proofs.Compilation.Conditions
import SelectorCompiler.Proofs.Compilation.Legibility
import SelectorCompiler.Proofs.Compilation.Meaning
import SelectorCompiler.Proofs.Compilation.Position
import SelectorCompiler.Proofs.Compilation.Priority
import SelectorCompiler.Proofs.Compilation.Progression
import SelectorCompiler.Proofs.Compilation.PseudoLanguage
import SelectorCompiler.Proofs.Compilation.Recovery
import SelectorCompiler.Proofs.Compilation.Union
import SelectorCompiler.Proofs.Document
import SelectorCompiler.Proofs.Json.OneLine
import SelectorCompiler.Proofs.Memo.Agreement
import SelectorCompiler.Proofs.Memo.History
import SelectorCompiler.Proofs.Memo.Reloading
import SelectorCompiler.Proofs.Memo.Replacement
import SelectorCompiler.Proofs.OrderedMap
import SelectorCompiler.Proofs.Query.Commas
import SelectorCompiler.Proofs.Query.Effect
import SelectorCompiler.Proofs.Query.Growth
import SelectorCompiler.Proofs.Query.Order
import SelectorCompiler.Proofs.Query.Outcome
import SelectorCompiler.Proofs.Query.Transparency
import SelectorCompiler.Proofs.Selector.Grammar
import SelectorCompiler.Proofs.Selector.Json
import SelectorCompiler.Proofs.Selector.Locality
import SelectorCompiler.Proofs.Selector.NthChild
import SelectorCompiler.Proofs.Selector.OwnText
import SelectorCompiler.Proofs.Selector.Parts
import SelectorCompiler.Proofs.Selector.Reading
import SelectorCompiler.Proofs.Selector.Restarting
import SelectorCompiler.Proofs.Selector.Tiling
import SelectorCompiler.Proofs.Selector.Writing
import SelectorCompiler.Proofs.Text.Enclosure
import SelectorCompiler.Proofs.Text.Trimming
import SelectorCompiler.Proofs.Text.Words
import SelectorCompiler.Proofs.Warning
import SelectorCompiler.Proofs.XPath.Evaluation
import SelectorCompiler.Query.Basic
import SelectorCompiler.Query.Session
import SelectorCompiler.Selector.Cursor
import SelectorCompiler.Selector.Json
import SelectorCompiler.Selector.NthChild
import SelectorCompiler.Selector.Parts
import SelectorCompiler.Selector.Reading
import SelectorCompiler.Selector.Segment
import SelectorCompiler.Terminal
import SelectorCompiler.Text.Delimited
import SelectorCompiler.Text.WhiteSpace
import SelectorCompiler.Warning
import SelectorCompiler.XPath.Expr
import SelectorCompiler.XPath.Path
