import Arcade.Analysis
import Arcade.Command.Arguments
import Arcade.Command.Dump
import Arcade.Command.FileTree
import Arcade.Command.Log
import Arcade.Command.Path
import Arcade.Command.Run
import Arcade.Decimal.Binary
import Arcade.Decimal.Layout
import Arcade.Decimal.Literal
import Arcade.Decimal.Shortest
import Arcade.Fault
import Arcade.Indent.BlockEnds
import Arcade.Indent.Lines
import Arcade.Json
import Arcade.Main
import Arcade.Memory.Allocator
import Arcade.Memory.Block
import Arcade.Memory.Conversion
import Arcade.Memory.Element
import Arcade.Memory.Encoding
import Arcade.Memory.Record
import Arcade.Memory.Stack
import Arcade.Parse.Error
import Arcade.Parse.Grammar
import Arcade.Parse.Parser
import Arcade.Pattern.Basic
import Arcade.Pattern.Error
import Arcade.Pattern.Meaning
import Arcade.Pattern.Reader
import Arcade.Pattern.Tree
import Arcade.Position
import Arcade.Proofs.AcceptedSource
import Arcade.Proofs.BlockClosing
import Arcade.Proofs.Canonical
import Arcade.Proofs.ClosingTwice
import Arcade.Proofs.ExpressionAcceptance
import Arcade.Proofs.ExpressionReadings
import Arcade.Proofs.GlobalsIndependence
import Arcade.Proofs.IllFormedNodes
import Arcade.Proofs.Interning
import Arcade.Proofs.LineTree
import Arcade.Proofs.NameResolution
import Arcade.Proofs.OperatorAcceptance
import Arcade.Proofs.ParserAcceptance
import Arcade.Proofs.ParserReadings
import Arcade.Proofs.ParserRuns
import Arcade.Proofs.ParserTrace
import Arcade.Proofs.ProductionReadings
import Arcade.Proofs.ProgramAcceptance
import Arcade.Proofs.ProgramReadings
import Arcade.Proofs.ScopeChecker
import Arcade.Proofs.ScopeNesting
import Arcade.Proofs.StatementAcceptance
import Arcade.Proofs.StatementReadings
import Arcade.Proofs.TreeClosing
import Arcade.Proofs.Writing
import Arcade.Scan.Cursor
import Arcade.Scan.Error
import Arcade.Scan.Lexeme
import Arcade.Scan.Literal
import Arcade.Scan.Rule
import Arcade.Scan.Tokenizer
import Arcade.Scope.Basic
import Arcade.Source
import Arcade.Symbol
import Arcade.Syntax.Export
import Arcade.Syntax.Outline
import Arcade.Syntax.Printer
import Arcade.Syntax.Tree
import Arcade.Text.Blank
import Arcade.Text.CaseFold
import Arcade.Text.CharSet
import Arcade.Text.Controls
import Arcade.Text.Digit
import Arcade.Text.Extending
import Arcade.Text.Paint
import Arcade.Text.Parts
import Arcade.Text.Printable
import Arcade.Text.Quoted
import Arcade.Text.Similarity
import Arcade.Text.Utf8
import Arcade.Text.Word
import Arcade.Token.Basic
import Arcade.Token.Shown
import Arcade.Proofs.PartialClosing
import Arcade.Proofs.SplicedUnit
import Arcade.Proofs.RepeatedLineEnds
import Arcade.Proofs.RepeatedLinesParsed
import Arcade.Proofs.BlankLines
import Arcade.Proofs.AllocatorSteps
import Arcade.Proofs.AllocatorRanges
import Arcade.Proofs.LiveHandles
import Arcade.Proofs.BlockIsolation
import Arcade.Proofs.AllocatorSafety
import Arcade.Proofs.HandleValidity
import Arcade.Proofs.ScopeRuns
import Arcade.Proofs.LexemeShapes
import Arcade.Proofs.ScanCompletion
import Arcade.Proofs.ItemBytes
import Arcade.Proofs.StackItems
import Arcade.Proofs.StackRuns
import Arcade.Proofs.TextPlaces
import Arcade.Proofs.LexemeLengths
import Arcade.Proofs.RuleChoice
import Arcade.Proofs.LexemeMeaning
import Arcade.Proofs.ScannedText
import Arcade.Proofs.TokenPlaces
import Arcade.Proofs.Spellings
import Arcade.Proofs.WrittenTokens
import Arcade.Proofs.RenamedTokens
import Arcade.Proofs.ResetTokenizer
import Arcade.Proofs.IncludeNesting
import Arcade.Proofs.IncludeAtomicity
import Arcade.Proofs.TrackedBytes
import Arcade.Proofs.FirstFit
import Arcade.Proofs.MoreTokens
import Arcade.Proofs.FunctionHeads
import Arcade.Proofs.MoreTokensParsed
import Arcade.Proofs.OperandExtent
import Arcade.Proofs.OperatorGrouping
import Arcade.Proofs.ScopeRewinding
import Arcade.Proofs.Speculation
import Arcade.Proofs.LineContainment
import Arcade.Proofs.MalformedLines
import Arcade.Proofs.ConstantLines
import Arcade.Proofs.ConstantSubstitution
import Arcade.Proofs.IntegerLiterals
import Arcade.Proofs.ConstantFates
import Arcade.Proofs.ExportReader
import Arcade.Proofs.ExportLossless
import Arcade.Proofs.HoistedTrees
import Arcade.Proofs.ListedPrograms
import Arcade.Proofs.DecimalIntervals
import Arcade.Proofs.DecimalTexts
import Arcade.Proofs.EscapedTexts
import Arcade.Proofs.ListingPieces
import Arcade.Proofs.ListedTrees
import Arcade.Proofs.ListingGrammar
import Arcade.Proofs.ListingReadings
import Arcade.Proofs.AnalyzedTrees
import Arcade.Proofs.TypedAccess
import Arcade.Proofs.SplitPushes
import Arcade.Proofs.AddedEnds
import Arcade.Proofs.NearestDoubles
import Arcade.Proofs.NumberShapes
import Arcade.Proofs.FloatLiterals
import Arcade.Proofs.IntegerCasts
import Arcade.Proofs.EncodedText
import Arcade.Proofs.TextFields
import Arcade.Proofs.LiveBlocks
import Arcade.Proofs.BlockElements
import Arcade.Proofs.PackedRecords
import Arcade.Proofs.CollectionCadence
