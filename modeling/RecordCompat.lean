import RecordCompat.Change
import RecordCompat.Command.Arguments
import RecordCompat.Command.Check
import RecordCompat.Comparison
import RecordCompat.Files.Bracket
import RecordCompat.Files.Discovery
import RecordCompat.Files.Disk
import RecordCompat.Files.Glob
import RecordCompat.Files.Ignore
import RecordCompat.Files.Matcher
import RecordCompat.Files.Path
import RecordCompat.FirstBy
import RecordCompat.Journal
import RecordCompat.Json
import RecordCompat.Main
import RecordCompat.Pairing
import RecordCompat.Proofs.Pairing
import RecordCompat.Record
import RecordCompat.Report
import RecordCompat.Source.Comment
import RecordCompat.Source.Extraction
import RecordCompat.Source.Header
import RecordCompat.Source.Lexeme
import RecordCompat.Source.Literal
import RecordCompat.Source.Parameter
import RecordCompat.Source.Split
import RecordCompat.Terminal
import RecordCompat.Text.Blank
import RecordCompat.Text.Printable
import RecordCompat.Text.Quoted
import RecordCompat.Text.Utf8
import RecordCompat.Text.Word
import RecordCompat.Proofs.PairingNames
import RecordCompat.Proofs.PairingFiles
import RecordCompat.Proofs.History
import RecordCompat.Proofs.Literals
import RecordCompat.Proofs.Rendering
import RecordCompat.Proofs.Nesting
import RecordCompat.Proofs.ParameterReading
import RecordCompat.Proofs.Splitting
import RecordCompat.Proofs.HeaderSearch
import RecordCompat.Proofs.RoundTrip
import RecordCompat.Proofs.PairingBalance
import RecordCompat.Proofs.ClosedLists
import RecordCompat.Proofs.HeaderPlaces
import RecordCompat.Proofs.Attempts
import RecordCompat.Proofs.Verdict
import RecordCompat.Proofs.SourceHistory
import RecordCompat.Proofs.StrippedText
import RecordCompat.Proofs.CheckedExtraction
import RecordCompat.Proofs.ExtractedRecords
import RecordCompat.Proofs.SilentChanges
import RecordCompat.Proofs.UnchangedSource
import RecordCompat.Proofs.MovedRecords
import RecordCompat.Proofs.PrintedFindings
import RecordCompat.Proofs.ReportedVerdict
import RecordCompat.Proofs.OutputForms
import RecordCompat.Proofs.SoundDisks
import RecordCompat.Proofs.GlobSearch
import RecordCompat.Proofs.SpelledPaths
import RecordCompat.Proofs.DiscoveredPairs
import RecordCompat.Proofs.DirectoryMode
import RecordCompat.Proofs.RefusedInput
import RecordCompat.Proofs.AgreeingDisks
import RecordCompat.Proofs.IdleFiles
import RecordCompat.Proofs.FoundChanges
import RecordCompat.Proofs.OppositeDirection
import RecordCompat.Proofs.FieldEdits
import RecordCompat.Proofs.DocumentReader
import RecordCompat.Proofs.RecoveredReports
import RecordCompat.Proofs.JoinedParameters
import RecordCompat.Proofs.HeaderLanguage
import RecordCompat.Proofs.DeclaredProperties
import RecordCompat.Proofs.NullableTypes
import RecordCompat.Proofs.LineNumbers
import RecordCompat.Proofs.LiteralGrammar
import RecordCompat.Proofs.ListScans
import RecordCompat.Proofs.StrayQuotes
import RecordCompat.Proofs.DecidingLines
import RecordCompat.Proofs.AddedExclusions
import RecordCompat.Proofs.PatternPieces
import RecordCompat.Proofs.PlainPatterns
import RecordCompat.Proofs.FrameStacks
import RecordCompat.Proofs.IndexReaders
import RecordCompat.Proofs.ReaderProgress
import RecordCompat.Proofs.RecordConstruction
