import ColorBasic.Address
import ColorBasic.CodeText
import ColorBasic.CommandLine
import ColorBasic.CommandLine.Failure
import ColorBasic.CommandLine.Options
import ColorBasic.Container
import ColorBasic.Container.Metadata
import ColorBasic.Conversion
import ColorBasic.Diagnostic
import ColorBasic.Dump
import ColorBasic.Dump.Annotation
import ColorBasic.Error
import ColorBasic.HexView
import ColorBasic.HiddenColon
import ColorBasic.Json
import ColorBasic.Json.Number
import ColorBasic.Lexeme
import ColorBasic.Line
import ColorBasic.Log
import ColorBasic.Machine
import ColorBasic.Machine.Keywords
import ColorBasic.Machine.Table
import ColorBasic.Main
import ColorBasic.Outcome
import ColorBasic.Program
import ColorBasic.Reference
import ColorBasic.Renumbering
import ColorBasic.Respacing
import ColorBasic.Segment
import ColorBasic.Session
import ColorBasic.Settings
import ColorBasic.Spacing
import ColorBasic.Text.Blank
import ColorBasic.Text.CharRanges
import ColorBasic.Text.DecimalDigit
import ColorBasic.Text.Encoding
import ColorBasic.Text.Extending
import ColorBasic.Text.Lines
import ColorBasic.Text.Literal
import ColorBasic.Text.Numeral
import ColorBasic.Text.Quoted
import ColorBasic.Text.Unprintable
import ColorBasic.Token
import ColorBasic.TokenTable
import ColorBasic.Proofs.TableLookup
import ColorBasic.Proofs.LineLexemes
import ColorBasic.Proofs.StoredCode
import ColorBasic.Proofs.DumpGrammar
import ColorBasic.Proofs.ListingLines
import ColorBasic.Proofs.ProgramOrder
import ColorBasic.Proofs.RoundTrip
import ColorBasic.Proofs.Reconvergence
import ColorBasic.Proofs.ReferenceScan
import ColorBasic.Proofs.TargetLists
import ColorBasic.Proofs.JumpStructure
import ColorBasic.Proofs.SettledNumbers
import ColorBasic.Proofs.KeywordSearch
import ColorBasic.Proofs.LineScan
import ColorBasic.Proofs.SpacingSteps
import ColorBasic.Proofs.Rescan
import ColorBasic.Proofs.SafeSpacing
import ColorBasic.Proofs.RespacedLines
import ColorBasic.Proofs.RespacedListing
import ColorBasic.Proofs.Reporting
import ColorBasic.Proofs.StepwiseConversion
import ColorBasic.Proofs.SessionHistory
import ColorBasic.Proofs.DumpReaders
import ColorBasic.Proofs.SilentLoss
import ColorBasic.Proofs.Gaps
import ColorBasic.Proofs.GapSpacing
import ColorBasic.Proofs.LineParts
import ColorBasic.Proofs.RespacedParts
import ColorBasic.Proofs.LiteralSpacing
import ColorBasic.Proofs.SettledSpacing
import ColorBasic.Proofs.HiddenColons
import ColorBasic.Proofs.SegmentGrammar
import ColorBasic.Proofs.CommandSteps
import ColorBasic.Proofs.CommandOptions
import ColorBasic.Proofs.Pipelines
import ColorBasic.Proofs.CutDumps
import ColorBasic.Proofs.Destinations
import ColorBasic.Proofs.RenumberedPrograms
import ColorBasic.Proofs.ListingOrder
import ColorBasic.Proofs.AddressSpace
import ColorBasic.Proofs.UnmappedCharacters
import ColorBasic.Proofs.MaximalMunch
import ColorBasic.Proofs.NormalSpacing
import ColorBasic.Proofs.HexNumerals
import ColorBasic.Proofs.ContainerMetadata
import ColorBasic.Proofs.QuotedText
import ColorBasic.Proofs.AnnotatedDumps
import ColorBasic.Proofs.ShieldedSettings
import ColorBasic.Proofs.DumpCursor
import ColorBasic.Proofs.RecordWalk
