import DisplayFile.Position
import DisplayFile.Text.Blank
import DisplayFile.Text.Search
import DisplayFile.Text.Upper
import DisplayFile.Source
import DisplayFile.Continuation
import DisplayFile.Specification
import DisplayFile.Name
import DisplayFile.Usage
import DisplayFile.Clause
import DisplayFile.Declaration
import DisplayFile.Table
import DisplayFile.Format
import DisplayFile.Document
import DisplayFile.Navigation
import DisplayFile.Outline
import DisplayFile.Warning
import DisplayFile.Sample
import DisplayFile.Json
import DisplayFile.Double
import DisplayFile.Json.Printer
import DisplayFile.Json.Token
import DisplayFile.Json.Reader
import DisplayFile.Report
import DisplayFile.Query
import DisplayFile.Disk
import DisplayFile.Editor
import DisplayFile.Configuration
import DisplayFile.Session
import DisplayFile.Message
import DisplayFile.Parameters
import DisplayFile.Service
import DisplayFile.Frame
import DisplayFile.Arguments
import DisplayFile.Program
import DisplayFile.Main
import DisplayFile.Proofs.Table
import DisplayFile.Proofs.UsageColumns
import DisplayFile.Proofs.DeclarationColumns
import DisplayFile.Proofs.Index
import DisplayFile.Proofs.Blocks
import DisplayFile.Proofs.Resolution
import DisplayFile.Proofs.Occurrences
import DisplayFile.Proofs.RoundTrip
import DisplayFile.Proofs.Reordering
import DisplayFile.Proofs.Extraction
import DisplayFile.Proofs.Partition
import DisplayFile.Proofs.Renumbering
import DisplayFile.Proofs.Concatenation
import DisplayFile.Proofs.References
import DisplayFile.Proofs.IndexReport
import DisplayFile.Proofs.History
import DisplayFile.Proofs.Publications
import DisplayFile.Proofs.Bounds
import DisplayFile.Proofs.Agreement
import DisplayFile.Proofs.Shadowing
import DisplayFile.Proofs.Transparency
import DisplayFile.Proofs.Grammar
import DisplayFile.Proofs.SpanText
import DisplayFile.Proofs.Relocation
import DisplayFile.Proofs.FieldToken
import DisplayFile.Proofs.ShadowingOrder
import DisplayFile.Proofs.InertLines
import DisplayFile.Proofs.LineEnds
import DisplayFile.Proofs.Nesting
import DisplayFile.Proofs.CaseMatching
import DisplayFile.Proofs.MarkerPass
import DisplayFile.Proofs.LineByLine
import DisplayFile.Proofs.ByteColumns
