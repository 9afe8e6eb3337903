import BackupReport.Main
import BackupReport.Proofs.Decoder.Built
import BackupReport.Proofs.Decoder.Progress
import BackupReport.Proofs.Decoder.Assembly
import BackupReport.Proofs.Decoder.Targets
import BackupReport.Proofs.Decoder.Simulation
import BackupReport.Proofs.Decoder.Extension
import BackupReport.Proofs.Decoder.Places
import BackupReport.Proofs.Decoder.Transfer
import BackupReport.Proofs.Decoder.Columns
import BackupReport.Proofs.Decoder.Gaps
import BackupReport.Proofs.Decoder.Closing
import BackupReport.Proofs.Stream.Items
import BackupReport.Proofs.Stream.Concatenation
import BackupReport.Proofs.Stream.Frames
import BackupReport.Proofs.Stream.Summary
import BackupReport.Proofs.Stream.Truncation
import BackupReport.Proofs.Stream.Failure
import BackupReport.Proofs.Stream.FirstSummary
import BackupReport.Proofs.RoundTrip.Scalars
import BackupReport.Proofs.RoundTrip.Strings
import BackupReport.Proofs.RoundTrip.Integers
import BackupReport.Proofs.RoundTrip.Containers
import BackupReport.Proofs.RoundTrip.Records
import BackupReport.Proofs.Session.Trace
import BackupReport.Proofs.Skipping.Tokens
import BackupReport.Proofs.Skipping.Walks
import BackupReport.Proofs.Skipping.Values
import BackupReport.Proofs.Documents.Kinds
import BackupReport.Proofs.Documents.Torn
import BackupReport.Proofs.Grammar.Numerals
import BackupReport.Proofs.Grammar.Unicode
import BackupReport.Proofs.Grammar.Strings
import BackupReport.Proofs.Grammar.Series
import BackupReport.Proofs.Grammar.Values
import BackupReport.Proofs.Members.Values
import BackupReport.Proofs.Members.Objects
import BackupReport.Proofs.Members.Variation
import BackupReport.Proofs.Members.Captures
import BackupReport.Proofs.Members.Fields
import BackupReport.Proofs.Members.Literals
import BackupReport.Proofs.Members.Summaries
import BackupReport.Proofs.Files.Writing
import BackupReport.Proofs.Files.Growth
import BackupReport.Proofs.Files.History
import BackupReport.Proofs.Run.CommandLine
import BackupReport.Proofs.Run.Backup
import BackupReport.Proofs.Run.Show
import BackupReport.Proofs.Run.Effects
import BackupReport.Proofs.Arguments.Options
import BackupReport.Proofs.Integrity.Marker
import BackupReport.Proofs.Arguments.Values
import BackupReport.Proofs.Arguments.Commands
import BackupReport.Proofs.Retention.Counts
import BackupReport.Proofs.Retention.Groups
import BackupReport.Proofs.Size.Rounding
import BackupReport.Proofs.Size.Units
import BackupReport.Proofs.Size.Amounts
import BackupReport.Proofs.Size.Exact
import BackupReport.Proofs.Duration.Components
import BackupReport.Proofs.Session.Log
import BackupReport.Proofs.Stream.Calls
import BackupReport.Proofs.Documents.Mistaken
import BackupReport.Proofs.Arguments.Viewing
import BackupReport.Proofs.Listing.Lines
import BackupReport.Proofs.Listing.Status
