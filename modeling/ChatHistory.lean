import ChatHistory.Assoc
import ChatHistory.Block
import ChatHistory.Command.Arguments
import ChatHistory.Command.Request
import ChatHistory.Command.Run
import ChatHistory.Command.Stop
import ChatHistory.DisplayedMessage
import ChatHistory.Entry.Conversion
import ChatHistory.Entry.Lines
import ChatHistory.Entry.ToolResults
import ChatHistory.Entry.Treatment
import ChatHistory.Fault
import ChatHistory.Files.Path
import ChatHistory.Files.Tree
import ChatHistory.Json.Basic
import ChatHistory.Json.Literal
import ChatHistory.Json.Reader
import ChatHistory.Json.Writer
import ChatHistory.Main
import ChatHistory.Markup.Attachment
import ChatHistory.Markup.CommandEcho
import ChatHistory.Markup.Entity
import ChatHistory.Message.Basic
import ChatHistory.Message.Turns
import ChatHistory.Number.Double
import ChatHistory.Number.Numeral
import ChatHistory.Number.Shortest
import ChatHistory.Part.Basic
import ChatHistory.Part.Folding
import ChatHistory.Part.Nesting
import ChatHistory.Session.Chain
import ChatHistory.Session.Mentions
import ChatHistory.Session.Store
import ChatHistory.Settings.Basic
import ChatHistory.Settings.Environment
import ChatHistory.Text.Blank
import ChatHistory.Text.ControlSequence
import ChatHistory.Text.DecimalDigit
import ChatHistory.Text.Printable
import ChatHistory.Text.Scan
import ChatHistory.Text.Utf8
import ChatHistory.Time.Calendar
import ChatHistory.Time.Reader
import ChatHistory.Time.Timestamp
import ChatHistory.Toml.Document
import ChatHistory.Toml.Scalar
import ChatHistory.Toml.Value
import ChatHistory.ToolOwners
import ChatHistory.ToolVocabulary
import ChatHistory.Transcript.Document
import ChatHistory.Transcript.Duration
import ChatHistory.Transcript.Heading
import ChatHistory.Transcript.Preview
import ChatHistory.Proofs.Assoc
import ChatHistory.Proofs.Attachments
import ChatHistory.Proofs.CommandEchoes
import ChatHistory.Proofs.Composition
import ChatHistory.Proofs.Entry.Coercion
import ChatHistory.Proofs.Entry.Conversion
import ChatHistory.Proofs.Entry.Lines
import ChatHistory.Proofs.Entry.Noise
import ChatHistory.Proofs.Entry.Patch
import ChatHistory.Proofs.Entry.Shapes
import ChatHistory.Proofs.Entry.Treatment
import ChatHistory.Proofs.Fault
import ChatHistory.Proofs.Files.Overwriting
import ChatHistory.Proofs.Files.Tree
import ChatHistory.Proofs.Files.Writing
import ChatHistory.Proofs.Json.Literal
import ChatHistory.Proofs.Json.Reader
import ChatHistory.Proofs.Json.RoundTrip
import ChatHistory.Proofs.Keys
import ChatHistory.Proofs.Markup.Attachment
import ChatHistory.Proofs.Markup.CommandEcho
import ChatHistory.Proofs.Markup.Entity
import ChatHistory.Proofs.Markup.EntityScan
import ChatHistory.Proofs.Number.Range
import ChatHistory.Proofs.OwnerTraces
import ChatHistory.Proofs.Part.Arrangement
import ChatHistory.Proofs.Part.Calls
import ChatHistory.Proofs.Part.Keys
import ChatHistory.Proofs.Part.Nesting
import ChatHistory.Proofs.Part.Phases
import ChatHistory.Proofs.Session.Breadth
import ChatHistory.Proofs.Session.Bystanders
import ChatHistory.Proofs.Session.Chain
import ChatHistory.Proofs.Session.LogFiles
import ChatHistory.Proofs.Session.Noise
import ChatHistory.Proofs.Session.Pieces
import ChatHistory.Proofs.Session.Search
import ChatHistory.Proofs.Settings.Environment
import ChatHistory.Proofs.Settings.Layers
import ChatHistory.Proofs.Settings.Mistakes
import ChatHistory.Proofs.Settings.Sources
import ChatHistory.Proofs.Text.Blank
import ChatHistory.Proofs.Text.Lines
import ChatHistory.Proofs.Text.Pieces
import ChatHistory.Proofs.Text.Scan
import ChatHistory.Proofs.Text.Words
import ChatHistory.Proofs.Time.Bounds
import ChatHistory.Proofs.Time.Universal
import ChatHistory.Proofs.Toml.Keys
import ChatHistory.Proofs.ToolCalls
import ChatHistory.Proofs.ToolOwners
import ChatHistory.Proofs.Transcript.AssistantText
import ChatHistory.Proofs.Transcript.Headings
import ChatHistory.Proofs.Transcript.Lines
import ChatHistory.Proofs.Transcript.Presentable
import ChatHistory.Proofs.Transcript.Preview
import ChatHistory.Proofs.Transcript.TopLines
import ChatHistory.Proofs.TurnContent
import ChatHistory.Proofs.Turns.Answers
import ChatHistory.Proofs.Turns.Blocks
import ChatHistory.Proofs.Turns.Boundaries
import ChatHistory.Proofs.Turns.Delivery
import ChatHistory.Proofs.Turns.Durations
import ChatHistory.Proofs.Turns.Growth
import ChatHistory.Proofs.Turns.NormalForm
import ChatHistory.Proofs.Turns.RepeatedUses
import ChatHistory.Proofs.Turns.Step
import ChatHistory.Proofs.Turns.Utterances
