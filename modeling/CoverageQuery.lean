import CoverageQuery.Calendar
import CoverageQuery.Client.Connector
import CoverageQuery.Client.Datacube
import CoverageQuery.Client.Error
import CoverageQuery.Client.Exchange
import CoverageQuery.Client.Payload
import CoverageQuery.Client.Retry
import CoverageQuery.Client.Settings
import CoverageQuery.Command.Arguments
import CoverageQuery.Command.Environment
import CoverageQuery.Command.Flags
import CoverageQuery.Command.Run
import CoverageQuery.Document.Fault
import CoverageQuery.Document.Node
import CoverageQuery.Document.Record
import CoverageQuery.Files
import CoverageQuery.Image.Basic
import CoverageQuery.Image.Bitmap
import CoverageQuery.Image.Checksum
import CoverageQuery.Image.Field
import CoverageQuery.Image.Format
import CoverageQuery.Image.Jpeg
import CoverageQuery.Image.PlainHeader
import CoverageQuery.Image.Png
import CoverageQuery.Image.TextHeader
import CoverageQuery.Image.Tiff
import CoverageQuery.Json.Reader
import CoverageQuery.Json.Value
import CoverageQuery.Main
import CoverageQuery.Number.Binary64
import CoverageQuery.Number.Digits
import CoverageQuery.Number.Float
import CoverageQuery.Number.Integer
import CoverageQuery.Number.Layout
import CoverageQuery.Number.Shortest
import CoverageQuery.Proofs.Command.Balance
import CoverageQuery.Proofs.Document.Object
import CoverageQuery.Proofs.Json.RoundTrip
import CoverageQuery.Proofs.Json.Scalar
import CoverageQuery.Proofs.Number.Digits
import CoverageQuery.Proofs.Number.Nearest
import CoverageQuery.Proofs.Number.ReadBack
import CoverageQuery.Proofs.Number.Spelling
import CoverageQuery.Proofs.Outcome
import CoverageQuery.Proofs.Query.Balance
import CoverageQuery.Proofs.Query.Clauses
import CoverageQuery.Proofs.Query.Enclosure
import CoverageQuery.Proofs.Query.History
import CoverageQuery.Proofs.Query.Legible
import CoverageQuery.Proofs.Query.Readability
import CoverageQuery.Proofs.Query.Template
import CoverageQuery.Proofs.Stored.RoundTrip
import CoverageQuery.Proofs.Text.Cut
import CoverageQuery.Proofs.Text.Delimiters
import CoverageQuery.Proofs.Text.Form
import CoverageQuery.Query.Basic
import CoverageQuery.Query.Domain
import CoverageQuery.Query.Method
import CoverageQuery.Query.Render
import CoverageQuery.Query.Switch
import CoverageQuery.Query.Template
import CoverageQuery.Query.Value
import CoverageQuery.Stored.Mode
import CoverageQuery.Stored.Query
import CoverageQuery.Stored.Value
import CoverageQuery.Text.Blank
import CoverageQuery.Text.Delimiters
import CoverageQuery.Text.Form
import CoverageQuery.Text.Quotes
import CoverageQuery.Text.Utf8
import CoverageQuery.Url.Basic
import CoverageQuery.Url.Host
import CoverageQuery.Url.Path
import CoverageQuery.Yaml.Cursor
import CoverageQuery.Yaml.Reader
import CoverageQuery.Yaml.Scalar
import CoverageQuery.Yaml.Tag
import CoverageQuery.Yaml.Token
import CoverageQuery.Yaml.Tokens
import CoverageQuery.Yaml.Typing
import CoverageQuery.Proofs.Command.Reading
import CoverageQuery.Proofs.Query.Succession
import CoverageQuery.Proofs.Client.Datacube
import CoverageQuery.Proofs.Client.Requests
import CoverageQuery.Proofs.Files
import CoverageQuery.Proofs.Command.Overlay
import CoverageQuery.Proofs.Command.Effects
import CoverageQuery.Proofs.Command.Scanning
import CoverageQuery.Proofs.Command.Verbs
import CoverageQuery.Proofs.Command.Preview
import CoverageQuery.Proofs.Stored.Loss
import CoverageQuery.Proofs.Text.Places
import CoverageQuery.Proofs.Query.Binding
import CoverageQuery.Proofs.Command.Sources
import CoverageQuery.Proofs.Document.Agreement
import CoverageQuery.Proofs.Stored.Rearranged
import CoverageQuery.Proofs.Stored.Arrangement
import CoverageQuery.Proofs.Client.Decoding
import CoverageQuery.Proofs.Client.Retrying
import CoverageQuery.Proofs.Command.Written
import CoverageQuery.Proofs.Number.DecimalText
import CoverageQuery.Proofs.Text.Nesting
import CoverageQuery.Proofs.Text.Boundary
import CoverageQuery.Proofs.Client.ErrorBody
import CoverageQuery.Proofs.Client.Summary
import CoverageQuery.Proofs.Command.Literals
import CoverageQuery.Proofs.Stored.Origins
import CoverageQuery.Proofs.Text.Slices
import CoverageQuery.Proofs.Command.Values
import CoverageQuery.Proofs.Text.Validity
import CoverageQuery.Proofs.Client.Announcement
import CoverageQuery.Proofs.Number.Whole
import CoverageQuery.Proofs.Json.Characters
import CoverageQuery.Proofs.Json.Term
import CoverageQuery.Proofs.Stored.Untagged
