import EntityGraph.Decimal.Notation
import EntityGraph.Decimal.Shortest
import EntityGraph.Decode.Mismatch
import EntityGraph.Failure
import EntityGraph.Graph.Basic
import EntityGraph.Graph.Build
import EntityGraph.Graph.Json
import EntityGraph.Json.Basic
import EntityGraph.Json.Document
import EntityGraph.Json.Fault
import EntityGraph.Json.Fields
import EntityGraph.Json.Numeral
import EntityGraph.Json.Read
import EntityGraph.Json.Scan
import EntityGraph.Json.Skip
import EntityGraph.Json.Text
import EntityGraph.Json.Typed
import EntityGraph.Page.Load
import EntityGraph.Page.Scripts
import EntityGraph.Prefix.Generate
import EntityGraph.Prefix.Map
import EntityGraph.Progress.Loop
import EntityGraph.Progress.Poll
import EntityGraph.Progress.Read
import EntityGraph.Progress.Report
import EntityGraph.Rdf.Read
import EntityGraph.Rdf.Triple
import EntityGraph.Rdf.Vocabulary
import EntityGraph.Render.Dot
import EntityGraph.Render.Legend
import EntityGraph.Render.Network
import EntityGraph.Render.Turtle
import EntityGraph.Settings.Basic
import EntityGraph.Settings.Read
import EntityGraph.Text.Blank
import EntityGraph.Text.Bytes
import EntityGraph.Text.Html
import EntityGraph.Text.Printable
import EntityGraph.Text.Rest
import EntityGraph.Text.Wrap
import EntityGraph.Toml.Basic
import EntityGraph.Toml.Document
import EntityGraph.Toml.Number
import EntityGraph.Toml.Report
import EntityGraph.Toml.Token
import EntityGraph.Toml.Value
import EntityGraph.Widget.Handoff
import EntityGraph.Widget.RowTable
import EntityGraph.Widget.Toggle
import EntityGraph.Proofs.Prefix.Choose
import EntityGraph.Proofs.Prefix.Alias
import EntityGraph.Proofs.Prefix.Generate
import EntityGraph.Proofs.Prefix.Shorten
import EntityGraph.Proofs.Graph.Draw
import EntityGraph.Proofs.Progress.Loop
import EntityGraph.Proofs.Progress.Clock
import EntityGraph.Proofs.Turtle.Prefixes
import EntityGraph.Proofs.Json.Tokens
import EntityGraph.Proofs.Json.Numeral
import EntityGraph.Proofs.Json.RoundTrip
import EntityGraph.Proofs.Rdf.RoundTrip
import EntityGraph.Proofs.Rdf.Codec
import EntityGraph.Proofs.Widget.Order
import EntityGraph.Proofs.Widget.Highlight
import EntityGraph.Proofs.Render.Dot
import EntityGraph.Proofs.Turtle.Pinned
import EntityGraph.Proofs.Page.Load
import EntityGraph.Proofs.Widget.Panel
import EntityGraph.Proofs.Render.Markup
import EntityGraph.Proofs.Page.Scripts
import EntityGraph.Proofs.Text.Wrap
import EntityGraph.Proofs.Text.Offsets
import EntityGraph.Proofs.Page.ByteSearch
