import RichText.Border
import RichText.Category
import RichText.Cell
import RichText.CommandLine
import RichText.Configuration
import RichText.Cursor
import RichText.Document
import RichText.Document.Json
import RichText.DocumentFile
import RichText.Environment
import RichText.Event
import RichText.Field
import RichText.FileTree
import RichText.Font
import RichText.Group
import RichText.Host
import RichText.Html.Declaration
import RichText.Html.Escape
import RichText.Html.Markup
import RichText.Html.Page
import RichText.Hyperlink
import RichText.Json.Decode
import RichText.Json.Lexeme
import RichText.Json.Parser
import RichText.Json.Value
import RichText.Kind
import RichText.Main
import RichText.Number.Binary32
import RichText.Number.Length
import RichText.Number.Shortest
import RichText.Path
import RichText.Picture
import RichText.Property
import RichText.Render
import RichText.Row
import RichText.Style
import RichText.Style.ListResolution
import RichText.Text.Base64
import RichText.Text.CharacterClass
import RichText.Text.Hexadecimal
import RichText.Token
import RichText.Token.Json
import RichText.Toml.Reader
import RichText.Toml.Scalar
import RichText.Toml.Text
import RichText.Toml.Value
import RichText.Walk
import RichText.Walk.Action
import RichText.Proofs.Document.Json
import RichText.Proofs.Field.Arguments
import RichText.Proofs.Field.Hyperlink
import RichText.Proofs.Font.Insertion
import RichText.Proofs.Font.Reading
import RichText.Proofs.Html.AnchorPlaces
import RichText.Proofs.Html.Anchors
import RichText.Proofs.Html.Bookmarks
import RichText.Proofs.Html.Chunking
import RichText.Proofs.Html.Columns
import RichText.Proofs.Html.Conformance
import RichText.Proofs.Html.ContentModel
import RichText.Proofs.Html.Encapsulation
import RichText.Proofs.Html.Fragment
import RichText.Proofs.Html.Links
import RichText.Proofs.Html.Nesting
import RichText.Proofs.Html.OpenRow
import RichText.Proofs.Html.Opening
import RichText.Proofs.Html.Paragraphs
import RichText.Proofs.Html.Pieces
import RichText.Proofs.Html.PlacedRuns
import RichText.Proofs.Html.Reading
import RichText.Proofs.Html.Rewording
import RichText.Proofs.Html.Runs
import RichText.Proofs.Html.Spans
import RichText.Proofs.Html.Surroundings
import RichText.Proofs.Html.TableMarkup
import RichText.Proofs.Html.Told
import RichText.Proofs.Html.VisibleText
import RichText.Proofs.Html.Written
import RichText.Proofs.Json.Decode
import RichText.Proofs.Json.Writing
import RichText.Proofs.Machine.CommandLine
import RichText.Proofs.Machine.Files
import RichText.Proofs.Machine.Reload
import RichText.Proofs.Picture.Payload
import RichText.Proofs.Style.Cells
import RichText.Proofs.Style.InTable
import RichText.Proofs.Style.LastWrite
import RichText.Proofs.Style.Ledger
import RichText.Proofs.Style.LevelMerge
import RichText.Proofs.Style.ListReference
import RichText.Proofs.Style.Outline
import RichText.Proofs.Style.Reachable
import RichText.Proofs.Style.Resolution
import RichText.Proofs.Table.CellRun
import RichText.Proofs.Table.LeftOffset
import RichText.Proofs.Table.Partition
import RichText.Proofs.Table.Tiling
import RichText.Proofs.Token.Json
import RichText.Proofs.Toml.Configuration
import RichText.Proofs.Toml.Quotation
import RichText.Proofs.Walk.Bounds
import RichText.Proofs.Walk.CallStack
import RichText.Proofs.Walk.DroppedGroups
import RichText.Proofs.Walk.FallbackText
import RichText.Proofs.Walk.Fences
import RichText.Proofs.Walk.Induction
import RichText.Proofs.Walk.Order
import RichText.Proofs.Walk.PlainReading
import RichText.Proofs.Walk.Position
import RichText.Proofs.Walk.Protocol
import RichText.Proofs.Walk.Rephrasing
import RichText.Proofs.Walk.Replacement
import RichText.Proofs.Walk.Rewording
import RichText.Proofs.Walk.RowCells
import RichText.Proofs.Walk.Scope
import RichText.Proofs.Walk.Simulation
import RichText.Proofs.Walk.Stations
import RichText.Proofs.Walk.TableMembership
import RichText.Proofs.Walk.Tabs
import RichText.Proofs.Walk.TextTable
