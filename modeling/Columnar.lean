import Columnar.Stream.Reader
import Columnar.Stream.Writer
import Columnar.Page.Feed
import Columnar.Page
import Columnar.Page.Draft
import Columnar.Row.Binding
import Columnar.Column.Cells
import Columnar.Column.Blobs
import Columnar.Schema.Exchange
import Columnar.Catalog
import Columnar.Schema.Fingerprint
import Columnar.Schema.Default
import Columnar.Literal
import Columnar.Stream.Sink
import Columnar.Stream.Source
import Columnar.Stream.Header
import Columnar.Stream.Settings
import Columnar.Page.Presence
import Columnar.Bytes.Cursor
import Columnar.Bytes.Take
import Columnar.Number.ZigZag
import Columnar.Number.Leb128
import Columnar.Number.Power
import Columnar.Fnv1a
import Columnar.Failure
import Columnar.Value
import Columnar.Kind
import Columnar.Text.Blank
import Columnar.Text.Quoted
import Columnar.Bytes.Word
import Columnar.Text.Utf8
import Columnar.Number.FloatText
import Columnar.Proofs.Bytes.Follow
import Columnar.Proofs.Column.Places
import Columnar.Proofs.Page.Tables
import Columnar.Proofs.Schema.Finalized
import Columnar.Proofs.Page.Feed
import Columnar.Proofs.Page.Spelling
import Columnar.Proofs.Page.Draft
import Columnar.Proofs.Stream.Ledger
import Columnar.Proofs.Stream.Accounts
import Columnar.Proofs.Page.Pool
import Columnar.Proofs.Stream.Delivery
import Columnar.Proofs.Stream.RoundTrip
import Columnar.Proofs.Stream.Truncation
import Columnar.Proofs.Page.Presence
import Columnar.Proofs.Column.Contents
import Columnar.Proofs.Bytes.Cost
import Columnar.Proofs.Page.Cost
import Columnar.Proofs.Page.Handout
import Columnar.Proofs.Page.Foreign
import Columnar.Proofs.Stream.Seeking
import Columnar.Proofs.Stream.Calls
import Columnar.Proofs.Stream.Interleaving
import Columnar.Proofs.Stream.Exhaustion
import Columnar.Proofs.Column.Refinement
import Columnar.Proofs.Column.Delimiting
import Columnar.Proofs.Page.History
import Columnar.Proofs.Stream.Lending
import Columnar.Proofs.Bytes.Unambiguous
import Columnar.Proofs.Catalog.References
import Columnar.Proofs.Catalog.Finalizing
import Columnar.Proofs.Schema.Description
import Columnar.Proofs.Page.Reloading
import Columnar.Proofs.Stream.Refusals
import Columnar.Proofs.Schema.Published
import Columnar.Proofs.Stream.Acceptance
import Columnar.Proofs.Stream.Fitting
import Columnar.Proofs.Schema.Sensitivity
import Columnar.Proofs.Text.ByteOrder
import Columnar.Proofs.Schema.Attributes
import Columnar.Proofs.Stream.Framing
import Columnar.Proofs.Page.Arrangement
import Columnar.Proofs.Page.Fullness
import Columnar.Proofs.Bytes.Spellings
import Columnar.Proofs.Stream.Consumption
import Columnar.Proofs.Stream.Tallies
import Columnar.Proofs.Stream.Records
import Columnar.Proofs.Stream.Orphans
import Columnar.Proofs.Stream.Inventory
import Columnar.Proofs.Calendar.Written
import Columnar.Proofs.Calendar.Wide
import Columnar.Proofs.Literal.HexBytes
import Columnar.Proofs.Number.Groups
import Columnar.Proofs.Stream.Numbers
import Columnar.Proofs.Bytes.Windows
