import RowStore.Action
import RowStore.Address
import RowStore.Bytes
import RowStore.Cache
import RowStore.Cache.Ranking
import RowStore.Catalog
import RowStore.Checksum
import RowStore.Column
import RowStore.Cursor
import RowStore.Database
import RowStore.Database.Rows
import RowStore.Error
import RowStore.Json
import RowStore.Json.Reader
import RowStore.Json.Token
import RowStore.Keyed
import RowStore.Locking
import RowStore.Page
import RowStore.Page.Layout
import RowStore.Page.SlotMap
import RowStore.Page.SlotMap.Lemmas
import RowStore.Proofs.Page.Codec
import RowStore.Proofs.Page.Sound
import RowStore.Row
import RowStore.Row.Lemmas
import RowStore.Schema
import RowStore.Schema.Json
import RowStore.Settings
import RowStore.TableFile
import RowStore.Text.Utf8
import RowStore.Text.Utf8.Lemmas
import RowStore.Total
import RowStore.Value
import RowStore.Value.Lemmas
import RowStore.Volume
import RowStore.Proofs.Database.Coherent
import RowStore.Proofs.Database.Fetch
import RowStore.Proofs.Database.Flush
import RowStore.Proofs.Database.Rows
import RowStore.Proofs.Database.Scan
import RowStore.Proofs.Database.Run
import RowStore.Proofs.Database.Contents
import RowStore.Proofs.Database.Fate
import RowStore.Proofs.Database.Undo
import RowStore.Proofs.Cache.Ranking
import RowStore.Proofs.Database.Trace
import RowStore.Proofs.Database.Session
import RowStore.Proofs.Database.History
import RowStore.Proofs.Database.Replacement
import RowStore.Proofs.Database.Origin
import RowStore.Proofs.File.Images
import RowStore.Proofs.Database.Images
import RowStore.Proofs.Database.Completion
import RowStore.Proofs.Database.Cursor
import RowStore.Proofs.Database.Failure
import RowStore.Proofs.File.Listing
import RowStore.Proofs.Database.Cleaning
import RowStore.Proofs.Database.Reopen
import RowStore.Proofs.Database.Visits
import RowStore.Proofs.Database.Reading
import RowStore.Proofs.Database.Locks
import RowStore.Proofs.Database.Parallel
import RowStore.Proofs.Database.Refusal
import RowStore.Proofs.Database.Placement
import RowStore.Proofs.Page.Edits
import RowStore.Proofs.Page.Slots
import RowStore.Proofs.Database.Discipline
import RowStore.Proofs.Database.Removal
import RowStore.Proofs.Page.Spelling
import RowStore.Proofs.Page.Images
import RowStore.Proofs.Database.Growth
import RowStore.Proofs.Page.Snapshots
import RowStore.Proofs.Cache.Log
import RowStore.Proofs.File.Array
import RowStore.Proofs.Database.Position
import RowStore.Proofs.Page.Geometry
import RowStore.Proofs.File.Lookups
import RowStore.Proofs.Row.Fields
import RowStore.Proofs.Row.Calls
import RowStore.Proofs.Page.Occupancy
import RowStore.Proofs.Json.Tree
import RowStore.Proofs.Json.Writing
import RowStore.Proofs.Json.Compact
import RowStore.Proofs.Schema.Making
