import Planar.Catalog.Calls
import Planar.Catalog.ChunkedStatements
import Planar.Catalog.Commit
import Planar.Catalog.CreateTable
import Planar.Catalog.DataType
import Planar.Catalog.Diff
import Planar.Catalog.Error
import Planar.Catalog.Events
import Planar.Catalog.Handles
import Planar.Catalog.Helpers
import Planar.Catalog.Limits
import Planar.Catalog.Models
import Planar.Catalog.Placeholders
import Planar.Catalog.ReadTable
import Planar.Catalog.Tables
import Planar.Catalog.Views
import Planar.Database.Frame
import Planar.Database.Records
import Planar.Database.Rows
import Planar.Database.Soundness
import Planar.Database.Statements
import Planar.Foundations.Attempts
import Planar.Foundations.Batches
import Planar.Foundations.Channel
import Planar.Foundations.Failures
import Planar.Foundations.FixedPoint
import Planar.Foundations.KeyedLists
import Planar.Foundations.KeyedLogs
import Planar.Foundations.LaterStamps
import Planar.Foundations.LinkedKeys
import Planar.Foundations.Lists
import Planar.Foundations.PointerWalk
import Planar.Foundations.Query
import Planar.Foundations.RenamedStamps
import Planar.Foundations.RowOrders
import Planar.Foundations.Schedule
import Planar.Foundations.Serial
import Planar.Foundations.StampedRows
import Planar.Foundations.Succession
import Planar.Foundations.Transaction
import Planar.Foundations.Waiting
import Planar.History.Acceptance
import Planar.History.Appends
import Planar.History.CommitInvariant
import Planar.History.Commits
import Planar.History.Creations
import Planar.History.Effects
import Planar.History.Entries
import Planar.History.Evolution
import Planar.History.GivenSchemas
import Planar.History.Invariant
import Planar.History.Outcomes
import Planar.History.OwnCalls
import Planar.History.Progress
import Planar.History.RenamedCalls
import Planar.History.Slices
import Planar.History.StoredTexts
import Planar.History.Versions
import Planar.History.World
import Planar.History.Writers
import Planar.Properties.Acceptance
import Planar.Properties.Backends
import Planar.Properties.Chunks
import Planar.Properties.Diff
import Planar.Properties.DiffLimits
import Planar.Properties.Dispatch
import Planar.Properties.Dropping
import Planar.Properties.EventCaching
import Planar.Properties.EventLog
import Planar.Properties.FileRows
import Planar.Properties.Handles
import Planar.Properties.IdOrder
import Planar.Properties.Interleaving
import Planar.Properties.Isolation
import Planar.Properties.KeptSnapshots
import Planar.Properties.Linear
import Planar.Properties.LogPages
import Planar.Properties.Lookups
import Planar.Properties.NetDelta
import Planar.Properties.NonNull
import Planar.Properties.OptionValidation
import Planar.Properties.Polling
import Planar.Properties.Protocol
import Planar.Properties.Racing
import Planar.Properties.ReadLimits
import Planar.Properties.Reordering
import Planar.Properties.Replicas
import Planar.Properties.SchemaEvolution
import Planar.Properties.SchemaTiling
import Planar.Properties.Sessions
import Planar.Properties.Splitting
import Planar.Properties.StoredGraphs
import Planar.Properties.StoredJson
import Planar.Properties.Streams
import Planar.Properties.TableProperties
import Planar.Properties.TimeTravel
import Planar.Properties.TypeValues
import Planar.Properties.Validation
import Planar.Properties.Waiting
import Planar.Properties.WideSchemas
import Planar.Reading.Decoding
import Planar.Reading.EventLog
import Planar.Reading.EventStamps
import Planar.Reading.IdIntervals
import Planar.Reading.LaterReads
import Planar.Reading.LaterSnapshots
import Planar.Reading.NetChanges
import Planar.Reading.OwnRows
import Planar.Reading.Pages
import Planar.Reading.RangeChanges
import Planar.Reading.Records
import Planar.Reading.RenamedReads
import Planar.Reading.Scans
import Planar.Reading.SeenChanges
import Planar.Reading.Selections
import Planar.Reading.Snapshot
import Planar.Reading.Success
import Planar.Reading.Walk
import Planar.Storage.Dispatch
import Planar.Storage.FormatOptions
import Planar.Storage.StreamWriters
import Planar.Values.External
import Planar.Values.Json
import Planar.Values.Scalars
