import PixelFlow.CommandLine.Run
import PixelFlow.Json.Document
import PixelFlow.Main
import PixelFlow.Script
import PixelFlow.Engine.Action
import PixelFlow.Proofs.Table
import PixelFlow.Proofs.Graph.Reach
import PixelFlow.Proofs.Graph.Sound
import PixelFlow.Proofs.Graph.Change
import PixelFlow.Proofs.Graph.Edit
import PixelFlow.Proofs.Graph.Keyed
import PixelFlow.Proofs.Graph.Fresh
import PixelFlow.Proofs.Graph.Workbench
import PixelFlow.Proofs.Graph.Relabelled
import PixelFlow.Proofs.Graph.Order
import PixelFlow.Proofs.Graph.Cycle
import PixelFlow.Proofs.Graph.Search
import PixelFlow.Proofs.Engine.Turn
import PixelFlow.Proofs.Engine.Schedule
import PixelFlow.Proofs.Engine.Run
import PixelFlow.Proofs.Engine.History
import PixelFlow.Proofs.Engine.Late
import PixelFlow.Proofs.Engine.Removed
import PixelFlow.Proofs.Value
import PixelFlow.Proofs.Fingerprint
import PixelFlow.Proofs.Cache
import PixelFlow.Proofs.Cache.Run
import PixelFlow.Proofs.Cache.Memory
import PixelFlow.Proofs.Cache.Recency
import PixelFlow.Proofs.Cache.Refinement
import PixelFlow.Proofs.Palette
import PixelFlow.Proofs.Builtin
import PixelFlow.Proofs.Engine.Snapshot
import PixelFlow.Proofs.Engine.Genuine
import PixelFlow.Proofs.Engine.Consistent
import PixelFlow.Proofs.Engine.Progress
import PixelFlow.Proofs.Engine.Sweep
import PixelFlow.Proofs.Engine.Ledger
import PixelFlow.Proofs.Engine.Evaluate
import PixelFlow.Proofs.Fills
import PixelFlow.Proofs.Engine.Lasting
import PixelFlow.Proofs.Engine.Confluence
import PixelFlow.Proofs.Engine.Mirror
import PixelFlow.Proofs.Typed
import PixelFlow.Proofs.Engine.Typed
import PixelFlow.Proofs.Engine.Hits
import PixelFlow.Proofs.Graph.InPlace
import PixelFlow.Proofs.Engine.InPlace
import PixelFlow.Proofs.Engine.Linking
import PixelFlow.Proofs.Engine.Loop
import PixelFlow.Proofs.Engine.InOrder
import PixelFlow.Proofs.Pipeline.Stage
import PixelFlow.Proofs.Pipeline.Build
import PixelFlow.Proofs.Pipeline.Outcome
import PixelFlow.Proofs.Pipeline.Process
import PixelFlow.Proofs.Context
import PixelFlow.Proofs.Cache.Key
import PixelFlow.Proofs.Engine.Starved
import PixelFlow.Proofs.Registry
import PixelFlow.Proofs.Parameter
import PixelFlow.Proofs.Engine.Readable
import PixelFlow.Proofs.Method
import PixelFlow.Proofs.Number
import PixelFlow.Proofs.Failure
import PixelFlow.Proofs.Cache.Overflow
import PixelFlow.Proofs.Text.Hex
import PixelFlow.Proofs.Color.Bytes
import PixelFlow.Proofs.Color.Hex
import PixelFlow.Proofs.Color.Slice
import PixelFlow.Proofs.Observers
import PixelFlow.Proofs.Options
import PixelFlow.Proofs.Raster.Single
import PixelFlow.Proofs.Raster.Sharpen
import PixelFlow.Proofs.Uuid
import PixelFlow.Proofs.Json.Record
import PixelFlow.Proofs.Json.Value
import PixelFlow.Proofs.Json.Document
