import KiroCrew.Lib.Machine
import KiroCrew.Lib.Calendar
import KiroCrew.Clock
import KiroCrew.Record
import KiroCrew.Broker
import KiroCrew.Receipt
import KiroCrew.Control
import KiroCrew.System
import KiroCrew.Steps
import KiroCrew.SystemInv
import KiroCrew.Fencing
import KiroCrew.Pointer
import KiroCrew.Overwrite
import KiroCrew.Serving
import KiroCrew.Restart
import KiroCrew.Durable
import KiroCrew.Store
import KiroCrew.Containers
import KiroCrew.ContainersInv
import KiroCrew.Lineage
import KiroCrew.Unfenced
import KiroCrew.Runtime
import KiroCrew.Freeze
import KiroCrew.Staging
import KiroCrew.Lib.Json
import KiroCrew.Lib.PosixPath
import KiroCrew.Policy
import KiroCrew.Lib.Dict
import KiroCrew.Manifest
import KiroCrew.Tree
import KiroCrew.Periodic
import KiroCrew.Build
import KiroCrew.Decode
import KiroCrew.RoundTrip
import KiroCrew.Restorable
import KiroCrew.Attempts
import KiroCrew.Complete
import KiroCrew.FileSystem
import KiroCrew.Materialize
import KiroCrew.Layout
import KiroCrew.Install
import KiroCrew.Undo
import KiroCrew.Lib.Double
import KiroCrew.NextDue
import KiroCrew.Lib.Bytes
import KiroCrew.Lib.JsonText
import KiroCrew.Lib.JsonLimits
import KiroCrew.Transport
import KiroCrew.Tunnel
import KiroCrew.Endings
import KiroCrew.Replay
import KiroCrew.Delivery
import KiroCrew.Lib.TextDecoder
import KiroCrew.Lib.Js
import KiroCrew.Lib.Framing
import KiroCrew.Lib.Url
import KiroCrew.Lib.Batches
import KiroCrew.Shell
import KiroCrew.Wire
import KiroCrew.WireOrder
import KiroCrew.EventStream
import KiroCrew.RoutePolicy
import KiroCrew.RouteAgreement
import KiroCrew.Limits
import KiroCrew.SocketOrder
import KiroCrew.Dispatch
import KiroCrew.Bucket
import KiroCrew.Numbering
import KiroCrew.Incremental
import KiroCrew.Torn
import KiroCrew.Retention
import KiroCrew.Retained
import KiroCrew.Due
import KiroCrew.Lib.Act
import KiroCrew.Engine
import KiroCrew.Refusals
import KiroCrew.Disk
import KiroCrew.OneDisk
import KiroCrew.WriteOut
import KiroCrew.Attempt
import KiroCrew.Times
import KiroCrew.Fallback
import KiroCrew.Links
import KiroCrew.Escape
import KiroCrew.Rejection
import KiroCrew.Preserve
import KiroCrew.History
import KiroCrew.Wake
import KiroCrew.Presign
import KiroCrew.Grants
import KiroCrew.Initialize
import KiroCrew.TeamContext
import KiroCrew.Lib.PyText
import KiroCrew.DeviceFlow
import KiroCrew.Sanitize
import KiroCrew.Duplex
import KiroCrew.FrameLimit
import KiroCrew.Journal
import KiroCrew.Lib.Utf8
import KiroCrew.Fingerprint
import KiroCrew.Lib.EventSource
import KiroCrew.SseBlocks
import KiroCrew.RemoteEvents
import KiroCrew.DataKey
import KiroCrew.Lib.Base64Url
import KiroCrew.Tokens
import KiroCrew.TokenRuns
import KiroCrew.Lib.Program
import KiroCrew.ControlApi
import KiroCrew.Tenants
import KiroCrew.Isolation
