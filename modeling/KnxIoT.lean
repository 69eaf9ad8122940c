import KnxIoT.Bench.CountingLoop
import KnxIoT.Bench.ScriptedHost
import KnxIoT.Bench.Session
import KnxIoT.Bench.Storm
import KnxIoT.Dispatch.Direct
import KnxIoT.Host.Call
import KnxIoT.Host.Create
import KnxIoT.Host.Logging
import KnxIoT.Proofs.Lists
import KnxIoT.Proofs.Dispatch.Steps
import KnxIoT.Proofs.Bridge.Frame
import KnxIoT.Proofs.Bridge.Ledger
import KnxIoT.Proofs.Correlator.Table
import KnxIoT.Proofs.Correlator.Settling
import KnxIoT.Proofs.Bridge.Draining
import KnxIoT.Proofs.Bridge.Lawful
import KnxIoT.Proofs.Bridge.Commands
import KnxIoT.Proofs.Bridge.Runs
import KnxIoT.Proofs.Bridge.News
import KnxIoT.Proofs.Bridge.Responses
import KnxIoT.Proofs.Bridge.Moments
import KnxIoT.Proofs.Bridge.Sessions
import KnxIoT.Proofs.Threads.System
import KnxIoT.Proofs.Threads.Ways
import KnxIoT.Proofs.Threads.Frame
import KnxIoT.Proofs.Threads.Vitals
import KnxIoT.Proofs.Threads.Waking
import KnxIoT.Proofs.Threads.Lifecycle
import KnxIoT.Proofs.Threads.Serving
import KnxIoT.Proofs.Threads.Solo
import KnxIoT.Proofs.Threads.Calls
import KnxIoT.Proofs.Threads.Alone
import KnxIoT.Proofs.Registry.Table
import KnxIoT.Proofs.Registry.History
import KnxIoT.Proofs.Bridge.Requests
import KnxIoT.Proofs.Bridge.Moves
import KnxIoT.Proofs.Bridge.Life
import KnxIoT.Proofs.Bridge.Finality
import KnxIoT.Proofs.Bridge.Queue
import KnxIoT.Proofs.Bridge.Atomicity
import KnxIoT.Proofs.Bridge.Roster
import KnxIoT.Proofs.Bridge.Asking
import KnxIoT.Proofs.Bridge.Devices
import KnxIoT.Proofs.Bridge.Protection
import KnxIoT.Proofs.Text.Utf8
import KnxIoT.Proofs.Host.Text
import KnxIoT.Proofs.Bridge.Grants
import KnxIoT.Proofs.Bridge.Cycles
import KnxIoT.Proofs.Host.Identifiers
import KnxIoT.Proofs.Host.RoundTrip
import KnxIoT.Proofs.Text.Blank
import KnxIoT.Proofs.LinkFormat.Scan
import KnxIoT.Proofs.LinkFormat.Reading
import KnxIoT.Proofs.LinkFormat.RoundTrip
import KnxIoT.Proofs.Correlator.History
import KnxIoT.Proofs.Bridge.Replies
import KnxIoT.Proofs.Cbor.Writing
import KnxIoT.Proofs.Payload.Surplus
import KnxIoT.Proofs.GroupMessage.RoundTrip
import KnxIoT.Proofs.Text.Order
import KnxIoT.Proofs.Json.Members
import KnxIoT.Proofs.Json.Reader
import KnxIoT.Proofs.Text.Hex
import KnxIoT.Proofs.Json.Printing
import KnxIoT.Proofs.Payload.Rendering
import KnxIoT.Proofs.Payload.MapOrder
import KnxIoT.Proofs.Threads.Renaming
import KnxIoT.Proofs.Payload.Integers
import KnxIoT.Proofs.Host.Handover
import KnxIoT.Proofs.Host.FailedCalls
import KnxIoT.Proofs.Dispatch.Reentrancy
import KnxIoT.Proofs.Dispatch.Deliveries
import KnxIoT.Proofs.Host.CallbackSets
import KnxIoT.Proofs.Correlator.Room
import KnxIoT.Proofs.Bridge.Room
import KnxIoT.Proofs.Bridge.Tellings
import KnxIoT.Proofs.Threads.Limits
import KnxIoT.Proofs.LinkFormat.Pieces
import KnxIoT.Proofs.WakeSignal.Shared
import KnxIoT.Proofs.WakeSignal.Notifications
