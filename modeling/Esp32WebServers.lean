import Esp32WebServers.Base.Run
import Esp32WebServers.Base.Pattern
import Esp32WebServers.Base.Lines
import Esp32WebServers.Base.Holders
import Esp32WebServers.Header.RoundTrip
import Esp32WebServers.Header.Agreement
import Esp32WebServers.Header.StackSlot
import Esp32WebServers.Header.Slices
import Esp32WebServers.Header.Fragments
import Esp32WebServers.Header.ReadRequest
import Esp32WebServers.Header.Leftovers
import Esp32WebServers.Header.Captures
import Esp32WebServers.Header.Lines
import Esp32WebServers.Response.Encoders
import Esp32WebServers.Response.Format
import Esp32WebServers.Connection.Handlers
import Esp32WebServers.Connection.Framing
import Esp32WebServers.Connection.EndOfStream
import Esp32WebServers.Connection.ShortWrites
import Esp32WebServers.Tasks.HandOff
import Esp32WebServers.Tasks.Ledger
import Esp32WebServers.Tasks.NoCopy
import Esp32WebServers.Events.Sessions
import Esp32WebServers.Events.ReceiveBuffer
import Esp32WebServers.Events.Timers
import Esp32WebServers.Events.Order
import Esp32WebServers.Events.Waits
import Esp32WebServers.Tasks.AcceptLoop
import Esp32WebServers.Benchmark.Pairing
import Esp32WebServers.Base.Parties
import Esp32WebServers.System.Link
import Esp32WebServers.System.Servers
import Esp32WebServers.System.Requests
import Esp32WebServers.System.EndToEnd
import Esp32WebServers.System.Delivery
import Esp32WebServers.System.LostRequests
import Esp32WebServers.Events.Callbacks
import Esp32WebServers.Base.Clock
import Esp32WebServers.Base.Csv
import Esp32WebServers.System.Latency
import Esp32WebServers.System.Log
import Esp32WebServers.Base.Frames
import Esp32WebServers.System.Framed
import Esp32WebServers.System.Load
import Esp32WebServers.Base.Simulation
import Esp32WebServers.System.Descriptors
import Esp32WebServers.System.NodeMcu
import Esp32WebServers.System.Retransmission
