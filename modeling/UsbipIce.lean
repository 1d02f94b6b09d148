import UsbipIce.Lib.Machine
import UsbipIce.Control.Reserve
import UsbipIce.Client.Connections
import UsbipIce.EventSender.Sessions
import UsbipIce.Worker.Origin
import UsbipIce.Worker.Supply
import UsbipIce.Worker.Stale
import UsbipIce.Fleet.Fleet
import UsbipIce.Fleet.Availability
import UsbipIce.Worker.Homeward
import UsbipIce.Fleet.Agreement
import UsbipIce.Lib.Cp437
import UsbipIce.Lib.Search
import UsbipIce.PulseCount.Reader
import UsbipIce.PulseCount.Host
import UsbipIce.PulseCount.Files
import UsbipIce.PulseCount.Evaluation
import UsbipIce.PulseCount.Firmware
import UsbipIce.PulseCount.Link
import UsbipIce.PulseCount.Attribution
import UsbipIce.Worker.Requests
import UsbipIce.Control.Expiry
import UsbipIce.PulseCount.Exit
import UsbipIce.Utils.Accounting
import UsbipIce.Utils.Flashed
import UsbipIce.Client.Initialization
import UsbipIce.Client.PulseCountClient
import UsbipIce.Client.Tenant
import UsbipIce.Control.Transactions
import UsbipIce.Control.Overwrites
import UsbipIce.Control.Contention
import UsbipIce.Control.Timeouts
import UsbipIce.EventSender.Order
import UsbipIce.EventSender.Delivery
import UsbipIce.Control.Failures
import UsbipIce.Control.Reservations
import UsbipIce.Fleet.Ownership
import UsbipIce.EventSender.Serial
import UsbipIce.PulseCount.Results
import UsbipIce.PulseCount.Places
import UsbipIce.PulseCount.Chunks
import UsbipIce.PulseCount.Loop
import UsbipIce.PulseCount.Attempts
import UsbipIce.Client.AbstractEventHandler
import UsbipIce.Lib.Keys
import UsbipIce.Lib.Since
import UsbipIce.Worker.Testing
import UsbipIce.Worker.Flashing
import UsbipIce.Client.Batch
import UsbipIce.Client.Requests
import UsbipIce.Utils.Json
import UsbipIce.Client.Sockets
import UsbipIce.Lib.Collect
import UsbipIce.Utils.Bootloader
import UsbipIce.Client.Extender
import UsbipIce.Utils.Web
import UsbipIce.PulseCount.Counting
import UsbipIce.Utils.Circuit
import UsbipIce.Lib.Regex
import UsbipIce.Utils.Busid
import UsbipIce.Utils.UsbipPort
import UsbipIce.Client.UsbipHandler
import UsbipIce.Lib.Refinement
import UsbipIce.Lib.Lease
import UsbipIce.Lib.Polls
import UsbipIce.Control.Heartbeats
import UsbipIce.Control.Polling
import UsbipIce.Control.Warnings
import UsbipIce.Lib.RowHistory
import UsbipIce.Control.Grants
import UsbipIce.Control.Endings
import UsbipIce.Utils.RemoteLogger
import UsbipIce.PulseCount.Reports
import UsbipIce.PulseCount.Returned
import UsbipIce.Control.Endpoints
import UsbipIce.Client.Remote
import UsbipIce.Client.Announcements
import UsbipIce.Worker.Construction
