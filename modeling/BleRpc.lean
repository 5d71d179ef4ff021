import BleRpc.Device.Framing
import BleRpc.Device.CommandSlot
import BleRpc.Device.LockStep
import BleRpc.Device.ResponseRead
import BleRpc.Host.RoundTrip
import BleRpc.Host.Isolation
import BleRpc.Host.Correlation
import BleRpc.EndToEnd.Ping
import BleRpc.Host.Storage
import BleRpc.Host.Decode
import BleRpc.Host.ListResponses
import BleRpc.Host.Signed
import BleRpc.Host.Encode
import BleRpc.Host.ListRequests
import BleRpc.Host.ScalarRequests
import BleRpc.Device.Snapshot
import BleRpc.Device.Leak
import BleRpc.EndToEnd.Conformance
import BleRpc.Host.Connect
import BleRpc.Device.DispatchSpec
import BleRpc.Device.Characteristics
import BleRpc.Device.Safety
import BleRpc.Host.Queue
import BleRpc.EndToEnd.Calls
import BleRpc.EndToEnd.Patient
import BleRpc.Device.LastSent
import BleRpc.Device.Wakeups
import BleRpc.Host.Session
import BleRpc.Host.Interference
import BleRpc.EndToEnd.NoFault
import BleRpc.EndToEnd.Procedures
