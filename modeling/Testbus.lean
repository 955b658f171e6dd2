import Testbus.Environ
import Testbus.Eventlog
import Testbus.Lib.Framing
import Testbus.Client.Paired
import Testbus.Proxy.Credit
import Testbus.Proxy.Listed
import Testbus.Proxy.Draining
import Testbus.Proxy.HalfClose
import Testbus.Proxy.Channels
import Testbus.Proxy.References
import Testbus.Proxy.Queue
import Testbus.Dbus.Records
import Testbus.Server.Agents
import Testbus.Server.Counts
import Testbus.Server.Exclusive
import Testbus.Server.Homes
import Testbus.Server.Inherited
import Testbus.Server.Paths
import Testbus.Agent.Delivery
import Testbus.Agent.Supplied
import Testbus.Agent.Environment
import Testbus.Agent.Upload
import Testbus.Client.Reboot
import Testbus.Dbus.Replies
import Testbus.Dbus.Trashcan
import Testbus.Dbus.RoundTrip
import Testbus.Subprocess.Queue
import Testbus.Xml.RoundTrip
import Testbus.Xml.Escape
import Testbus.Xml.Hash
import Testbus.Xml.Traverse
import Testbus.Xml.Alike
import Testbus.Xpath.Compare
import Testbus.Xpath.Predicate
import Testbus.Xpath.Released
import Testbus.Timing.Prompt
import Testbus.Sockets.Runs
import Testbus.Schema.RoundTrip
import Testbus.Schema.Signatures
import Testbus.Agent.Failing
import Testbus.Agent.Substitute
import Testbus.Client.Timeouts
import Testbus.Client.Tmpfiles
import Testbus.Client.Transfers
import Testbus.Proxy.Slots
import Testbus.Server.ProcessFiles
import Testbus.Proxy.Prompt
import Testbus.Proxy.Served
import Testbus.Dbus.Overloads
import Testbus.Dbus.Decoding
import Testbus.Timing.Reentrant
import Testbus.Dbus.Lookup
import Testbus.Dbus.Dict
import Testbus.Dbus.Cached
import Testbus.Dbus.Payload
import Testbus.Dbus.Generic
import Testbus.Schema.Extends
import Testbus.Config.Resolved
import Testbus.Schema.Lasting
import Testbus.Util.Vectors
import Testbus.Util.Comm
import Testbus.Util.VarArray
import Testbus.Util.Bitfield
import Testbus.Util.Texts
import Testbus.Util.Quoting
import Testbus.Subprocess.Environment
import Testbus.Subprocess.Run
import Testbus.Agent.Published
import Testbus.Util.Buffers
import Testbus.Util.Hex
