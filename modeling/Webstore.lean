import Webstore.Lists
import Webstore.Sched.Prog
import Webstore.Sched.Machine
import Webstore.Sched.Outline
import Webstore.Expiry.Map
import Webstore.Expiry.Store
import Webstore.Libc
import Webstore.Redis
import Webstore.Redis.Commands
import Webstore.Srci
import Webstore.Searest
import Webstore.Searest.Upload
import Webstore.Searest.Dispatch
import Webstore.Node
import Webstore.Node.Flow
import Webstore.Node.Rule
import Webstore.Node.Refine
import Webstore.Node.Burn
import Webstore.Node.Immutable
import Webstore.Conn
import Webstore.Conn.Rule
import Webstore.Conn.Expire
import Webstore.Conn.Count
import Webstore.Uhd
import Webstore.Uhd.Grammar
import Webstore.Libc.Memory
import Webstore.Radix
import Webstore.Z85
import Webstore.Z85.Block
import Webstore.Z85.Refine
import Webstore.Client
import Webstore.Client.Flow
import Webstore.Client.Codec
import Webstore.Client.Transport
import Webstore.Client.Deliver
import Webstore.Client.Decode
import Webstore.Libc.Hex
import Webstore.Token
import Webstore.Token.Agree
import Webstore.Sched.Local
import Webstore.Node.Status
import Webstore.Conn.Counted
import Webstore.Sched.Apart
import Webstore.Service
import Webstore.Service.Guard
import Webstore.Service.FailStop
import Webstore.Service.Apart
import Webstore.Expiry.Window
import Webstore.Conn.Rate
import Webstore.Sched.Signal
import Webstore.Log
import Webstore.Log.Deadlock
import Webstore.Log.Close
import Webstore.Ring
import Webstore.Chain
import Webstore.Searest.Nodelist
import Webstore.Route
import Webstore.Searest.Table
import Webstore.Searest.Nodes
import Webstore.Conn.Identity
import Webstore.Searest.Flags
import Webstore.Searest.Timing
import Webstore.Searest.Linked
import Webstore.Sched.Progress
import Webstore.Sched.Trace
import Webstore.Daemon
import Webstore.Daemon.Flow
import Webstore.Daemon.Live
import Webstore.Daemon.Stored
import Webstore.Daemon.Origin
import Webstore.Session
import Webstore.Session.Integrity
import Webstore.Getopts
import Webstore.Setup
import Webstore.Setup.Config
import Webstore.Scripts
import Webstore.Scripts.Container
import Webstore.Sched.Serial
import Webstore.Daemon.Serial
import Webstore.Log.Lines
import Webstore.Daemon.Refine
