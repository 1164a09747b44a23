import McacheClient.Lib.SortedMap
import McacheClient.Lib.Destutter
import McacheClient.Error
import McacheClient.Pool.Circle
import McacheClient.Pool.Ring
import McacheClient.Pool.Walk
import McacheClient.Proto.Response
import McacheClient.Client.Run
import McacheClient.Client.Failover
import McacheClient.Lib.Program
import McacheClient.Lib.Threads
import McacheClient.Proxy.Server
import McacheClient.Proxy.Sharing
import McacheClient.Proxy.Reviver
import McacheClient.Lib.Numeral
import McacheClient.Proto.Zlib
import McacheClient.Lib.Scan
import McacheClient.Proto.Parser
import McacheClient.Proto.Binary
import McacheClient.Proxy.InStep
import McacheClient.Lib.Stream
import McacheClient.Proto.Text
import McacheClient.Client.Counter
import McacheClient.Proto.Grammar
import McacheClient.Proto.Retrieval
import McacheClient.Client.Store
import McacheClient.Client.World
import McacheClient.Client.NoLostUpdate
import McacheClient.Client.Alone
import McacheClient.Client.Routed
import McacheClient.Client.Removal
import McacheClient.Pool.Permutation
import McacheClient.Proto.Decode
import McacheClient.Proxy.Health
import McacheClient.Proxy.Connections
import McacheClient.Io.Udp
import McacheClient.Client.Rejected
import McacheClient.Client.Compressed
import McacheClient.Server.Memcached
import McacheClient.Server.Replies
import McacheClient.Client.Calls
import McacheClient.Client.Interchange
import McacheClient.Proto.Bodies
import McacheClient.Proto.Expiration
import McacheClient.Client.Conversion
import McacheClient.Io.Datagrams
import McacheClient.Io.Tcp
import McacheClient.Proto.Value
import McacheClient.Lib.Blocks
import McacheClient.Hash.Words
import McacheClient.Hash.Spooky
import McacheClient.Hash.Murmur3
import McacheClient.Hash.Jenkins
import McacheClient.Hash.City
import McacheClient.Io.Link
import McacheClient.Proto.Chomp
import McacheClient.Io.Network
import McacheClient.Server.Complete
import McacheClient.Client.Session
import McacheClient.Lib.History
import McacheClient.Client.Concurrent
import McacheClient.Client.Counting
import McacheClient.Client.FlushAll
import McacheClient.Client.Steady
import McacheClient.Client.Updates
import McacheClient.Pool.Mod
import McacheClient.Client.Outages
import McacheClient.Python.Objects
import McacheClient.Python.Client
import McacheClient.Python.Dictionary
import McacheClient.Python.Refinement
import McacheClient.Python.Updates
