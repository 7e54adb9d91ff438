import TestIOCP.Bounds.Accesses
import TestIOCP.Bounds.Path
import TestIOCP.CString
import TestIOCP.Cells
import TestIOCP.Center
import TestIOCP.Commuting
import TestIOCP.CompletionPort
import TestIOCP.Engine.Account
import TestIOCP.Engine.Accounting
import TestIOCP.Engine.Connecter
import TestIOCP.Engine.ConnecterCalls
import TestIOCP.Engine.Coverage
import TestIOCP.Engine.Discipline
import TestIOCP.Engine.Overflow
import TestIOCP.Engine.Recycling
import TestIOCP.Engine.Released
import TestIOCP.Engine.Session
import TestIOCP.Engine.Worker
import TestIOCP.Engine.WorkerCalls
import TestIOCP.Erasure
import TestIOCP.Extent
import TestIOCP.File.Packets
import TestIOCP.File.Rejected
import TestIOCP.File.Returns
import TestIOCP.File.Stream
import TestIOCP.File.Writer
import TestIOCP.Frames
import TestIOCP.History
import TestIOCP.Ledger
import TestIOCP.LoadTest.Connection
import TestIOCP.LoadTest.Packs
import TestIOCP.LoadTest.Session
import TestIOCP.NoLockBiList.Linearizable
import TestIOCP.NoLockBiList.Machine
import TestIOCP.NoLockBiList.Safety
import TestIOCP.NoLockBiList.Sequential
import TestIOCP.NoLockBiList.Shape
import TestIOCP.NoLockBiList.Track
import TestIOCP.Pool
import TestIOCP.Program
import TestIOCP.Refinement
import TestIOCP.Rtsp.Answer
import TestIOCP.Rtsp.Carried
import TestIOCP.Rtsp.CommandLine
import TestIOCP.Rtsp.Compositional
import TestIOCP.Rtsp.Cursor
import TestIOCP.Rtsp.Decimal
import TestIOCP.Rtsp.Durations
import TestIOCP.Rtsp.Framing
import TestIOCP.Rtsp.Grammar
import TestIOCP.Rtsp.Headers
import TestIOCP.Rtsp.Isolation
import TestIOCP.Rtsp.LifeCycle
import TestIOCP.Rtsp.Lines
import TestIOCP.Rtsp.Message
import TestIOCP.Rtsp.Overlong
import TestIOCP.Rtsp.Pieces
import TestIOCP.Rtsp.Pipelined
import TestIOCP.Rtsp.Reassembly
import TestIOCP.Rtsp.Rejected
import TestIOCP.Rtsp.Reparsed
import TestIOCP.Rtsp.Sequence
import TestIOCP.Rtsp.Server
import TestIOCP.Rtsp.Splitting
import TestIOCP.Rtsp.Transports
import TestIOCP.Rtsp.Utils
import TestIOCP.Rtsp.Words
import TestIOCP.Serial
import TestIOCP.Server.AcceptLoop
import TestIOCP.Server.Balanced
import TestIOCP.Server.Blocks
import TestIOCP.Server.Buffers
import TestIOCP.Server.Calls
import TestIOCP.Server.Clients
import TestIOCP.Server.Connections
import TestIOCP.Server.Contents
import TestIOCP.Server.Discipline
import TestIOCP.Server.Echo
import TestIOCP.Server.Lending
import TestIOCP.Server.Machine
import TestIOCP.Server.MemCache
import TestIOCP.Server.Notices
import TestIOCP.Server.Partition
import TestIOCP.Server.RecordPool
import TestIOCP.Server.Records
import TestIOCP.Server.Reported
import TestIOCP.Server.Service
import TestIOCP.Server.SlabSizes
import TestIOCP.Server.Sockets
import TestIOCP.Server.Streams
import TestIOCP.Server.Survival
import TestIOCP.Stock
import TestIOCP.Tcp.Accepting
import TestIOCP.Tcp.Balance
import TestIOCP.Tcp.Connecter
import TestIOCP.Tcp.Conservation
import TestIOCP.Tcp.Erased
import TestIOCP.Tcp.Listener
import TestIOCP.Tcp.Listening
import TestIOCP.Tcp.Matching
import TestIOCP.Tcp.Owned
import TestIOCP.Tcp.Owners
import TestIOCP.Tcp.Parts
import TestIOCP.Tcp.Session
import TestIOCP.Tcp.Stocks
import TestIOCP.Tcp.Worker
import TestIOCP.Transition
import TestIOCP.Udp.Buffers
import TestIOCP.Udp.Delivery
import TestIOCP.Udp.Receiver
import TestIOCP.Udp.Recording
import TestIOCP.Udp.Session
import TestIOCP.Udp.System
