import NfNetwork.Machinery.Framing
import NfNetwork.Buffer.RingBufferQueue
import NfNetwork.Packet.Contents
import NfNetwork.Net.Receive
import NfNetwork.Net.ReceiveFraming
import NfNetwork.Net.ReceiveRun
import NfNetwork.Net.CrashFree
import NfNetwork.Lan.Receive
import NfNetwork.Lan.ReceiveFraming
import NfNetwork.Lan.WriteSafe
import NfNetwork.Machinery.ThreadPool
import NfNetwork.Machinery.Transition
import NfNetwork.Net.Server
import NfNetwork.Net.SessionLife
import NfNetwork.Net.SlotView
import NfNetwork.Net.ServerView
import NfNetwork.Machinery.Replay
import NfNetwork.Net.Conservation
import NfNetwork.Net.Acquire
import NfNetwork.Net.AcceptWindow
import NfNetwork.Net.IoCount
import NfNetwork.Net.CallbackPhase
import NfNetwork.Net.Callbacks
import NfNetwork.Net.SendLife
import NfNetwork.Net.SendView
import NfNetwork.Net.SendQueue
import NfNetwork.Net.SessionId
import NfNetwork.Net.FindSession
import NfNetwork.Net.ReadySending
import NfNetwork.Net.SendCall
import NfNetwork.Packet.EncodeSteps
import NfNetwork.Net.Broadcast
import NfNetwork.Net.SendOrder
import NfNetwork.Net.SendBatch
import NfNetwork.Net.References
import NfNetwork.Net.PacketPool
import NfNetwork.Machinery.Chain
import NfNetwork.Machinery.Crew
import NfNetwork.ObjectPool.ObjectPoolLockFree
import NfNetwork.ObjectPool.OneHolder
import NfNetwork.Collections.LockFreeQueue
import NfNetwork.Collections.QueueShape
import NfNetwork.Collections.QueueLists
import NfNetwork.Collections.QueueExact
import NfNetwork.Collections.LockFreeStack
import NfNetwork.Collections.StackShape
import NfNetwork.Collections.StackLifo
import NfNetwork.Collections.StackPopper
import NfNetwork.Net.SessionManager
import NfNetwork.Net.GiveBack
import NfNetwork.Machinery.Client
import NfNetwork.ObjectPool.SingleThread
import NfNetwork.ObjectPool.PoolReset
import NfNetwork.Collections.StackReset
import NfNetwork.Machinery.BoundedQueue
import NfNetwork.Buffer.ByteQueue
import NfNetwork.Buffer.ZeroCopy
import NfNetwork.Lan.RecvPost
import NfNetwork.Lan.RoundTrip
import NfNetwork.Lan.Server
import NfNetwork.Lan.ServerSteps
import NfNetwork.Lan.IoCount
import NfNetwork.Lan.SlotIndex
import NfNetwork.Machinery.Leases
import NfNetwork.ObjectPool.ObjectPoolTLS
import NfNetwork.ObjectPool.ChunkLeases
import NfNetwork.Net.ReceiveSpace
import NfNetwork.Collections.QueueClear
import NfNetwork.Lan.SessionManager
import NfNetwork.Lan.AcceptExhausted
import NfNetwork.Lan.Disconnect
import NfNetwork.Net.SendFailure
import NfNetwork.Packet.Reader
import NfNetwork.Chat.ChatUser
import NfNetwork.Chat.Handler
import NfNetwork.Machinery.Index
import NfNetwork.Chat.ChatUserManager
import NfNetwork.Chat.SectorManager
import NfNetwork.Chat.EventHandler
import NfNetwork.Chat.Consistency
import NfNetwork.Chat.JobRuns
import NfNetwork.Chat.SectorGrid
import NfNetwork.Chat.UserLifetime
import NfNetwork.Net.Delivered
import NfNetwork.Chat.MessageBuffer
import NfNetwork.Chat.JobSystem
import NfNetwork.Chat.JobEvent
import NfNetwork.Chat.PacketReferences
import NfNetwork.Chat.HandledJobs
import NfNetwork.Buffer.DirectRead
import NfNetwork.Collections.StackCapacity
import NfNetwork.ObjectPool.Bookkeeping
import NfNetwork.Packet.Serialisation
import NfNetwork.Packet.Reuse
import NfNetwork.Net.SectorManager
import NfNetwork.ObjectPool.Lifetimes
import NfNetwork.Machinery.Capacity
import NfNetwork.Collections.QueueBound
import NfNetwork.Net.SendQueueBound
import NfNetwork.Lan.SessionIds
import NfNetwork.Net.OneInFlight
import NfNetwork.Collections.QueueOrder
import NfNetwork.Machinery.Delta
import NfNetwork.Net.SectorAround
import NfNetwork.Net.SectorView
import NfNetwork.Net.SectorBroadcast
import NfNetwork.Machinery.Shelf
import NfNetwork.Profile.KeptSamples
import NfNetwork.Profile.ProfileThreadGroup
import NfNetwork.Profile.SampleAccount
import NfNetwork.Machinery.Tickets
import NfNetwork.Profile.Profiler
import NfNetwork.Machinery.Retry
import NfNetwork.ObjectPool.PoolRetries
import NfNetwork.ObjectPool.StressTest
import NfNetwork.Collections.StackRetries
import NfNetwork.Chat.Room
import NfNetwork.Chat.Wire
import NfNetwork.Chat.RoomView
import NfNetwork.Chat.RoomSteps
import NfNetwork.Chat.JobOrder
import NfNetwork.Chat.RoomRuns
import NfNetwork.Lan.SessionAccount
import NfNetwork.Lan.EchoServer
import NfNetwork.Chat.RoomWire
import NfNetwork.Lan.SendAttended
import NfNetwork.Share.Shutdown
import NfNetwork.Logging.Logger
import NfNetwork.Os.UniqueHandle
