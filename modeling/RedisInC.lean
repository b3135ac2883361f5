import RedisInC.Memory
import RedisInC.Bytebuf
import RedisInC.ChainedTable
import RedisInC.Decimal
import RedisInC.Hashtable
import RedisInC.Framing
import RedisInC.Reply
import RedisInC.RespFramer
import RedisInC.Command
import RedisInC.CommandReply
import RedisInC.Session
import RedisInC.Reference
import RedisInC.Counter
import RedisInC.Readback
import RedisInC.Connection
import RedisInC.Pipeline
import RedisInC.Segmentation
import RedisInC.Grammar
import RedisInC.Incomplete
import RedisInC.Footprint
import RedisInC.Isolation
import RedisInC.Roundtrip
import RedisInC.Startup
import RedisInC.Leftover
import RedisInC.ReadLimit
import RedisInC.WindingDown
import RedisInC.LinkedList
import RedisInC.Server
import RedisInC.Ownership
import RedisInC.Interest
import RedisInC.WireForms
import RedisInC.Glob
import RedisInC.FiniteMap
import RedisInC.Keyspace
import RedisInC.Getset
import RedisInC.Checked
import RedisInC.Increment
import RedisInC.ByteQueue
import RedisInC.ReadGuard
import RedisInC.Integers
import RedisInC.Bounded
import RedisInC.ParserBounds
import RedisInC.ParserProgress
import RedisInC.BufferSafety
import RedisInC.ArgumentSafety
import RedisInC.Transition
import RedisInC.Service
import RedisInC.Serving
import RedisInC.Record
import RedisInC.Serializability
import RedisInC.Backlog
import RedisInC.BlockMemory
import RedisInC.Blocks
import RedisInC.TableBlocks
import RedisInC.TableRefinement
import RedisInC.BufferBlocks
import RedisInC.CommandBlocks
import RedisInC.CommandRefinement
import RedisInC.HandlerBlocks
import RedisInC.HandlerRefinement
import RedisInC.Listener
import RedisInC.ServerBlocks
import RedisInC.ServerRefinement
import RedisInC.Lifecycle
import RedisInC.ClientView
