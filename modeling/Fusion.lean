import Fusion.Library.Memory
import Fusion.Library.Blocks
import Fusion.Hash.MDHash
import Fusion.Hash.Compression
import Fusion.Hash.Streaming
import Fusion.Library.MerkleDamgard
import Fusion.Hash.Padding
import Fusion.Library.Words
import Fusion.Library.SecureHash
import Fusion.Library.MessageDigest
import Fusion.Hash.ByteOrder
import Fusion.Library.Rotation
import Fusion.Hash.SHA256
import Fusion.Hash.SHA1
import Fusion.Hash.MD5
import Fusion.Hex
import Fusion.Library.KeyedHash
import Fusion.Hash.HMAC
import Fusion.Library.Runs
import Fusion.Result
import Fusion.Socket.Operation
import Fusion.Socket.Select
import Fusion.Socket.SelectInterest
import Fusion.Socket.SelectShutdown
import Fusion.Socket.SelectResults
import Fusion.Socket.EPoll
import Fusion.Socket.EPollRegistry
import Fusion.Socket.EPollInterest
import Fusion.Socket.EPollShutdown
import Fusion.Socket.EPollResults
import Fusion.Library.Polling
import Fusion.Socket.Wakeup
import Fusion.Library.Strings
import Fusion.Path.PathUtil
import Fusion.Path.Normalize
import Fusion.Library.Fuel
import Fusion.Path.NormalForm
import Fusion.Path.Parts
import Fusion.Path.Termination
import Fusion.Path.Idempotence
import Fusion.Path.Joining
import Fusion.Argparse.Parser
import Fusion.Argparse.Segments
import Fusion.Library.StableQueue
import Fusion.ThreadPool.Queue
import Fusion.ThreadPool.Ordering
import Fusion.Library.Ledger
import Fusion.ThreadPool.Pool
import Fusion.ThreadPool.Completion
import Fusion.ThreadPool.Liveness
import Fusion.Library.Buffers
import Fusion.Memory.MemoryReader
import Fusion.Memory.MemoryWriter
import Fusion.Memory.RoundTrip
import Fusion.Library.BoundedQueue
import Fusion.Memory.RingBuffer
import Fusion.Library.Heap
import Fusion.Vector.EmbeddedVector
import Fusion.Vector.Elements
import Fusion.Vector.Assignment
import Fusion.Library.Ownership
import Fusion.Vector.Evolution
import Fusion.Vector.World
import Fusion.Vector.Ownership
import Fusion.FixedStringBuilder
import Fusion.Library.Sorting
import Fusion.Argparse.Builder
import Fusion.Argparse.Required
import Fusion.Argparse.Arguments
import Fusion.Argparse.Descent
import Fusion.Argparse.Actions
import Fusion.Ascii.Characters
import Fusion.StringUtil.Trim
import Fusion.Library.FirstDifference
import Fusion.StringUtil.Compare
import Fusion.Ascii.Booleans
import Fusion.Argparse.Converters
import Fusion.StringUtil.Split
import Fusion.Argparse.Retry
import Fusion.Argparse.Inheritance
import Fusion.Argparse.Sharing
import Fusion.Argparse.Accesses
import Fusion.Argparse.Work
import Fusion.Argparse.Positionals
import Fusion.StringUtil.Numbers
import Fusion.Library.Numerals
import Fusion.StringUtil.Decimal
import Fusion.Ascii.Hex
import Fusion.Argparse.Language
import Fusion.Network.Address
import Fusion.Memory.MemoryUtil
import Fusion.Network.SocketAddress
import Fusion.Network.AddressText
import Fusion.Network.SockAddr
import Fusion.Network.AddressOrder
import Fusion.Library.Checks
import Fusion.Network.SocketPair
import Fusion.Signals
import Fusion.ConsoleLogger
import Fusion.QueuedLogSink
import Fusion.Environment
import Fusion.Hash.Finishing
import Fusion.Memory.Comparison
import Fusion.Memory.Equality
import Fusion.Ascii.Digits
import Fusion.Uuid.Parsing
import Fusion.Uuid.Order
import Fusion.Formatting
import Fusion.Hex.Values
import Fusion.Library.CyclicRanges
import Fusion.Random.Generators
import Fusion.Random.Ranges
import Fusion.Library.XorLinear
import Fusion.Random.NonZero
import Fusion.Random.Observation
import Fusion.Random.Liveness
import Fusion.Library.WordStream
import Fusion.Random.Bytes
import Fusion.Random.SystemBytes
import Fusion.Random.SecureBytes
import Fusion.Library.IntegerType
import Fusion.Memory.NarrowCast
import Fusion.Network.MappedAddress
import Fusion.ThreadPool.Callstack
import Fusion.Memory.RingBounds
import Fusion.Logging.Startup
import Fusion.Logging.Routing
import Fusion.Logging.Formatter
import Fusion.Context
import Fusion.Socket.Agreement
import Fusion.ThreadPool.Futures
import Fusion.ThreadPool.Waiting
import Fusion.Random.Seeds
import Fusion.DynamicLibrary
import Fusion.Summary
