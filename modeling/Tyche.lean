import Tyche.Bytes
import Tyche.Types
import Tyche.Floating
import Tyche.Machine
import Tyche.Dict
import Tyche.Fifo
import Tyche.Job
import Tyche.Broker
import Tyche.Proc
import Tyche.Threads
import Tyche.Multipart
import Tyche.SharedMemory.Queue
import Tyche.SharedMemory.Theorems
import Tyche.Cpp.Message
import Tyche.Cpp.Engine
import Tyche.Cpp.JobRouter
import Tyche.Cpp.Theorems.Jobs
import Tyche.Cpp.Theorems.Conservation
import Tyche.Cpp.Theorems.Output
import Tyche.Cpp.Theorems.Timeouts
import Tyche.Cpp.Theorems.Waiting
import Tyche.Cpp.Theorems.Isolation
import Tyche.Json
import Tyche.Msgpack
import Tyche.Cpp.Serialization
import Tyche.Cpp.Theorems.Serialization
import Tyche.Python.Value
import Tyche.Python.Engine
import Tyche.Python.JobRouter
import Tyche.Python.Workers
import Tyche.Python.Events
import Tyche.Python.EventProxy
import Tyche.Python.Registry
import Tyche.Python.Theorems.Calls
import Tyche.Python.Theorems.Jobs
import Tyche.Python.Theorems.Broker
import Tyche.Python.Theorems.Idle
import Tyche.Python.Theorems.Robustness
import Tyche.Python.Theorems.Values
import Tyche.Python.Theorems.EventWorkers
import Tyche.Python.Theorems.TopicQueues
import Tyche.Python.Theorems.Serves
import Tyche.Python.Theorems.Registry
import Tyche.Python.Theorems.Output
import Tyche.Isolation
import Tyche.Python.Theorems.Waiting
import Tyche.Waiting
import Tyche.Python.Theorems.Isolation
import Tyche.Log
import Tyche.Sample
import Tyche.Cpp.RingBuffer
import Tyche.Cpp.Events
import Tyche.Cpp.EventProxy
import Tyche.Cpp.Theorems.Broadcast
import Tyche.Reachable
import Tyche.Cpp.Theorems.Collection
import Tyche.Python.Theorems.Collection
import Tyche.Collection
import Tyche.Cpp.JobWorkers
import Tyche.Cpp.Theorems.Unregistration
import Tyche.Mutex
import Tyche.Discipline
import Tyche.Rust.Module
import Tyche.Rust.Theorems.Mutexes
import Tyche.Rust.Theorems.Holders
import Tyche.Rust.Theorems.Answers
import Tyche.Cpp.Module
import Tyche.Cpp.Theorems.Answers
import Tyche.Answers
import Tyche.Python.Theorems.InStep
import Tyche.Roster
import Tyche.Cpp.Registry
import Tyche.Cpp.Theorems.Registry
import Tyche.Refinement
import Tyche.Cpp.ShardedTopicMap
import Tyche.Cpp.Theorems.ShardedTopicMap
import Tyche.Publication
import Tyche.Python.StaticData
import Tyche.Python.Theorems.StaticData
import Tyche.Python.Types
import Tyche.Python.Module
import Tyche.Python.Theorems.Module
import Tyche.Decimal
import Tyche.Python.Message
import Tyche.Python.Theorems.Message
import Tyche.Deadlines
import Tyche.Fields
import Tyche.Python.Registration
import Tyche.Cpp.Registration
import Tyche.Registrations
import Tyche.Smearing
import Tyche.Cpp.Theorems.RingBuffer
import Tyche.Cpp.TopicQueue
import Tyche.Cpp.Theorems.TopicQueue
import Tyche.Cpp.Frames
import Tyche.Cpp.Theorems.Frames
import Tyche.Python.Heartbeat
import Tyche.Python.Theorems.Heartbeat
import Tyche.Cpp.Heartbeat
import Tyche.Cpp.Theorems.Heartbeat
import Tyche.Python.Admission
import Tyche.Python.Theorems.Admission
import Tyche.RoundRobin
import Tyche.Python.Theorems.Dispatches
import Tyche.Python.Theorems.Exclusion
import Tyche.Python.Theorems.Fairness
import Tyche.Cpp.Theorems.Fairness
import Tyche.Fairness
import Tyche.Aging
import Tyche.Python.Theorems.Aging
import Tyche.Cpp.Theorems.Aging
import Tyche.Expiry
import Tyche.Python.Packing
import Tyche.Python.JobReceiver
import Tyche.Python.Theorems.JobReceiver
import Tyche.Interference
import Tyche.Python.Requests
import Tyche.Cpp.Theorems.Requests
import Tyche.Python.Theorems.Requests
import Tyche.Requests
import Tyche.Cpp.Handlers
import Tyche.Cpp.Theorems.Handlers
import Tyche.Handlers
import Tyche.Cpp.Decoding
import Tyche.Cpp.Theorems.Decoding
import Tyche.Packer
import Tyche.Cpp.Packing
import Tyche.Cpp.Theorems.Packing
import Tyche.Memory
import Tyche.Cpp.Flat
import Tyche.Cpp.Theorems.Flat
import Tyche.Python.Envelope
import Tyche.Python.Theorems.Envelope
import Tyche.JsonText
import Tyche.JsonWords
import Tyche.Utf8
import Tyche.Rounding
import Tyche.Format
import Tyche.Cpp.DeadLetter
import Tyche.Cpp.Theorems.DeadLetter
import Tyche.Cpp.Theorems.RecordText
import Tyche.JsonSearch
import Tyche.Calendar
import Tyche.Journal
import Tyche.Cpp.Theorems.Replay
import Tyche.Shortest
import Tyche.Python.Json
import Tyche.Python.DeadLetter
import Tyche.Python.Theorems.Json
import Tyche.Python.Theorems.Decoding
import Tyche.Python.Theorems.DeadLetter
import Tyche.DeadLetters
import Tyche.Linked
import Tyche.Spread
import Tyche.Cpp.ObjectPool
import Tyche.Cpp.Theorems.ObjectPool
import Tyche.Interning
import Tyche.Cpp.InternTable
import Tyche.Cpp.Theorems.InternTable
import Tyche.CharArray
import Tyche.Cpp.QuoteTick
import Tyche.Cpp.Theorems.QuoteTick
import Tyche.Cpp.Gateway
import Tyche.Cpp.Theorems.Gateway
import Tyche.Cpp.QuoteValidator
import Tyche.Cpp.Theorems.QuoteValidator
import Tyche.Python.OptionId
import Tyche.Python.Theorems.OptionId
import Tyche.Python.Greeks
import Tyche.Python.Theorems.Greeks
import Tyche.JsonLayout
import Tyche.JsonCut
import Tyche.Python.Storage
import Tyche.Python.Theorems.Storage
import Tyche.Python.Filters
import Tyche.Python.Theorems.Filters
import Tyche.Cpp.RingBufferSteps
import Tyche.Cpp.Theorems.RingBufferProducers
import Tyche.Cpp.FrameObjects
import Tyche.Cpp.Theorems.FrameObjects
import Tyche.Cpp.Theorems.TopicQueueIndex
import Tyche.Python.JobThreads
import Tyche.Python.Theorems.JobThreads
import Tyche.Python.JobSockets
import Tyche.Python.Theorems.JobSockets
import Tyche.Cpp.Theorems.RingBufferOverwrites
import Tyche.Network
import Tyche.Python.JobSystem
import Tyche.Python.Theorems.Packing
import Tyche.Python.Theorems.JobModules
import Tyche.Python.Theorems.JobSystem
import Tyche.Interoperation
import Tyche.Cpp.MdSpi
import Tyche.Python.EventBus
