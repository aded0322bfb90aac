import BackendPatterns.Lib.Machine
import BackendPatterns.Lib.Threads
import BackendPatterns.Lib.CondVar
import BackendPatterns.Lib.History
import BackendPatterns.Lib.Fifo
import BackendPatterns.BoundedQueue.Queue
import BackendPatterns.BoundedQueue.System
import BackendPatterns.BoundedQueue.Linear
import BackendPatterns.BoundedQueue.WakeUp
import BackendPatterns.BoundedQueue.Program
import BackendPatterns.BoundedQueue.Control
import BackendPatterns.BoundedQueue.Handled
import BackendPatterns.BoundedQueue.Progress
import BackendPatterns.BoundedQueue.Completion
import BackendPatterns.ThreadPool.Pool
import BackendPatterns.ThreadPool.WakeUp
import BackendPatterns.ThreadPool.Futures
import BackendPatterns.ThreadPool.ExactlyOnce
import BackendPatterns.ThreadPool.Construction
import BackendPatterns.FirstSuccess.Race
import BackendPatterns.FirstSuccess.Counts
import BackendPatterns.FirstSuccess.OneOutcome
import BackendPatterns.Lib.Storage
import BackendPatterns.Commands.Client
import BackendPatterns.Commands.Queue
import BackendPatterns.Commands.Retry
import BackendPatterns.Lib.Frames
import BackendPatterns.Reactor.Loop
import BackendPatterns.Reactor.Wiring
import BackendPatterns.Reactor.Reachable
import BackendPatterns.Reactor.Streams
import BackendPatterns.Reactor.Closes
import BackendPatterns.Observer.Dispatcher
import BackendPatterns.Observer.Reentrancy
import BackendPatterns.Observer.Routing
import BackendPatterns.Lib.Bytes
import BackendPatterns.Lib.Counter
import BackendPatterns.Lib.ReadThrough
import BackendPatterns.Facade.Service
import BackendPatterns.Facade.Transparent
import BackendPatterns.Lib.Trace
import BackendPatterns.Session.Connection
import BackendPatterns.Session.History
import BackendPatterns.Nvi.CacheService
import BackendPatterns.Nvi.Bounds
import BackendPatterns.Nvi.Interface
import BackendPatterns.Lib.Heap
import BackendPatterns.RuleOfFive.Arena
import BackendPatterns.RuleOfFive.Represents
import BackendPatterns.RuleOfFive.Ownership
import BackendPatterns.RuleOfFive.ValueSemantics
import BackendPatterns.RuleOfFive.Bounds
import BackendPatterns.Composite.Handler
import BackendPatterns.Composite.Routing
import BackendPatterns.Composite.SameEndpoints
import BackendPatterns.Bridge.Logger
import BackendPatterns.Bridge.Lines
import BackendPatterns.Lib.Json
import BackendPatterns.Bridge.Json
import BackendPatterns.Bridge.Reader
import BackendPatterns.Lib.Codec
import BackendPatterns.CacheKey.KeyParts
import BackendPatterns.CacheKey.Decoding
import BackendPatterns.CacheKey.Collisions
import BackendPatterns.Lib.MinElement
import BackendPatterns.Lib.Balance
import BackendPatterns.Strategy.Router
import BackendPatterns.Strategy.LeastLoaded
import BackendPatterns.Lib.Turns
import BackendPatterns.Strategy.RoundRobin
import BackendPatterns.Proxy.FeatureFlags
import BackendPatterns.Proxy.Stacked
import BackendPatterns.Lib.Decimal
import BackendPatterns.Visitor.Serializer
import BackendPatterns.Lib.Intern
import BackendPatterns.Flyweight.Roles
import BackendPatterns.Lib.Handles
import BackendPatterns.Reactor.Owners
import BackendPatterns.Reactor.Ownership
import BackendPatterns.Lib.Horner
import BackendPatterns.ThreadPool.Parse
import BackendPatterns.BoundedQueue.Termination
import BackendPatterns.BoundedQueue.Order
import BackendPatterns.ThreadPool.Liveness
import BackendPatterns.ThreadPool.Rank
import BackendPatterns.ThreadPool.Shutdown
import BackendPatterns.ThreadPool.Answers
import BackendPatterns.ThreadPool.FanOut
import BackendPatterns.ThreadPool.Checksum
import BackendPatterns.FirstSuccess.Demo
import BackendPatterns.Reactor.Rank
import BackendPatterns.Reactor.Serves
import BackendPatterns.Lib.Makespan
import BackendPatterns.Strategy.Competitive
import BackendPatterns.Log.Lines
import BackendPatterns.Lib.Counted
import BackendPatterns.Pointers.Context
import BackendPatterns.Pointers.Lifetimes
import BackendPatterns.Lib.Unique
import BackendPatterns.Pimpl.DatabaseService
import BackendPatterns.Pimpl.Hidden
import BackendPatterns.Decorator.Stack
import BackendPatterns.Lib.FirstAnswer
import BackendPatterns.AbstractFactory.UserRepository
import BackendPatterns.Observer.Orders
import BackendPatterns.CacheKey.Hex
import BackendPatterns.Raii.FileHandle
import BackendPatterns.Lib.Transcript
import BackendPatterns.Session.Transcript
