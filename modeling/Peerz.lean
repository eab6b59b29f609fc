import Peerz.Library.Dict
import Peerz.Library.PySequence
import Peerz.Library.Tiling
import Peerz.Library.Checked
import Peerz.Library.WeightedGraph
import Peerz.DataStructures
import Peerz.Utils.Dht
import Peerz.Utils.OnlineSpans
import Peerz.Client.Routing.SequenceInfo
import Peerz.Client.Routing.SequenceManager
import Peerz.Client.Routing.InferenceGraph
import Peerz.Client.Routing.Routes
import Peerz.Client.Routing.MakeSequence
import Peerz.Library.Runs
import Peerz.Client.Routing.Updates
import Peerz.Client.Routing.FailedPeer
import Peerz.Client.Routing.AccessLists
import Peerz.Library.Leximin
import Peerz.Server.BlockSelection
import Peerz.Server.BlockThroughputs
import Peerz.Server.Placement
import Peerz.Server.Rebalancing
import Peerz.Server.Settling
import Peerz.Server.MemoryCache
import Peerz.Server.CacheBudget
import Peerz.Server.Inference
import Peerz.Client.InferenceSession
import Peerz.Client.IdealSession
import Peerz.Client.SessionUpdates
import Peerz.Client.ServerHandling
import Peerz.Client.ServerSteps
import Peerz.Client.SessionPushes
import Peerz.Client.RetryLoop
import Peerz.Client.Attempts
import Peerz.Client.FaultTolerance
import Peerz.Client.QuietAttempts
import Peerz.Client.FailedSteps
import Peerz.Client.UndisturbedCalls
import Peerz.Client.Config
import Peerz.Client.Routing.Coverage
import Peerz.Server.BlockFunctions
import Peerz.Client.SequentialAutograd
import Peerz.Client.PlainChain
import Peerz.Client.SequentialForward
import Peerz.Client.SequentialBackward
import Peerz.Library.TableLog
import Peerz.Server.CacheContexts
import Peerz.Server.CacheAccounting
import Peerz.Server.CacheHandles
import Peerz.Server.SessionRegistry
import Peerz.Server.SessionReplicas
import Peerz.Validator.Health
import Peerz.Utils.Signature
import Peerz.Validator.Credits
import Peerz.Library.Effects
import Peerz.Validator.Validator
import Peerz.Sequencer.Sequencer
import Peerz.Library.Transducer
import Peerz.Server.Splitting
import Peerz.Server.Backend
import Peerz.Server.InferencePools
import Peerz.Server.PooledSteps
import Peerz.Server.SplitSteps
import Peerz.Server.InferenceStream
import Peerz.Client.PushPipeline
import Peerz.Client.ExactlyOnce
import Peerz.Client.PushedInputs
import Peerz.Server.PromptedChain
import Peerz.Server.CacheDescriptors
import Peerz.Client.PushAddresses
import Peerz.Utils.ExactSpans
import Peerz.Client.Routing.SequenceSlices
import Peerz.Server.RebalancingDecision
import Peerz.Client.SessionChain
import Peerz.Server.CacheLayout
import Peerz.Server.CacheSlots
import Peerz.Server.PoolPriority
import Peerz.Server.BackwardChain
import Peerz.Library.ReverseMode
import Peerz.Server.Differentiation
import Peerz.Client.Routing.LeastLatency
import Peerz.Utils.Asyncio
import Peerz.Server.WakeUps
import Peerz.Library.Sampling
import Peerz.Client.Routing.Pings
import Peerz.Library.Tensors
import Peerz.Models.Falcon
import Peerz.Models.FalconCache
import Peerz.Library.GreedyPrefix
import Peerz.Utils.DiskCache
import Peerz.Library.Nested
import Peerz.Library.PyInt
import Peerz.Utils.Packaging
import Peerz.Models.Bloom
import Peerz.Client.RemoteGeneration
import Peerz.Client.ResumedGeneration
import Peerz.Library.Triggered
import Peerz.Server.Announcer
import Peerz.Server.Announcements
import Peerz.Server.Lifecycle
import Peerz.Server.DeclaredSpans
import Peerz.Client.Routing.UpdateThread
import Peerz.Library.Batches
import Peerz.Server.BatchRows
import Peerz.Server.Hypotheses
import Peerz.Client.BatchedModel
import Peerz.Client.AutogradFunction
import Peerz.Client.AutogradRows
import Peerz.Client.AutogradBatches
import Peerz.Server.TaskDelivery
import Peerz.Library.Attention
import Peerz.Library.CausalLayer
import Peerz.Server.CausalBackend
import Peerz.Models.Linear
import Peerz.Models.Llama
import Peerz.Models.LlamaDecoding
import Peerz.Library.Parties
import Peerz.Server.UncoveredBlocks
import Peerz.Server.Swarm
import Peerz.Server.Bootstrap
import Peerz.Client.BeamSearch
import Peerz.Models.FalconBlock
import Peerz.Models.FalconDecoding
import Peerz.Models.BloomTraining
import Peerz.Server.FromPretrained
