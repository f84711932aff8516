import Flywheel.Core.AuditChain
import Flywheel.Core.CborDepth
import Flywheel.Core.Counters
import Flywheel.Core.HybridClock
import Flywheel.Core.OrSet
import Flywheel.Core.PcsSecrecy
import Flywheel.Core.PolicyWidening
import Flywheel.Core.RevocationSeals
import Flywheel.Crypto.Canonicalize
import Flywheel.Crypto.ShamirSecrecy
import Flywheel.Host.CircuitBreaker
import Flywheel.Host.SlidingWindow
import Flywheel.Mesh.DegradedDecoder
import Flywheel.Mesh.Exclusivity
import Flywheel.Mesh.Frontier
import Flywheel.Mesh.GossipBudget
import Flywheel.Mesh.HierVvJoin
import Flywheel.Mesh.ManifestIndex
import Flywheel.Mesh.SignatureSets
import Flywheel.Mesh.StateRoot
import Flywheel.Mesh.SymbolRequests
import Flywheel.Policy.Constraints
import Flywheel.Policy.LatticeDelegation
import Flywheel.Protocol.FcpsRoundTrip
import Flywheel.Protocol.HelloReplay
import Flywheel.Protocol.ReplayWindow
import Flywheel.Raptorq.FactorCache
import Flywheel.Raptorq.Liveness
import Flywheel.Raptorq.Poisoning
import Flywheel.Store.Coverage
import Flywheel.Store.DurableStores
import Flywheel.Store.Lifecycle
import Flywheel.Store.Quarantine
import Flywheel.Store.Resume
