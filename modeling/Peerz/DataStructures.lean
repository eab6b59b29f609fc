import Mathlib.Algebra.Field.Rat
import Mathlib.Algebra.Order.Ring.WithTop
import Mathlib.Algebra.Order.Ring.Rat
import Peerz.Library.Dict

/-! Announcements, module records and spans, as they travel between the DHT,
the client's routing and the server's block selection. -/
namespace Peerz
open Library

/-- One module uid, `{dht_prefix}.{index}`, in the form `parse_uid` reads it. -/
structure ModuleUID where
  dhtPrefix : String
  index : Nat
deriving DecidableEq

inductive ServerState where
  | offline
  | joining
  | online
deriving DecidableEq

def ServerState.value : ServerState → Nat
  | .offline => 0
  | .joining => 1
  | .online => 2

/-- Requests per second: finite and non-negative. -/
abbrev RPS := ℚ≥0

/-- A round-trip time; an unreachable peer has an infinite one. -/
abbrev RTT := WithTop ℚ≥0

/-- A server's announcement. The field types are the constraints under which
`from_tuple` admits one, so an inadmissible announcement cannot be built. -/
structure ServerInfo where
  state : ServerState
  throughput : RPS
  startBlock : Option Nat := none
  endBlock : Option Nat := none
  inferenceRps : Option RPS := none
  adapters : List String := []
  cacheTokensLeft : Option Nat := none
  nextPings : Option (Dict String RTT) := none

structure RemoteModuleInfo (PeerID : Type) where
  uid : ModuleUID
  servers : Dict PeerID ServerInfo

/-- A chain of remote blocks served by one remote peer; `stop` is the source's `end`. -/
structure RemoteSpanInfo (PeerID : Type) where
  peerId : PeerID
  start : Int
  stop : Int
  serverInfo : ServerInfo

namespace RemoteSpanInfo

variable {PeerID : Type}

def length (span : RemoteSpanInfo PeerID) : Int := span.stop - span.start
def state (span : RemoteSpanInfo PeerID) : ServerState := span.serverInfo.state
def throughput (span : RemoteSpanInfo PeerID) : RPS := span.serverInfo.throughput

def Covers (span : RemoteSpanInfo PeerID) (block : Int) : Prop :=
  span.start ≤ block ∧ block < span.stop

instance (span : RemoteSpanInfo PeerID) (block : Int) : Decidable (span.Covers block) :=
  inferInstanceAs (Decidable (_ ∧ _))

end RemoteSpanInfo
end Peerz
