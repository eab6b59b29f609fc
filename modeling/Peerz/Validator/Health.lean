import Mathlib.Data.NNRat.Defs
import Mathlib.Data.Prod.Lex
import Mathlib.Data.String.Basic
import Mathlib.Data.NNRat.Floor
import Peerz.Library.PySequence
import Peerz.Utils.Dht

/-! The health state a validator observes: the online servers of all listed models, with the
throughput and the number of layers each is credited for. -/
namespace Peerz.Validator
open Library Utils.Dht

inductive HealthError where
  | assertionError
  | valueError
  | typeError
deriving DecidableEq

/-- A record of the model index, as `from_dict` admits it. -/
structure ModelInfo where
  numBlocks : Nat
  positive : 1 ≤ numBlocks
  repository : Option String := none

/-- A model of the index under the subkey it was found at. -/
structure ListedModel extends ModelInfo where
  dhtPrefix : String

structure HealthEntry (PeerID : Type) where
  peerId : PeerID
  throughput : Nat
  layers : Int
deriving DecidableEq

variable {PeerID : Type}

/-- Python's `round` of a float: to the nearest integer, and from the middle to the even one. -/
def pyRound (value : RPS) : Nat :=
  let lower := ⌊value⌋₊
  if value < lower + 0.5 then lower
  else if lower + 0.5 < value then lower + 1
  else if lower % 2 = 0 then lower else lower + 1

def onHuggingFace (model : ModelInfo) : Bool :=
  match model.repository with
  | none => false
  | some repository => "https://huggingface.co/".isPrefixOf repository

/-- `(-info.num_blocks, info.dht_prefix)`. -/
def sortKey (model : ListedModel) : Int ×ₗ String := toLex (-model.numBlocks, model.dhtPrefix)

/-- The custom models of the index, in the order they are processed; `none` stands for an
index that is absent or no dictionary, and for a record that `from_dict` rejects. -/
def listedModels (modelIndex : Option (Dict String (Option ModelInfo))) : List ListedModel :=
  match modelIndex with
  | none => []
  | some index =>
      (index.entries.filterMap fun entry =>
        (entry.2.filter onHuggingFace).map fun model =>
          { model with dhtPrefix := entry.1 }).insertionSort
        fun left right => sortKey left ≤ sortKey right

def blockUids (model : ListedModel) : List ModuleUID :=
  (List.range model.numBlocks).map fun index => ⟨model.dhtPrefix, index⟩

/-- `parse_uid` of a uid that was built from its parts: the parts come back when the prefix
holds neither delimiter. -/
def parseUid (uid : ModuleUID) : Except HealthError (String × Nat) :=
  if ' ' ∈ uid.dhtPrefix.toList then .error .assertionError
  else if '.' ∈ uid.dhtPrefix.toList then .error .valueError
  else .ok (uid.dhtPrefix, uid.index)

def onlineServer (peerId : PeerID) (span : RemoteSpanInfo PeerID) :
    Except HealthError (HealthEntry PeerID) :=
  match span.serverInfo.endBlock, span.serverInfo.startBlock with
  | some endBlock, some startBlock =>
      .ok ⟨peerId, pyRound span.serverInfo.throughput, endBlock - startBlock⟩
  | _, _ => .error .typeError

variable [LinearOrder PeerID]

/-- `compute_spans(…, min_state=OFFLINE)`, which parses the first uid of its window. -/
def modelServers (moduleInfos : List (RemoteModuleInfo PeerID)) :
    Except HealthError (Dict PeerID (RemoteSpanInfo PeerID)) :=
  match moduleInfos with
  | [] => .ok (computeSpans [] .offline)
  | first :: _ => do
      let _ ← parseUid first.uid
      return computeSpans moduleInfos .offline

/-- One turn of the loop over the models, with the servers found so far and the offset. -/
def visitModel (moduleInfos : List (RemoteModuleInfo PeerID))
    (state : Dict PeerID (RemoteSpanInfo PeerID) × Nat) (model : ListedModel) :
    Except HealthError (Dict PeerID (RemoteSpanInfo PeerID) × Nat) := do
  let (allServers, offset) := state
  let servers ← modelServers (pySlice moduleInfos offset (offset + model.numBlocks))
  return (allServers.update servers, offset + model.numBlocks)

def fetchHealthState (modelIndex : Option (Dict String (Option ModelInfo)))
    (found : ModuleUID → DHTRecord PeerID) : Except HealthError (List (HealthEntry PeerID)) := do
  let models := listedModels modelIndex
  let moduleInfos := getRemoteModuleInfos found (models.flatMap blockUids) none
  let (allServers, _) ← models.foldlM (visitModel moduleInfos) (Dict.empty, 0)
  (allServers.entries.filter fun entry => entry.2.state = .online).mapM fun entry =>
    onlineServer entry.1 entry.2

end Peerz.Validator
