import Mathlib.Data.Finset.Basic
import Peerz.Client.Routing.SequenceManager
import Peerz.Library.Runs

/-! The state of the sequence manager over time. A background thread refreshes the table in
the steps below, callers report failed peers in between, and the ready flag tells a routing
call whether to wait for the thread. -/
namespace Peerz.Client.Routing
open Library Utils.Dht

variable {PeerID : Type} [LinearOrder PeerID]

structure AccessLists (PeerID : Type) where
  allowedServers : Option (Finset PeerID) := none
  blockedServers : Option (Finset PeerID) := none

def AccessLists.Admits (lists : AccessLists PeerID) (peerId : PeerID) : Prop :=
  (∀ allowed ∈ lists.allowedServers, peerId ∈ allowed) ∧
    ∀ blocked ∈ lists.blockedServers, peerId ∉ blocked

instance (lists : AccessLists PeerID) (peerId : PeerID) : Decidable (lists.Admits peerId) :=
  inferInstanceAs (Decidable ((∀ allowed ∈ lists.allowedServers, _) ∧ _))

/-- The body of the loop of `_update` over the fetched records: the access lists, then the
bans, which are ignored on a block that would lose its last server. -/
def filterServers (lists : AccessLists PeerID) (banned : Finset PeerID)
    (blockInfo : RemoteModuleInfo PeerID) : RemoteModuleInfo PeerID :=
  let servers := blockInfo.servers.filter fun peerId _ => lists.Admits peerId
  let validServers := servers.filter fun peerId _ => peerId ∉ banned
  if validServers.size < servers.size ∧ 0 < validServers.size then
    { blockInfo with servers := validServers }
  else { blockInfo with servers := servers }

/-- Where `_update` stands; between two runs of it the thread sleeps. -/
inductive UpdatePhase (PeerID : Type) where
  | idle
  | started
  | filtering (kept pending : List (RemoteModuleInfo PeerID))
  | pinging

structure Manager (PeerID : Type) where
  info : RemoteSequenceInfo PeerID
  lists : AccessLists PeerID
  activeAdapter : Option String
  banned : Finset PeerID
  ready : Bool
  phase : UpdatePhase PeerID

inductive ManagerEvent (PeerID : Type) where
  /-- the thread wakes up, by its trigger or its period -/
  | startUpdate
  | fetch (found : ModuleUID → DHTRecord PeerID)
  | filterBlock
  | commit
  | finishUpdate
  /-- the update raises, and the thread goes back to sleep -/
  | abortUpdate
  /-- `update`, from a routing call that waits or from elsewhere -/
  | requestUpdate
  | registerFailure (peerId : PeerID)
  /-- a success is registered or the ban runs out -/
  | unban (peerId : PeerID)
  /-- the locked part of `on_request_failure` -/
  | dropServer (peerId : Option PeerID)

namespace Manager

def dropServer (manager : Manager PeerID) (peerId : Option PeerID) : Manager PeerID :=
  let blockInfos := manager.info.blockInfos.map fun blockInfo =>
    { blockInfo with servers := peerId.elim blockInfo.servers blockInfo.servers.erase }
  { manager with
    info :=
      { manager.info with
        blockInfos := blockInfos
        sameLength := by simpa [blockInfos] using manager.info.sameLength }
    -- a block without servers triggers an update
    ready := manager.ready && blockInfos.all fun blockInfo => 0 < blockInfo.servers.size }

def step (manager : Manager PeerID) (event : ManagerEvent PeerID) : Option (Manager PeerID) :=
  match event, manager.phase with
  | .startUpdate, .idle => some { manager with phase := .started }
  | .fetch found, .started =>
      let fetched := getRemoteModuleInfos found manager.info.blockUids manager.activeAdapter
      some { manager with phase := .filtering [] fetched }
  | .filterBlock, .filtering kept (blockInfo :: pending) =>
      let filtered := filterServers manager.lists manager.banned blockInfo
      some { manager with phase := .filtering (kept ++ [filtered]) pending }
  | .commit, .filtering kept [] =>
      (manager.info.update kept).map fun info => { manager with info, phase := .pinging }
  | .finishUpdate, .pinging => some { manager with ready := true, phase := .idle }
  | .abortUpdate, .started | .abortUpdate, .filtering _ _ | .abortUpdate, .pinging =>
      some { manager with phase := .idle }
  | .requestUpdate, _ => some { manager with ready := false }
  | .registerFailure peerId, _ => some { manager with banned := insert peerId manager.banned }
  | .unban peerId, _ => some { manager with banned := manager.banned.erase peerId }
  | .dropServer peerId, _ => some (manager.dropServer peerId)
  | _, _ => none

theorem step_spans {manager next : Manager PeerID} {event : ManagerEvent PeerID}
    (h : manager.step event = some next) (hne : event ≠ .commit) :
    next.info.spans = manager.info.spans := by
  unfold step at h
  split at h
  case h_4 => exact absurd rfl hne
  all_goals
    cases h
    try rfl

theorem step_commit {manager next : Manager PeerID} (h : manager.step .commit = some next) :
    ∃ kept, manager.phase = .filtering kept [] ∧ manager.info.update kept = some next.info ∧
      next.ready = manager.ready := by
  unfold step at h
  cases hphase : manager.phase with
  | filtering kept pending =>
      rw [hphase] at h
      cases pending with
      | nil =>
          obtain ⟨info, hinfo, rfl⟩ := Option.map_eq_some_iff.mp h
          exact ⟨kept, rfl, hinfo, rfl⟩
      | cons blockInfo pending => cases h
  | idle | started | pinging =>
      rw [hphase] at h
      cases h

theorem step_ready {manager next : Manager PeerID} {event : ManagerEvent PeerID}
    (h : manager.step event = some next) (hready : next.ready = true) :
    manager.ready = true ∨ event = .finishUpdate := by
  unfold step at h
  split at h
  case h_4 =>
      obtain ⟨info, -, rfl⟩ := Option.map_eq_some_iff.mp h
      exact .inl hready
  case h_5 => exact .inr rfl
  case h_12 =>
      cases h
      exact .inl (Bool.and_eq_true_iff.mp hready).1
  all_goals
    cases h
    try first | exact .inl hready | cases hready

theorem step_finishUpdate_ready {manager next : Manager PeerID}
    (h : manager.step .finishUpdate = some next) : next.ready = true := by
  unfold step at h
  cases hphase : manager.phase with
  | pinging =>
      rw [hphase] at h
      cases h
      rfl
  | idle | started | filtering =>
      rw [hphase] at h
      cases h

def view (manager : Manager PeerID) (clientServerRtts : PeerID → Option RTT)
    (toBase58 : PeerID → String) : RoutingView PeerID where
  spans := manager.info.spans
  numBlocks := manager.info.blockUids.length
  clientServerRtts := clientServerRtts
  toBase58 := toBase58

end Manager
end Peerz.Client.Routing
