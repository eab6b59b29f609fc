import Peerz.Client.Routing.Routes
import Peerz.Client.Routing.Updates

/-! What a reported failure does to later routes. `on_request_failure` drops the peer from
the records, while routing reads the span lists, which only an update derives again. -/
namespace Peerz.Client.Routing
open Library Utils.Dht

variable {PeerID : Type}

def SpanLists.Lists (spans : SpanLists PeerID) (peerId : PeerID) : Prop :=
  ∃ span ∈ spans.spansByPriority, span.peerId = peerId ∧ span.start < span.stop

namespace RoutingView

variable {view : RoutingView PeerID}

theorem lists_of_spansAt (hsorted : view.spans.WellSorted view.numBlocks) {blockIdx : Int}
    {candidates : List (RemoteSpanInfo PeerID)} (h : view.spansAt blockIdx = .ok candidates)
    {span : RemoteSpanInfo PeerID} (hmem : span ∈ candidates) : view.spans.Lists span.peerId := by
  have hlisted : candidates ∈ view.spans.spansContainingBlock := by
    unfold spansAt at h
    split at h
    · rename_i hget
      cases h
      exact mem_of_pyGet? hget
    · cases h
  rw [hsorted.containing] at hlisted
  obtain ⟨block, -, rfl⟩ := List.mem_map.mp hlisted
  obtain ⟨hspan, hcovers⟩ := List.mem_filter.mp hmem
  have hcovers : span.Covers block := of_decide_eq_true hcovers
  exact ⟨span, hspan, rfl, hcovers.1.trans_lt hcovers.2⟩

theorem lists_of_maxThroughputLoop (hsorted : view.spans.WellSorted view.numBlocks)
    {endIndex : Int} {turns : Nat} {draws : List Nat} {currentIndex : Int}
    {route : List (RemoteSpanInfo PeerID)}
    (h : view.maxThroughputLoop endIndex turns draws currentIndex = .ok route) :
    ∀ span ∈ route, view.spans.Lists span.peerId := by
  induction turns generalizing draws currentIndex route with
  | zero =>
      obtain rfl := maxThroughputLoop_done (maxThroughputLoop_zero h) h
      simp
  | succ turns ih =>
      by_cases hlt : currentIndex < endIndex
      · obtain ⟨candidates, chosen, rest, hcandidates, hchosen, -, hrest, rfl⟩ :=
          maxThroughputLoop_succ hlt h
        intro span hspan
        rcases List.mem_cons.mp hspan with rfl | hspan
        · change view.spans.Lists chosen.peerId
          exact lists_of_spansAt hsorted hcandidates hchosen
        · exact ih hrest span hspan
      · obtain rfl := maxThroughputLoop_done hlt h
        simp

theorem exists_route_of_lists (hsorted : view.spans.WellSorted view.numBlocks) {peerId : PeerID}
    (h : view.spans.Lists peerId) :
    ∃ startIndex endIndex draws route,
      view.makeSequenceWithMaxThroughput draws startIndex endIndex = .ok route ∧
        ∃ span ∈ route, span.peerId = peerId := by
  obtain ⟨span, hspan, rfl, hlt⟩ := h
  obtain ⟨hlow, hhigh⟩ := hsorted.inBounds span hspan
  have hcovers : span.Covers span.start := ⟨le_rfl, hlt⟩
  obtain ⟨draw, hdraw⟩ := exists_draw (mem_listedAt.mpr ⟨hspan, hcovers⟩)
    fun other hmem => view.spanWeight_pos (mem_listedAt.mp hmem).2
  have hne : (view.listedAt span.start).isEmpty = false := by
    rw [List.isEmpty_eq_false_iff_exists_mem]
    exact ⟨span, mem_listedAt.mpr ⟨hspan, hcovers⟩⟩
  have hdone : view.maxThroughputLoop (span.start + 1) 0 [] span.stop = .ok [] := by
    unfold maxThroughputLoop
    rw [if_neg (by omega)]
  refine ⟨span.start, span.start + 1, [draw], [span], ?_, span, List.mem_singleton_self _, rfl⟩
  have hturns : (span.start + 1 - span.start).toNat = 1 := by omega
  unfold makeSequenceWithMaxThroughput
  rw [hturns]
  unfold maxThroughputLoop
  rw [if_pos (by omega), spansAt_eq hsorted hlow (by omega)]
  simp only [bind, Except.bind, hne, List.headD_cons, hdraw, hcovers, not_true_eq_false, if_false,
    List.tail_cons, hdone]
  rfl

variable [DecidableEq PeerID]

theorem visitNode_infos {serverInfos : PeerID → Option ServerInfo}
    {route next : List (RemoteSpanInfo PeerID)} {node : Node PeerID}
    (hroute : ∀ span ∈ route, (serverInfos span.peerId).isSome)
    (h : visitNode serverInfos route node = .ok next) :
    ∀ span ∈ next, (serverInfos span.peerId).isSome := by
  cases node with
  | start => cases h
  | finish => cases h
  | «at» peerId blockIdx =>
      have hopened : ∀ serverInfo, serverInfos peerId = some serverInfo →
          ∀ span ∈ ⟨peerId, blockIdx, blockIdx, serverInfo⟩ :: route,
            (serverInfos span.peerId).isSome := by
        intro serverInfo hinfo span hspan
        rcases List.mem_cons.mp hspan with rfl | hspan
        · simp [hinfo]
        · exact hroute span hspan
      unfold visitNode at h
      dsimp only at h
      cases route with
      | nil =>
          dsimp only at h
          split at h
          · cases h
          · rename_i serverInfo hinfo
            cases h
            exact hopened serverInfo hinfo
      | cons newest earlier =>
          dsimp only at h
          split at h
          · split at h
            · cases h
            · rename_i serverInfo hinfo
              cases h
              exact hopened serverInfo hinfo
          · cases h
            intro span hspan
            rcases List.mem_cons.mp hspan with rfl | hspan
            · exact hroute newest List.mem_cons_self
            · exact hroute span (List.mem_cons_of_mem _ hspan)

theorem lists_of_makeSequenceWithMinLatency (hsorted : view.spans.WellSorted view.numBlocks)
    {findPath : PathSearch (Node PeerID)} {startIndex endIndex : Int}
    {cacheTokensNeeded : Option Int} {route : List (RemoteSpanInfo PeerID)}
    (h : view.makeSequenceWithMinLatency findPath startIndex endIndex cacheTokensNeeded =
      .ok route) : ∀ span ∈ route, view.spans.Lists span.peerId := by
  unfold makeSequenceWithMinLatency at h
  split at h
  · cases h
    simp
  · obtain ⟨missing, -, h⟩ := bind_eq_ok.mp h
    split at h
    · cases h
    · obtain ⟨-, -, h⟩ := bind_eq_ok.mp h
      obtain ⟨listed, hlisted, h⟩ := bind_eq_ok.mp h
      obtain ⟨graph, -, h⟩ := bind_eq_ok.mp h
      split at h
      · cases h
      · split at h
        · cases h
        · obtain ⟨-, -, h⟩ := bind_eq_ok.mp h
          obtain ⟨final, hfinal, h⟩ := bind_eq_ok.mp h
          cases h
          have hinfos : ∀ span ∈ final,
              (RoutingView.serverInfos listed.flatten span.peerId).isSome :=
            foldlM_invariant (fun _ _ _ => visitNode_infos) (by simp) hfinal
          intro span hspan
          have hread := hinfos span (List.mem_reverse.mp (List.mem_filter.mp hspan).1)
          unfold RoutingView.serverInfos at hread
          rw [Option.isSome_map] at hread
          obtain ⟨found, hfound⟩ := Option.isSome_iff_exists.mp hread
          have hpeer := List.find?_some hfound
          rw [decide_eq_true_eq] at hpeer
          obtain ⟨candidates, hcandidates, hmem⟩ := List.mem_flatten.mp
            (List.mem_reverse.mp (List.mem_of_find?_eq_some hfound))
          obtain ⟨blockIdx, -, hblock⟩ := mem_of_mapM_eq_ok hlisted hcandidates
          exact hpeer ▸ lists_of_spansAt hsorted hblock hmem

end RoutingView

instance [DecidableEq PeerID] (spans : SpanLists PeerID) (peerId : PeerID) :
    Decidable (spans.Lists peerId) :=
  inferInstanceAs (Decidable (∃ span ∈ spans.spansByPriority, _ ∧ _))

variable [LinearOrder PeerID]

/-- Some routing call that reads the span lists of this state returns a span of the peer. -/
def Manager.RoutesThrough (manager : Manager PeerID) (peerId : PeerID) : Prop :=
  ∃ clientServerRtts toBase58 startIndex endIndex mode cacheTokensNeeded route,
    makeSequence (manager.view clientServerRtts toBase58) startIndex endIndex mode
      cacheTokensNeeded = .ok route ∧ ∃ span ∈ route, span.peerId = peerId

theorem Manager.routesThrough_iff {manager : Manager PeerID} {peerId : PeerID} :
    manager.RoutesThrough peerId ↔ manager.info.spans.Lists peerId := by
  constructor
  · rintro ⟨clientServerRtts, toBase58, startIndex, endIndex, mode, cacheTokensNeeded, route,
      hroute, span, hspan, rfl⟩
    have hsorted : (manager.view clientServerRtts toBase58).spans.WellSorted
      (manager.view clientServerRtts toBase58).numBlocks := manager.info.wellSorted
    cases mode with
    | minLatency findPath =>
        exact RoutingView.lists_of_makeSequenceWithMinLatency hsorted hroute span hspan
    | maxThroughput draws => exact RoutingView.lists_of_maxThroughputLoop hsorted hroute span hspan
  · intro hlists
    let view := manager.view (fun _ => none) fun _ => ""
    have hsorted : view.spans.WellSorted view.numBlocks := manager.info.wellSorted
    obtain ⟨startIndex, endIndex, draws, route, hroute, hspan⟩ :=
      RoutingView.exists_route_of_lists hsorted hlists
    exact ⟨fun _ => none, fun _ => "", startIndex, some endIndex, .maxThroughput draws, none, route,
      hroute, hspan⟩

/-! The time after a reported failure, until an update that started after it has finished. -/

structure Watch (PeerID : Type) where
  manager : Manager PeerID
  /-- the update under way, if there is one, started after the failure -/
  freshUpdate : Bool
  /-- a routing call made after the failure may have found the manager ready -/
  seenReady : Bool

namespace Watch

def start (manager : Manager PeerID) (peerId : PeerID) : Watch PeerID where
  manager := manager.dropServer (some peerId)
  freshUpdate := false
  seenReady := (manager.dropServer (some peerId)).ready

def advance (watch : Watch PeerID) (event : ManagerEvent PeerID) (freshUpdate : Bool) :
    Option (Watch PeerID) :=
  (watch.manager.step event).map fun manager =>
    { manager, freshUpdate, seenReady := watch.seenReady || manager.ready }

def step (watch : Watch PeerID) (event : ManagerEvent PeerID) : Option (Watch PeerID) :=
  match event with
  | .startUpdate => watch.advance event true
  -- the end of a fresh update ends the watch
  | .finishUpdate => if watch.freshUpdate then none else watch.advance event false
  | event => watch.advance event watch.freshUpdate

theorem step_manager {watch next : Watch PeerID} {event : ManagerEvent PeerID}
    (h : watch.step event = some next) :
    watch.manager.step event = some next.manager ∧
      next.seenReady = (watch.seenReady || next.manager.ready) := by
  have hadvance {freshUpdate : Bool} (h : watch.advance event freshUpdate = some next) :
      watch.manager.step event = some next.manager ∧
        next.seenReady = (watch.seenReady || next.manager.ready) := by
    obtain ⟨manager, hmanager, rfl⟩ := Option.map_eq_some_iff.mp h
    exact ⟨hmanager, rfl⟩
  unfold step at h
  split at h
  · exact hadvance h
  · split at h
    · cases h
    · exact hadvance h
  · exact hadvance h

/-- No routing call of the watched time returns the peer: a call that has found the manager
ready reads the span lists as they are. -/
def Avoids (peerId : PeerID) (watch : Watch PeerID) : Prop :=
  watch.seenReady = true → ¬ watch.manager.RoutesThrough peerId

/-- What each step has to keep off: to commit records that give the peer a block once a
call may read them, and to end the update that was under way over lists that name it. -/
def Harmless (peerId : PeerID) (watch : Watch PeerID) : ManagerEvent PeerID → Prop
  | .commit => watch.seenReady = true → ∀ kept, watch.manager.phase = .filtering kept [] →
      ¬ ∃ span, (computeSpans kept .online).get? peerId = some span ∧ span.start < span.stop
  | .finishUpdate => ¬ watch.manager.info.spans.Lists peerId
  | _ => True

theorem lists_of_commit {info updated : RemoteSequenceInfo PeerID}
    {kept : List (RemoteModuleInfo PeerID)} (h : info.update kept = some updated)
    (peerId : PeerID) : updated.spans.Lists peerId ↔
      ∃ span, (computeSpans kept .online).get? peerId = some span ∧ span.start < span.stop := by
  have hspans := (RemoteSequenceInfo.update_spec h).2
  constructor
  · rintro ⟨span, hspan, rfl, hlt⟩
    exact ⟨span, (mem_spansByPriority_iff hspans).mp hspan, hlt⟩
  · rintro ⟨span, hspan, hlt⟩
    have hpeer := computeSpans_peerId hspan
    exact ⟨span, (mem_spansByPriority_iff hspans).mpr (hpeer ▸ hspan), hpeer, hlt⟩

theorem harmless_iff {peerId : PeerID} {watch next : Watch PeerID} {event : ManagerEvent PeerID}
    (hready : watch.manager.ready = true → watch.seenReady = true)
    (havoids : watch.Avoids peerId) (h : watch.step event = some next) :
    watch.Harmless peerId event ↔ next.Avoids peerId := by
  obtain ⟨hstep, hseen⟩ := step_manager h
  unfold Avoids at *
  rw [Manager.routesThrough_iff] at *
  have hsame (hne : event ≠ .finishUpdate) : next.seenReady = watch.seenReady := by
    cases hnext : next.manager.ready with
    | false => rw [hseen, hnext, Bool.or_false]
    | true =>
        have hbefore := hready ((Manager.step_ready hstep hnext).resolve_right hne)
        rw [hseen, hbefore, Bool.true_or]
  cases event with
  | commit =>
      obtain ⟨kept, hphase, hupdate, -⟩ := Manager.step_commit hstep
      rw [hsame (by simp), lists_of_commit hupdate]
      refine imp_congr_right fun _ => ⟨fun hall => hall kept hphase, fun hnot other hother => ?_⟩
      cases hphase.symm.trans hother
      exact hnot
  | finishUpdate =>
      have hset : next.seenReady = true := by
        rw [hseen, Manager.step_finishUpdate_ready hstep, Bool.or_true]
      rw [hset, Manager.step_spans hstep (by simp)]
      exact ⟨fun hnot _ => hnot, fun hall => hall rfl⟩
  | startUpdate | fetch | filterBlock | abortUpdate | requestUpdate | registerFailure | unban
  | dropServer =>
      rw [hsame (by simp), Manager.step_spans hstep (by simp)]
      exact iff_of_true trivial havoids

/-- No routing call made after the failure of a peer, and before an update that started
after it has finished, returns the peer: this holds along a run exactly if the manager is
not ready or does not list the peer when the failure returns, and each step is harmless. -/
theorem failedPeer_avoided_iff (manager : Manager PeerID) (peerId : PeerID)
    (events : List (ManagerEvent PeerID)) :
    EveryState step (Avoids peerId) (start manager peerId) events ↔
      ((manager.dropServer (some peerId)).ready = true → ¬ manager.info.spans.Lists peerId) ∧
        EveryStep step (Harmless peerId) (start manager peerId) events := by
  have hstart : (start manager peerId).Avoids peerId ↔
      ((manager.dropServer (some peerId)).ready = true → ¬ manager.info.spans.Lists peerId) := by
    unfold Avoids
    rw [Manager.routesThrough_iff]
    rfl
  rw [← hstart]
  refine everyState_iff_everyStep
    (fun watch => watch.manager.ready = true → watch.seenReady = true) ?_ ?_ id
  · intro watch event next hready h
    rw [(step_manager h).2]
    exact fun hnext => Bool.or_eq_true_iff.mpr (.inr hnext)
  · exact fun watch event next hready havoids h => harmless_iff hready havoids h

end Watch

private def refreshOverTwoHolders : List (ManagerEvent Nat) :=
  [.startUpdate,
    .fetch fun _ => (Dict.empty.insert 7 (some { state := .online, throughput := 1 })).insert 9
      (some { state := .online, throughput := 1 }),
    .filterBlock, .commit, .finishUpdate]

private def firstManager : Manager Nat where
  info := .makeEmpty [⟨"model", 0⟩]
  lists := {}
  activeAdapter := none
  banned := ∅
  ready := false
  phase := .idle

/-- The manager stays ready and goes on routing through the failed server 7. -/
theorem failedPeer_routed : ∃ manager,
    LeadsTo Manager.step firstManager refreshOverTwoHolders manager ∧
      ¬ EveryState Watch.step (Watch.Avoids 7) (Watch.start manager 7) [] := by
  have hrun : (refreshOverTwoHolders.foldlM Manager.step firstManager).map
      (fun manager => ((manager.dropServer (some 7)).ready,
        decide ((manager.dropServer (some 7)).info.spans.Lists 7))) = some (true, true) := by
    decide +kernel
  obtain ⟨manager, hmanager, hfacts⟩ := Option.map_eq_some_iff.mp hrun
  obtain ⟨hready, hlists⟩ := Prod.mk.inj hfacts
  refine ⟨manager, hmanager, fun havoids => ?_⟩
  exact havoids hready (Manager.routesThrough_iff.mpr (of_decide_eq_true hlists))

end Peerz.Client.Routing
