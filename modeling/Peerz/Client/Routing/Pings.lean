import Peerz.Client.Routing.InferenceGraph
import Peerz.Library.Sampling

/-! Whom one update of the sequence manager pings, and what the next inference graph reads of
it. The servers are drawn at random, so a property of an update is one of all its draws. -/
namespace Peerz.Client.Routing
open Library

variable {PeerID : Type} [LinearOrder PeerID]

def SampleUpTo (population : List PeerID) (k : Nat) (sample : List PeerID) : Prop :=
  if k < population.length then IsSample population k sample else sample = population

structure PingGroups (PeerID : Type) where
  firstServers : List PeerID
  middleServers : List PeerID
  lastServers : List PeerID
deriving DecidableEq

/-- `none` is an `IndexError`, for a sequence without blocks. A server of several middle blocks
is listed once for each. -/
def SpanLists.pingGroups (spans : SpanLists PeerID) : Option (PingGroups PeerID) := do
  let first ← pyGet? spans.spansContainingBlock 0
  let middle := pySlice spans.spansContainingBlock 1 (-1)
  let last ← pyGet? spans.spansContainingBlock (-1)
  pure
    { firstServers := first.map RemoteSpanInfo.peerId
      middleServers := middle.flatten.map RemoteSpanInfo.peerId
      lastServers := last.map RemoteSpanInfo.peerId }

structure PingDraws (groups : PingGroups PeerID) (maxPinged : Nat) where
  first : List PeerID
  middle : List PeerID
  last : List PeerID
  firstSampled : SampleUpTo groups.firstServers maxPinged first
  middleSampled : SampleUpTo groups.middleServers maxPinged middle
  lastSampled : SampleUpTo groups.lastServers maxPinged last

/-- `pinged_servers` after the three assignments of `_update`; the second one replaces the
set of the first. -/
def PingDraws.pingedServers {groups : PingGroups PeerID} {maxPinged : Nat}
    (draws : PingDraws groups maxPinged) : Finset PeerID := Id.run do
  let mut pingedServers := draws.first.toFinset
  pingedServers := draws.middle.toFinset
  pingedServers := pingedServers ∪ draws.last.toFinset
  return pingedServers

def emaAlpha : ℚ≥0 := 0.2

/-- The stored delay after a ping: exponential smoothing over finite delays. -/
def smoothedRtt : Option RTT → RTT → RTT
  | some (some previous), some rtt => some (emaAlpha * rtt + (1 - emaAlpha) * previous)
  | some (some _), ⊤ => ⊤
  | _, rtt => rtt

/-- `PingAggregator.ping`: every pinged server gets an entry, an infinite one if it does not
answer. -/
def PingAggregator.ping (rtts : PeerID → Option RTT) (pinged : Finset PeerID)
    (answers : PeerID → RTT) (peerId : PeerID) : Option RTT :=
  if peerId ∈ pinged then some (smoothedRtt (rtts peerId) (answers peerId)) else rtts peerId

/-- Every edge from the client into the first block has the delay of a measured round trip. -/
def RoutingView.StartEdgesMeasured (view : RoutingView PeerID) : Prop :=
  ∀ cacheTokensNeeded graph,
    view.buildInferenceGraph 0 view.numBlocks cacheTokensNeeded = .ok graph →
    ∀ edge ∈ graph, edge.source = .start → ∃ span rtt, edge.target = .at span.peerId 0 ∧
      view.clientServerRtts span.peerId = some rtt ∧
      edge.cost = entryDelay span (some rtt) cacheTokensNeeded

/-- An update with any draws pings as many servers of each group as it may, and the next graph
has measured delays towards the first block where these are all its servers. -/
def RemoteSequenceInfo.PingsReach (info : RemoteSequenceInfo PeerID) (groups : PingGroups PeerID)
    (maxPinged : Nat) : Prop :=
  ∀ draws : PingDraws groups maxPinged,
    (∀ group ∈ [groups.firstServers, groups.middleServers, groups.lastServers],
      min maxPinged group.toFinset.card ≤ (group.toFinset ∩ draws.pingedServers).card) ∧
    (groups.firstServers.toFinset.card ≤ maxPinged → ∀ rtts answers toBase58,
      RoutingView.StartEdgesMeasured ⟨info.spans, info.blockUids.length,
        PingAggregator.ping rtts draws.pingedServers answers, toBase58⟩)

/-- Servers that a draw of the middle blocks and one of the last block can both miss. -/
def PingGroups.Missable (groups : PingGroups PeerID) (maxPinged : Nat) (servers : Finset PeerID) :
    Prop :=
  groups.middleServers.countP (· ∈ servers) ≤ groups.middleServers.length - maxPinged ∧
    groups.lastServers.countP (· ∈ servers) ≤ groups.lastServers.length - maxPinged

instance (groups : PingGroups PeerID) (maxPinged : Nat) (servers : Finset PeerID) :
    Decidable (groups.Missable maxPinged servers) :=
  inferInstanceAs (Decidable (_ ∧ _))

section draws
variable {groups : PingGroups PeerID} {maxPinged : Nat}

omit [LinearOrder PeerID] in
theorem SampleUpTo.isSample {population sample : List PeerID} {k : Nat}
    (h : SampleUpTo population k sample) :
    IsSample population (min k population.length) sample := by
  unfold SampleUpTo at h
  split at h
  · rename_i hlt
    rwa [Nat.min_eq_left hlt.le]
  · rename_i hge
    rw [h, Nat.min_eq_right (Nat.not_lt.mp hge)]
    exact .all population

omit [LinearOrder PeerID] in
theorem exists_sampleUpTo_missing_iff (population : List PeerID) (k : Nat)
    (missed : PeerID → Bool) :
    (∃ sample, SampleUpTo population k sample ∧ ∀ item ∈ sample, missed item = false) ↔
      population.countP missed ≤ population.length - k := by
  have hmin : population.length - min k population.length = population.length - k := by omega
  constructor
  · rintro ⟨sample, hsample, hmissed⟩
    rw [← hmin]
    exact (exists_isSample_missing_iff missed (Nat.min_le_right _ _)).mp
      ⟨sample, hsample.isSample, hmissed⟩
  · intro hle
    unfold SampleUpTo
    split
    · rename_i hlt
      exact (exists_isSample_missing_iff missed hlt.le).mpr hle
    · -- everything is drawn, so nothing is missed
      rename_i hge
      refine ⟨population, rfl, fun item hitem => ?_⟩
      have hnone : population.countP missed = 0 := by omega
      exact Bool.eq_false_iff.mpr (List.countP_eq_zero.mp hnone item hitem)

theorem PingDraws.pingedServers_eq (draws : PingDraws groups maxPinged) :
    draws.pingedServers = draws.middle.toFinset ∪ draws.last.toFinset :=
  rfl

theorem PingGroups.missable_iff {servers : Finset PeerID} :
    groups.Missable maxPinged servers ↔
      ∃ draws : PingDraws groups maxPinged, Disjoint servers draws.pingedServers := by
  unfold Missable
  rw [← exists_sampleUpTo_missing_iff, ← exists_sampleUpTo_missing_iff]
  constructor
  · rintro ⟨⟨middle, hmiddle, hmissed⟩, last, hlast, hlastMissed⟩
    obtain ⟨first, hfirst, -⟩ := (exists_sampleUpTo_missing_iff groups.firstServers maxPinged
      fun _ => false).mpr (by simp)
    refine ⟨⟨first, middle, last, hfirst, hmiddle, hlast⟩, ?_⟩
    rw [Finset.disjoint_right, PingDraws.pingedServers_eq]
    intro peerId hpinged
    rcases Finset.mem_union.mp hpinged with hmem | hmem
    · exact of_decide_eq_false (hmissed peerId (List.mem_toFinset.mp hmem))
    · exact of_decide_eq_false (hlastMissed peerId (List.mem_toFinset.mp hmem))
  · rintro ⟨draws, hdisjoint⟩
    rw [Finset.disjoint_right, PingDraws.pingedServers_eq] at hdisjoint
    exact ⟨⟨draws.middle, draws.middleSampled, fun peerId hmem => decide_eq_false
        (hdisjoint (Finset.mem_union_left _ (List.mem_toFinset.mpr hmem)))⟩,
      draws.last, draws.lastSampled, fun peerId hmem => decide_eq_false
        (hdisjoint (Finset.mem_union_right _ (List.mem_toFinset.mpr hmem)))⟩

theorem reaches_iff (group : List PeerID) :
    (∀ draws : PingDraws groups maxPinged,
      min maxPinged group.toFinset.card ≤ (group.toFinset ∩ draws.pingedServers).card) ↔
    ∀ missed, groups.Missable maxPinged missed →
      (group.toFinset ∩ missed).card ≤ group.toFinset.card - maxPinged := by
  simp only [min_card_le_inter_iff]
  constructor
  · intro hreach missed hmissable
    obtain ⟨draws, hdisjoint⟩ := PingGroups.missable_iff.mp hmissable
    refine (Finset.card_le_card fun peerId hmem => ?_).trans (hreach draws)
    obtain ⟨hgroup, hmissed⟩ := Finset.mem_inter.mp hmem
    exact Finset.mem_sdiff.mpr ⟨hgroup, Finset.disjoint_left.mp hdisjoint hmissed⟩
  · intro hmissable draws
    have hle := hmissable (group.toFinset \ draws.pingedServers)
      (PingGroups.missable_iff.mpr ⟨draws, Finset.sdiff_disjoint⟩)
    rwa [Finset.inter_eq_right.mpr Finset.sdiff_subset] at hle

theorem reaches_last (hnodup : groups.lastServers.Nodup) (draws : PingDraws groups maxPinged) :
    min maxPinged groups.lastServers.toFinset.card ≤
      (groups.lastServers.toFinset ∩ draws.pingedServers).card := by
  have hsample := draws.lastSampled.isSample
  rw [List.toFinset_card_of_nodup hnodup, ← hsample.card_toFinset hnodup,
    PingDraws.pingedServers_eq]
  refine Finset.card_le_card fun peerId hmem => Finset.mem_inter.mpr ⟨?_, ?_⟩
  · exact List.mem_toFinset.mpr (hsample.subset (List.mem_toFinset.mp hmem))
  · exact Finset.mem_union_right _ hmem

end draws

/-! What the groups are over a sorted table. -/

section table
variable {info : RemoteSequenceInfo PeerID} {groups : PingGroups PeerID}

omit [LinearOrder PeerID] in
private theorem pingGroups_cases {spans : SpanLists PeerID}
    (h : spans.pingGroups = some groups) :
    ∃ first last, pyGet? spans.spansContainingBlock 0 = some first ∧
      pyGet? spans.spansContainingBlock (-1) = some last ∧
      groups.firstServers = first.map RemoteSpanInfo.peerId ∧
      groups.lastServers = last.map RemoteSpanInfo.peerId := by
  obtain ⟨first, hfirst, h⟩ := Option.bind_eq_some_iff.mp h
  obtain ⟨last, hlast, h⟩ := Option.bind_eq_some_iff.mp h
  cases h
  exact ⟨first, last, hfirst, hlast, rfl, rfl⟩

omit [LinearOrder PeerID] in
theorem pingGroups_isSome_iff (info : RemoteSequenceInfo PeerID) :
    info.spans.pingGroups.isSome ↔ 0 < info.blockUids.length := by
  have hlength := info.wellSorted.length_containing
  constructor
  · intro hsome
    obtain ⟨groups, hgroups⟩ := Option.isSome_iff_exists.mp hsome
    obtain ⟨first, -, hfirst, -⟩ := pingGroups_cases hgroups
    rw [← hlength]
    exact List.length_pos_of_mem (mem_of_pyGet? hfirst)
  · intro hpos
    have hlastBlock : pyGet? info.spans.spansContainingBlock (-1) =
        info.spans.spansContainingBlock[info.blockUids.length - 1]? := by
      unfold pyGet? pyPosition
      rw [hlength, if_neg (by omega), if_pos (by omega)]
      have hlast : (-1 + (info.blockUids.length : Int)).toNat = info.blockUids.length - 1 := by
        omega
      rw [hlast]
      rfl
    unfold SpanLists.pingGroups
    rw [info.wellSorted.listedAt le_rfl (by omega), hlastBlock,
      List.getElem?_eq_getElem (by omega)]
    rfl

omit [LinearOrder PeerID] in
theorem lastServers_nodup (hgroups : info.spans.pingGroups = some groups) :
    groups.lastServers.Nodup := by
  obtain ⟨-, last, -, hlast, -, hservers⟩ := pingGroups_cases hgroups
  have hmem := mem_of_pyGet? hlast
  rw [info.wellSorted.containing] at hmem
  obtain ⟨block, -, rfl⟩ := List.mem_map.mp hmem
  rw [hservers]
  exact info.wellSorted.distinctPeers.sublist (List.filter_sublist.map _)

namespace RoutingView
variable {view : RoutingView PeerID}

omit [LinearOrder PeerID] in
theorem eq_inferenceEdges (hsorted : view.spans.WellSorted view.numBlocks)
    {startIndex endIndex : Int} (hlow : 0 ≤ startIndex) (hlt : startIndex < endIndex)
    (hhigh : endIndex ≤ view.numBlocks) {cacheTokensNeeded : Option Int}
    {graph : List (Edge (Node PeerID))}
    (h : view.buildInferenceGraph startIndex endIndex cacheTokensNeeded = .ok graph) :
    graph = view.inferenceEdges startIndex endIndex cacheTokensNeeded := by
  by_cases hcovered : view.Covered startIndex endIndex
  · by_cases hrates : view.PositiveRates startIndex endIndex
    · rw [buildInferenceGraph_eq hsorted hlow hlt hhigh cacheTokensNeeded hcovered hrates] at h
      exact (Except.ok.inj h).symm
    · rw [buildInferenceGraph_eq_error hsorted hlow hlt hhigh cacheTokensNeeded hcovered
        hrates] at h
      cases h
  · unfold buildInferenceGraph at h
    rw [missingBlocks_eq hsorted hlow hhigh] at h
    have hmissing := mt missing_eq_nil_iff.mp hcovered
    simp only [bind, Except.bind, ne_eq, hmissing, not_false_eq_true, if_true] at h
    cases h

omit [LinearOrder PeerID] in
theorem startEdge_mem {startIndex endIndex : Int} {cacheTokensNeeded : Option Int}
    {edge : Edge (Node PeerID)}
    (hmem : edge ∈ view.inferenceEdges startIndex endIndex cacheTokensNeeded)
    (hstart : edge.source = .start) :
    ∃ span ∈ view.listedAt startIndex, edge.target = .at span.peerId startIndex ∧
      edge.cost = entryDelay span (view.clientServerRtts span.peerId) cacheTokensNeeded := by
  simp only [inferenceEdges, List.mem_append, List.mem_map, List.mem_flatten] at hmem
  rcases hmem with ((⟨span, hspan, rfl⟩ | ⟨span, -, rfl⟩) | ⟨_, ⟨blockIdx, -, rfl⟩, hedge⟩) |
    ⟨_, ⟨span, -, rfl⟩, hedge⟩
  · exact ⟨span, hspan, rfl, rfl⟩
  · cases hstart
  · simp only [switchEdgesAt, List.mem_flatMap, List.mem_map] at hedge
    obtain ⟨current, -, next, -, rfl⟩ := hedge
    cases hstart
  · obtain ⟨blockIdx, -, rfl⟩ := List.mem_map.mp hedge
    cases hstart

end RoutingView

theorem startEdgesMeasured_of_subset (hgroups : info.spans.pingGroups = some groups)
    {pinged : Finset PeerID} (hsubset : groups.firstServers.toFinset ⊆ pinged)
    (rtts : PeerID → Option RTT) (answers : PeerID → RTT) (toBase58 : PeerID → String) :
    RoutingView.StartEdgesMeasured ⟨info.spans, info.blockUids.length,
      PingAggregator.ping rtts pinged answers, toBase58⟩ := by
  intro cacheTokensNeeded graph hgraph edge hedge hstart
  have hpos : 0 < info.blockUids.length :=
    (pingGroups_isSome_iff info).mp (Option.isSome_iff_exists.mpr ⟨groups, hgroups⟩)
  have hedges := RoutingView.eq_inferenceEdges info.wellSorted le_rfl (by
    change (0 : Int) < info.blockUids.length
    omega) le_rfl hgraph
  rw [hedges] at hedge
  obtain ⟨span, hspan, htarget, hcost⟩ := RoutingView.startEdge_mem hedge hstart
  obtain ⟨first, -, hfirst, -, hservers, -⟩ := pingGroups_cases hgroups
  rw [info.wellSorted.listedAt le_rfl (by omega)] at hfirst
  cases hfirst
  have hpinged : span.peerId ∈ pinged := by
    refine hsubset (List.mem_toFinset.mpr ?_)
    rw [hservers]
    exact List.mem_map_of_mem hspan
  have hmeasured : PingAggregator.ping rtts pinged answers span.peerId =
      some (smoothedRtt (rtts span.peerId) (answers span.peerId)) := if_pos hpinged
  exact ⟨span, _, htarget, hmeasured, hmeasured ▸ hcost⟩

/-- The set of the first draw is lost, so what an update reaches depends on the other two draws
alone. Its servers are all that `maxPinged` promises exactly when the sets that both draws can
miss hold few enough servers of the first block and of the middle ones. -/
theorem pingsReach_iff (hgroups : info.spans.pingGroups = some groups) (maxPinged : Nat) :
    info.PingsReach groups maxPinged ↔
      ∀ missed, groups.Missable maxPinged missed →
        (groups.firstServers.toFinset ∩ missed).card ≤
          groups.firstServers.toFinset.card - maxPinged ∧
        (groups.middleServers.toFinset ∩ missed).card ≤
          groups.middleServers.toFinset.card - maxPinged := by
  constructor
  · intro hreach missed hmissable
    exact ⟨(reaches_iff groups.firstServers).mp
        (fun draws => (hreach draws).1 _ (by simp)) missed hmissable,
      (reaches_iff groups.middleServers).mp
        (fun draws => (hreach draws).1 _ (by simp)) missed hmissable⟩
  · intro hmissable draws
    have hfirst := (reaches_iff groups.firstServers).mpr
      (fun missed h => (hmissable missed h).1) draws
    have hmiddle := (reaches_iff groups.middleServers).mpr
      (fun missed h => (hmissable missed h).2) draws
    have hlast := reaches_last (lastServers_nodup hgroups) draws
    refine ⟨?_, fun hfew rtts answers toBase58 => ?_⟩
    · simpa only [List.forall_mem_cons, List.not_mem_nil, false_implies, implies_true, and_true]
        using ⟨hfirst, hmiddle, hlast⟩
    rw [Nat.min_eq_right hfew] at hfirst
    have hall := Finset.eq_of_subset_of_card_le Finset.inter_subset_left hfirst
    exact startEdgesMeasured_of_subset hgroups (Finset.inter_eq_left.mp hall) rtts answers toBase58

theorem firstServers_subset_iff (hgroups : info.spans.pingGroups = some groups) {maxPinged : Nat} :
    (∀ draws : PingDraws groups maxPinged, groups.firstServers.toFinset ⊆ draws.pingedServers) ↔
      ∀ peerId ∈ groups.firstServers,
        groups.middleServers.length - maxPinged < groups.middleServers.count peerId ∨
          peerId ∈ groups.lastServers ∧ groups.lastServers.length ≤ maxPinged := by
  have hmissable (peerId : PeerID) : groups.Missable maxPinged {peerId} ↔
      ¬ (groups.middleServers.length - maxPinged < groups.middleServers.count peerId ∨
        peerId ∈ groups.lastServers ∧ groups.lastServers.length ≤ maxPinged) := by
    have hcount (servers : List PeerID) :
        servers.countP (· ∈ ({peerId} : Finset PeerID)) = servers.count peerId :=
      List.countP_congr fun other _ => by simp
    have hlast := (lastServers_nodup hgroups).count (a := peerId)
    unfold PingGroups.Missable
    rw [hcount, hcount, hlast]
    by_cases hlisted : peerId ∈ groups.lastServers
    · simp only [hlisted, if_true, true_and]
      omega
    · simp only [hlisted, if_false, false_and, or_false]
      omega
  constructor
  · intro hsubset peerId hfirst
    by_contra hmissed
    obtain ⟨draws, hdisjoint⟩ := PingGroups.missable_iff.mp ((hmissable peerId).mpr hmissed)
    exact Finset.disjoint_singleton_left.mp hdisjoint
      (hsubset draws (List.mem_toFinset.mpr hfirst))
  · intro htaken draws peerId hfirst
    by_contra hmissed
    exact (hmissable peerId).mp (PingGroups.missable_iff.mpr
      ⟨draws, Finset.disjoint_singleton_left.mpr hmissed⟩) (htaken peerId
        (List.mem_toFinset.mp hfirst))

end table

/-! Three servers of one block each: the one that holds the first block is never pinged. -/

private def oneBlock (block : Nat) : ServerInfo :=
  { state := .online, throughput := 1, startBlock := some block, endBlock := some (block + 1) }

private def threeBlocks : List (RemoteModuleInfo Nat) :=
  [⟨⟨"model", 0⟩, Dict.empty.insert 7 (oneBlock 0)⟩,
    ⟨⟨"model", 1⟩, Dict.empty.insert 8 (oneBlock 1)⟩,
    ⟨⟨"model", 2⟩, Dict.empty.insert 9 (oneBlock 2)⟩]

private def threeBlocksInfo : RemoteSequenceInfo Nat where
  blockUids := [⟨"model", 0⟩, ⟨"model", 1⟩, ⟨"model", 2⟩]
  blockInfos := threeBlocks
  spans := (sortSpans threeBlocks).getD ⟨[], []⟩
  sameLength := rfl
  wellSorted := @sortSpans_wellSorted _ _ threeBlocks _ rfl

private def threeBlocksDraws : PingDraws (⟨[7], [8], [9]⟩ : PingGroups Nat) 3 where
  first := [7]
  middle := [8]
  last := [9]
  firstSampled := rfl
  middleSampled := rfl
  lastSampled := rfl

theorem pingsReach_not_always :
    ¬ ∀ (info : RemoteSequenceInfo Nat) (groups : PingGroups Nat) (maxPinged : Nat),
      info.spans.pingGroups = some groups → info.PingsReach groups maxPinged := by
  intro hclaim
  have hgroups : threeBlocksInfo.spans.pingGroups = some ⟨[7], [8], [9]⟩ := by decide +kernel
  have hreach := (hclaim threeBlocksInfo _ 3 hgroups threeBlocksDraws).1 [7] (by simp)
  exact absurd hreach (by decide +kernel)

/-- With one block the last group is the first one. -/
theorem pingsReach_iff_oneBlock :
    let info := (threeBlocksInfo.getItem 0 1).getD (.makeEmpty [])
    info.PingsReach ⟨[7], [], [7]⟩ 3 := by
  intro info
  have hgroups : info.spans.pingGroups = some ⟨[7], [], [7]⟩ := by decide +kernel
  refine (pingsReach_iff hgroups 3).mpr fun missed hmissable => ?_
  have hkept : 7 ∉ missed := by
    simpa [PingGroups.Missable] using hmissable.2
  simp [Finset.singleton_inter_of_notMem hkept]

end Peerz.Client.Routing
