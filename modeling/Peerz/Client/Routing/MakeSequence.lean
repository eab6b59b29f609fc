import Peerz.Client.Routing.Routes

/-! What `make_sequence` returns and raises over a freshly sorted table. -/
namespace Peerz.Client.Routing
open Library Utils.Dht

variable {PeerID : Type}

theorem RoutingView.exists_spansAt_nil_iff {view : RoutingView PeerID}
    (hsorted : view.spans.WellSorted view.numBlocks) {startIndex endIndex : Int}
    (hlow : 0 ≤ startIndex) (hhigh : endIndex ≤ view.numBlocks) :
    (∃ blockIdx, startIndex ≤ blockIdx ∧ blockIdx < endIndex ∧ view.spansAt blockIdx = .ok []) ↔
      ¬ view.Covered startIndex endIndex := by
  unfold RoutingView.Covered
  push Not
  refine exists_congr fun blockIdx => and_congr_right fun hge => and_congr_right fun hlt => ?_
  rw [RoutingView.spansAt_eq hsorted (by omega) (by omega), Except.ok.injEq,
    RoutingView.listedAt_eq_nil_iff]
  push Not
  rfl

variable [LinearOrder PeerID]

structure RoutingView.SortedFrom (view : RoutingView PeerID)
    (blockInfos : List (RemoteModuleInfo PeerID)) : Prop where
  spans : sortSpans blockInfos = some view.spans
  numBlocks : view.numBlocks = blockInfos.length

theorem RoutingView.SortedFrom.wellSorted {view : RoutingView PeerID}
    {blockInfos : List (RemoteModuleInfo PeerID)} (h : view.SortedFrom blockInfos) :
    view.spans.WellSorted view.numBlocks :=
  h.numBlocks ▸ sortSpans_wellSorted h.spans

/-- What a call over `[startIndex, endIndex)` may return in either mode. -/
def RoutingMode.Delivers (mode : RoutingMode PeerID) (view : RoutingView PeerID)
    (startIndex endIndex : Int) (route : List (RemoteSpanInfo PeerID)) : Prop :=
  match mode with
  | .minLatency _ => view.RouteOver startIndex endIndex route
  | .maxThroughput _ => ∃ stop, view.RouteOver startIndex stop route ∧ endIndex ≤ stop ∧
      ∀ span ∈ route.dropLast, span.stop < endIndex

def RoutingMode.Sound (mode : RoutingMode PeerID) : Prop :=
  match mode with
  | .minLatency findPath => findPath.Sound
  | .maxThroughput _ => True

/-- Routes tile the range, in both modes and whatever the search or the draws bring up; the
latency policy reports missing blocks exactly where there are some. -/
theorem makeSequence_delivers {view : RoutingView PeerID}
    {blockInfos : List (RemoteModuleInfo PeerID)} (hview : view.SortedFrom blockInfos)
    {startIndex : Int} {endIndex : Option Int} (hlow : 0 ≤ startIndex)
    (hlt : startIndex < endIndex.getD view.numBlocks)
    (hhigh : endIndex.getD view.numBlocks ≤ view.numBlocks) (mode : RoutingMode PeerID)
    (hsound : mode.Sound) (cacheTokensNeeded : Option Int) :
    (∀ route, makeSequence view startIndex endIndex mode cacheTokensNeeded = .ok route →
      mode.Delivers view startIndex (endIndex.getD view.numBlocks) route) ∧
    ∀ findPath, mode = .minLatency findPath →
      ((∃ blocks, makeSequence view startIndex endIndex mode cacheTokensNeeded =
          .error (.missingBlocks blocks)) ↔
        ∃ blockIdx, startIndex ≤ blockIdx ∧ blockIdx < endIndex.getD view.numBlocks ∧
          view.spansAt blockIdx = .ok []) := by
  have hsorted := hview.wellSorted
  cases mode with
  | maxThroughput draws =>
      refine ⟨fun route hroute => ?_, fun findPath hmode => by cases hmode⟩
      exact RoutingView.maxThroughputLoop_route hsorted hhigh hlow hroute
  | minLatency findPath =>
      rw [RoutingView.exists_spansAt_nil_iff hsorted hlow hhigh]
      change (∀ route, view.makeSequenceWithMinLatency findPath startIndex _ _ = _ → _) ∧
        ∀ other, _ → ((∃ blocks, view.makeSequenceWithMinLatency findPath startIndex _ _ = _) ↔ _)
      by_cases hcovered : view.Covered startIndex (endIndex.getD view.numBlocks)
      · by_cases hrates : view.PositiveRates startIndex (endIndex.getD view.numBlocks)
        · have houtcome := RoutingView.makeSequenceWithMinLatency_eq hsorted hlow hlt hhigh
            cacheTokensNeeded hsound hcovered hrates
          split at houtcome
          · simp [houtcome, hcovered]
          · obtain ⟨route, hroute, hover⟩ := houtcome
            rw [hroute]
            refine ⟨fun other hother => ?_, fun _ _ => by simp [hcovered]⟩
            cases hother
            exact hover
        · rw [RoutingView.makeSequenceWithMinLatency_zeroRate hsorted hlow hlt hhigh findPath
            cacheTokensNeeded hcovered hrates]
          simp [hcovered]
      · obtain ⟨blocks, hblocks⟩ := RoutingView.makeSequenceWithMinLatency_missing hsorted hlow hlt
          hhigh findPath cacheTokensNeeded hcovered
        rw [hblocks]
        simp [hcovered]

/-! Two servers with one block each: the route goes through both. -/

private def serving (startBlock endBlock : Nat) : ServerInfo :=
  { state := .online, throughput := 1, startBlock := some startBlock, endBlock := some endBlock }

private def twoServers : List (RemoteModuleInfo Nat) :=
  [⟨⟨"model", 0⟩, Dict.empty.insert 7 (serving 0 1)⟩,
    ⟨⟨"model", 1⟩, Dict.empty.insert 9 (serving 1 2)⟩]

private def twoServersView : RoutingView Nat where
  spans := (sortSpans twoServers).getD ⟨[], []⟩
  numBlocks := 2
  clientServerRtts := fun _ => none
  toBase58 := toString

theorem makeSequence_delivers_twoServers :
    ∃ route, makeSequence twoServersView 0 none (.minLatency cheapestPath) none = .ok route ∧
      route.map (fun span => (span.peerId, span.start, span.stop)) = [(7, 0, 1), (9, 1, 2)] ∧
      twoServersView.RouteOver 0 2 route := by
  have hroute : (makeSequence twoServersView 0 none (.minLatency cheapestPath) none).map
      (List.map fun span => (span.peerId, span.start, span.stop)) =
      .ok [(7, 0, 1), (9, 1, 2)] := by decide +kernel
  have hview : twoServersView.SortedFrom twoServers := ⟨rfl, rfl⟩
  cases hresult : makeSequence twoServersView 0 none (.minLatency cheapestPath) none with
  | error e =>
      rw [hresult] at hroute
      cases hroute
  | ok route =>
      rw [hresult] at hroute
      exact ⟨route, rfl, Except.ok.inj hroute, (makeSequence_delivers hview le_rfl (by decide)
        (by decide) (.minLatency cheapestPath) cheapestPath_sound none).1 route hresult⟩

/-! No announcement but one breaks routing. -/

def sortAndMakeSequence (blockInfos : List (RemoteModuleInfo PeerID))
    (clientServerRtts : PeerID → Option RTT) (toBase58 : PeerID → String) (startIndex : Int)
    (endIndex : Option Int) (mode : RoutingMode PeerID) (cacheTokensNeeded : Option Int) :
    Except RoutingError (List (RemoteSpanInfo PeerID)) :=
  match sortSpans blockInfos with
  | none => .error .indexError
  | some spans =>
      makeSequence ⟨spans, blockInfos.length, clientServerRtts, toBase58⟩ startIndex endIndex mode
        cacheTokensNeeded

def Listed (blockInfos : List (RemoteModuleInfo PeerID)) (span : RemoteSpanInfo PeerID) : Prop :=
  (computeSpans blockInfos .online).get? span.peerId = some span

/-- Over a covered range routing raises nothing in either mode, if and only if no listed
server with a block in the range announces an inference rate of zero. -/
theorem sortAndMakeSequence_ok_iff (blockInfos : List (RemoteModuleInfo PeerID))
    (clientServerRtts : PeerID → Option RTT) (toBase58 : PeerID → String)
    {findPath : PathSearch (Node PeerID)} (hsound : findPath.Sound) (hcomplete : findPath.Complete)
    {startIndex : Int} {endIndex : Option Int} (hlow : 0 ≤ startIndex)
    (hle : startIndex ≤ endIndex.getD blockInfos.length)
    (hhigh : endIndex.getD blockInfos.length ≤ blockInfos.length) (cacheTokensNeeded : Option Int)
    (hcovered : ∀ blockIdx, startIndex ≤ blockIdx → blockIdx < endIndex.getD blockInfos.length →
      ∃ span, Listed blockInfos span ∧ span.Covers blockIdx) :
    ((∃ route, sortAndMakeSequence blockInfos clientServerRtts toBase58 startIndex endIndex
        (.minLatency findPath) cacheTokensNeeded = .ok route) ∧
      ∀ draws, ∃ route, sortAndMakeSequence blockInfos clientServerRtts toBase58 startIndex endIndex
        (.maxThroughput draws) cacheTokensNeeded = .ok route) ↔
    ∀ span, Listed blockInfos span →
      max span.start startIndex < min span.stop (endIndex.getD blockInfos.length) →
      span.serverInfo.inferenceRps ≠ some 0 := by
  obtain ⟨spans, hspans, hsorted, hlisted⟩ := sortSpans_eq_some blockInfos
  let view : RoutingView PeerID := ⟨spans, blockInfos.length, clientServerRtts, toBase58⟩
  have hcall (mode : RoutingMode PeerID) : sortAndMakeSequence blockInfos clientServerRtts toBase58
      startIndex endIndex mode cacheTokensNeeded =
      makeSequence view startIndex endIndex mode cacheTokensNeeded := by
    unfold sortAndMakeSequence
    rw [hspans]
  have hcovered : view.Covered startIndex (endIndex.getD blockInfos.length) := by
    intro blockIdx hge hlt
    obtain ⟨span, hspan, hcovers⟩ := hcovered blockIdx hge hlt
    exact ⟨span, (hlisted span).mpr hspan, hcovers⟩
  have hrates : (∀ span, Listed blockInfos span →
      max span.start startIndex < min span.stop (endIndex.getD blockInfos.length) →
      span.serverInfo.inferenceRps ≠ some 0) ↔
      view.PositiveRates startIndex (endIndex.getD blockInfos.length) :=
    forall_congr' fun span => imp_congr_left (hlisted span).symm
  have hthroughput (draws : List Nat) : ∃ route, makeSequence view startIndex endIndex
      (.maxThroughput draws) cacheTokensNeeded = .ok route :=
    RoutingView.exists_maxThroughputLoop hsorted hhigh draws hlow (Int.self_le_toNat _) hcovered
  simp only [hcall, hthroughput, implies_true, and_true]
  rw [hrates]
  change (∃ route, view.makeSequenceWithMinLatency findPath _ _ _ = _) ↔ _
  rcases hle.lt_or_eq with hlt | heq
  · by_cases hpositive : view.PositiveRates startIndex (endIndex.getD blockInfos.length)
    · have houtcome := RoutingView.makeSequenceWithMinLatency_eq hsorted hlow hlt hhigh
        cacheTokensNeeded hsound hcovered hpositive
      obtain ⟨nodes, cost, hwalk⟩ := RoutingView.exists_walk cacheTokensNeeded hlt hcovered
      obtain ⟨path, hpath⟩ := Option.isSome_iff_exists.mp (hcomplete _ _ _ _ _ hwalk)
      rw [hpath] at houtcome
      obtain ⟨route, hroute, -⟩ := houtcome
      exact iff_of_true ⟨route, hroute⟩ hpositive
    · have hfails := RoutingView.makeSequenceWithMinLatency_zeroRate hsorted hlow hlt hhigh
        findPath cacheTokensNeeded hcovered hpositive
      refine iff_of_false ?_ hpositive
      rintro ⟨route, hroute⟩
      cases hfails.symm.trans hroute
  · -- an empty range: nothing to cover, nothing to route
    refine iff_of_true ⟨[], ?_⟩ ?_
    · unfold RoutingView.makeSequenceWithMinLatency
      exact if_pos heq
    · intro span _ hoverlap
      omega

theorem sortAndMakeSequence_ok_twoServers :
    ∃ route, sortAndMakeSequence twoServers (fun _ => none) toString 0 none
      (.minLatency cheapestPath) none = .ok route := by
  refine ((sortAndMakeSequence_ok_iff twoServers (fun _ => none) toString cheapestPath_sound
    cheapestPath_complete le_rfl (by decide) (by decide) none ?_).mpr ?_).1
  · intro blockIdx hlow hhigh
    change blockIdx < 2 at hhigh
    obtain rfl | rfl : blockIdx = 0 ∨ blockIdx = 1 := by omega
    · exact ⟨⟨7, 0, 1, serving 0 1⟩, rfl, by decide⟩
    · exact ⟨⟨9, 1, 2, serving 1 2⟩, rfl, by decide⟩
  · intro span hspan _
    have hrates : ∀ span ∈ (computeSpans twoServers .online).values,
        span.serverInfo.inferenceRps ≠ some 0 := by decide +kernel
    exact hrates span (Dict.mem_values_iff.mpr ⟨_, hspan⟩)

private def idleServer : List (RemoteModuleInfo Nat) :=
  [⟨⟨"model", 0⟩, (Dict.empty.insert 7 (serving 0 1)).insert 9
    { serving 0 1 with inferenceRps := some 0 }⟩]

theorem sortAndMakeSequence_idleServer :
    (∀ blockIdx, 0 ≤ blockIdx → blockIdx < 1 →
      ∃ span, Listed idleServer span ∧ span.Covers blockIdx) ∧
    sortAndMakeSequence idleServer (fun _ => none) toString 0 none (.minLatency cheapestPath) none =
      .error .zeroDivision := by
  constructor
  · intro blockIdx hlow hhigh
    obtain rfl : blockIdx = 0 := by omega
    exact ⟨⟨7, 0, 1, serving 0 1⟩, rfl, by decide⟩
  · have hraises : (sortAndMakeSequence idleServer (fun _ => none) toString 0 none
        (.minLatency cheapestPath) none).map (fun _ => ()) = .error .zeroDivision := by
      decide +kernel
    cases hresult : sortAndMakeSequence idleServer (fun _ => none) toString 0 none
        (.minLatency cheapestPath) none with
    | ok route =>
        rw [hresult] at hraises
        cases hraises
    | error e =>
        rw [hresult] at hraises
        cases hraises
        rfl

end Peerz.Client.Routing
