import Mathlib.Algebra.Order.BigOperators.Group.List
import Mathlib.Data.List.Chain
import Peerz.Client.Routing.InferenceGraph
import Peerz.Library.Tiling

/-! The routes of both policies tile the requested range. A route of the latency policy is
rebuilt from the nodes of a path, one of the throughput policy is drawn span by span. -/
namespace Peerz.Client.Routing
open Library

variable {PeerID : Type} {view : RoutingView PeerID}

def RoutingView.Holds (view : RoutingView PeerID) (span : RemoteSpanInfo PeerID) : Prop :=
  ∃ listed ∈ view.spans.spansByPriority, listed.peerId = span.peerId ∧
    listed.start ≤ span.start ∧ span.stop ≤ listed.stop

/-- A route over `[start, stop)`: consecutive non-empty spans, each held by its peer, and
no two neighbours of one peer. -/
structure RoutingView.RouteOver (view : RoutingView PeerID) (start stop : Int)
    (route : List (RemoteSpanInfo PeerID)) : Prop where
  tiles : Tiles RemoteSpanInfo.start RemoteSpanInfo.stop start route stop
  holds : ∀ span ∈ route, view.Holds span
  switches : route.IsChain fun left right => left.peerId ≠ right.peerId

namespace RoutingView

@[simp] theorem routeOver_nil {start stop : Int} : view.RouteOver start stop [] ↔ start = stop :=
  ⟨fun h => h.tiles, fun h => ⟨h, by simp, .nil⟩⟩

theorem RouteOver.concat {start middle : Int} {route : List (RemoteSpanInfo PeerID)}
    (h : view.RouteOver start middle route) {span : RemoteSpanInfo PeerID}
    (hstart : span.start = middle) (hlt : span.start < span.stop) (hholds : view.Holds span)
    (hswitch : ∀ last ∈ route.getLast?, last.peerId ≠ span.peerId) :
    view.RouteOver start span.stop (route ++ [span]) where
  tiles := tiles_concat.mpr ⟨hstart ▸ h.tiles, hlt, rfl⟩
  holds := by
    intro other hmem
    rcases List.mem_append.mp hmem with hmem | hmem
    · exact h.holds other hmem
    · rw [List.mem_singleton.mp hmem]
      exact hholds
  switches := by
    refine List.isChain_append.mpr ⟨h.switches, .singleton _, ?_⟩
    intro last hlast next hnext
    cases hnext
    exact hswitch last hlast

theorem RouteOver.cons {numBlocks : Nat} (hsorted : view.spans.WellSorted numBlocks)
    {start stop : Int} {chosen : RemoteSpanInfo PeerID} {route : List (RemoteSpanInfo PeerID)}
    (hmem : chosen ∈ view.spans.spansByPriority) (hcovers : chosen.Covers start)
    (h : view.RouteOver chosen.stop stop route) :
    view.RouteOver start stop ({ chosen with start } :: route) where
  tiles := ⟨rfl, hcovers.2, h.tiles⟩
  holds := by
    intro span hspan
    rcases List.mem_cons.mp hspan with rfl | hspan
    · exact ⟨chosen, hmem, rfl, hcovers.1, le_rfl⟩
    · exact h.holds span hspan
  switches := by
    refine List.isChain_cons.mpr ⟨?_, h.switches⟩
    intro next hnext hpeer
    obtain ⟨rest, rfl⟩ := List.head?_eq_some_iff.mp hnext
    obtain ⟨hstart, hlt, -⟩ := h.tiles
    obtain ⟨listed, hlisted, hsame, -, hstop⟩ := h.holds next List.mem_cons_self
    have heq : listed = chosen := hsorted.eq_of_peerId hlisted hmem (hsame.trans hpeer.symm)
    rw [heq] at hstop
    omega

/-! Latency policy: the route along the nodes of a path, newest span first. -/

/-- The route at the node of `peerId` at `blockIdx`. The newest span may still be empty, but
then its peer holds the next block too, so the path cannot leave it yet. -/
structure RouteAt (view : RoutingView PeerID) (startIndex endIndex : Int) (peerId : PeerID)
    (blockIdx : Int) (newest : RemoteSpanInfo PeerID) (earlier : List (RemoteSpanInfo PeerID)) :
    Prop where
  peer : newest.peerId = peerId
  stop : newest.stop = blockIdx
  ordered : newest.start ≤ newest.stop
  entered : newest.start < endIndex
  listed : ∃ listed ∈ view.spans.spansByPriority, listed.peerId = peerId ∧
    listed.start ≤ newest.start ∧ newest.stop ≤ listed.stop ∧
    (newest.start = newest.stop → listed.Covers blockIdx)
  before : view.RouteOver startIndex newest.start earlier.reverse
  switches : ∀ last ∈ earlier.head?, last.peerId ≠ peerId

section latency
variable {serverInfos : PeerID → Option ServerInfo} {startIndex endIndex : Int}

/-- Past its own end a listed span covers nothing, so the newest span is not empty there. -/
theorem RouteAt.closed {peerId : PeerID} {blockIdx : Int} {newest : RemoteSpanInfo PeerID}
    {earlier : List (RemoteSpanInfo PeerID)}
    (h : view.RouteAt startIndex endIndex peerId blockIdx newest earlier)
    (hnonempty : newest.start < newest.stop) :
    view.RouteOver startIndex blockIdx (newest :: earlier).reverse := by
  obtain ⟨listed, hlisted, hpeer, hstart, hstop, -⟩ := h.listed
  rw [List.reverse_cons, ← h.stop]
  refine h.before.concat rfl hnonempty ⟨listed, hlisted, hpeer.trans h.peer.symm, hstart, hstop⟩ ?_
  intro last hlast
  rw [List.getLast?_reverse] at hlast
  rw [h.peer]
  exact h.switches last hlast

theorem RouteAt.leave {peerId : PeerID} {blockIdx : Int} {newest : RemoteSpanInfo PeerID}
    {earlier : List (RemoteSpanInfo PeerID)}
    (h : view.RouteAt startIndex endIndex peerId blockIdx newest earlier)
    (hlink : Link view startIndex endIndex (.at peerId blockIdx) .finish) :
    view.RouteOver startIndex endIndex (newest :: earlier).reverse := by
  cases hlink
  refine h.closed ?_
  have := h.entered
  have := h.stop
  omega

theorem filter_nonempty {start stop : Int} {route : List (RemoteSpanInfo PeerID)}
    (h : Tiles RemoteSpanInfo.start RemoteSpanInfo.stop start route stop) :
    (route.filter fun span => 0 < span.length) = route := by
  rw [List.filter_eq_self]
  intro span hmem
  have := h.mem_bounds hmem
  exact decide_eq_true (by unfold RemoteSpanInfo.length; omega)

private theorem mapM_spansAt (hsorted : view.spans.WellSorted view.numBlocks)
    (hlow : 0 ≤ startIndex) (hhigh : endIndex ≤ view.numBlocks) :
    (Int.range startIndex endIndex).mapM view.spansAt =
    .ok ((Int.range startIndex endIndex).map view.listedAt) := by
  apply mapM_eq_ok
  intro blockIdx hmem
  obtain ⟨hge, hblock⟩ := Int.mem_range_iff.mp hmem
  exact spansAt_eq hsorted (by omega) (by omega)

variable [DecidableEq PeerID]

theorem visitNode_enter {serverInfo : ServerInfo} {listed : RemoteSpanInfo PeerID}
    (hmem : listed ∈ view.spans.spansByPriority) (hcovers : listed.Covers startIndex)
    (hlt : startIndex < endIndex) (hinfo : serverInfos listed.peerId = some serverInfo) :
    visitNode serverInfos [] (.at listed.peerId startIndex) =
        .ok [⟨listed.peerId, startIndex, startIndex, serverInfo⟩] ∧
      view.RouteAt startIndex endIndex listed.peerId startIndex
        ⟨listed.peerId, startIndex, startIndex, serverInfo⟩ [] := by
  refine ⟨by simp [visitNode, hinfo], ?_⟩
  exact
    { peer := rfl
      stop := rfl
      ordered := le_rfl
      entered := hlt
      listed := ⟨listed, hmem, rfl, hcovers.1, hcovers.2.le, fun _ => hcovers⟩
      before := routeOver_nil.mpr rfl
      switches := by simp }

theorem visitNode_step {numBlocks : Nat} (hsorted : view.spans.WellSorted numBlocks)
    (hinfos : ∀ span ∈ view.spans.spansByPriority, ∀ blockIdx, startIndex ≤ blockIdx →
      blockIdx < endIndex → span.Covers blockIdx → ∃ info, serverInfos span.peerId = some info)
    {peerId next : PeerID} {blockIdx nextIdx : Int} {newest : RemoteSpanInfo PeerID}
    {earlier : List (RemoteSpanInfo PeerID)}
    (h : view.RouteAt startIndex endIndex peerId blockIdx newest earlier)
    (hlink : Link view startIndex endIndex (.at peerId blockIdx) (.at next nextIdx)) :
    ∃ newest' earlier', visitNode serverInfos (newest :: earlier) (.at next nextIdx) =
        .ok (newest' :: earlier') ∧
      view.RouteAt startIndex endIndex next nextIdx newest' earlier' := by
  obtain ⟨listed, hlisted, hpeer, hstart, hstop, hcovers⟩ := h.listed
  cases hlink with
  | @switch current nextSpan _ hcurrent hend hnext hcoversNext _ hlow hhigh =>
      have heq : listed = current := hsorted.eq_of_peerId hlisted hcurrent hpeer
      subst heq
      have hnonempty : newest.start < newest.stop := by
        rcases h.ordered.lt_or_eq with hlt | hempty
        · exact hlt
        · have := (hcovers hempty).2
          omega
      have hne : listed.peerId ≠ nextSpan.peerId := by
        intro hsame
        have := hcoversNext.2
        rw [← hsorted.eq_of_peerId hlisted hnext hsame] at this
        omega
      obtain ⟨info, hinfo⟩ := hinfos nextSpan hnext blockIdx hlow.le hhigh hcoversNext
      refine ⟨⟨nextSpan.peerId, blockIdx, blockIdx, info⟩, newest :: earlier, ?_, ?_⟩
      · simp [visitNode, h.peer, hne, hinfo]
      · exact
          { peer := rfl
            stop := rfl
            ordered := le_rfl
            entered := hhigh
            listed := ⟨nextSpan, hnext, rfl, hcoversNext.1, hcoversNext.2.le, fun _ => hcoversNext⟩
            before := h.closed hnonempty
            switches := by
              intro last hlast
              cases hlast
              rw [h.peer]
              exact hne }
  | @run span _ hmem hcoversRun hlow hhigh =>
      have heq : listed = span := hsorted.eq_of_peerId hlisted hmem hpeer
      subst heq
      refine ⟨{ newest with stop := blockIdx + 1 }, earlier, by simp [visitNode, h.peer], ?_⟩
      have hordered := h.ordered
      have hentered := h.entered
      rw [h.stop] at hordered
      exact
        { peer := h.peer
          stop := rfl
          ordered := by dsimp only; omega
          entered := hentered
          listed := ⟨listed, hlisted, rfl, hstart, hcoversRun.2, fun hempty => by
            dsimp only at hempty
            omega⟩
          before := h.before
          switches := h.switches }

omit [DecidableEq PeerID] in
theorem walk_finish {cacheTokensNeeded : Option Int} {nodes : List (Node PeerID)}
    {last : Node PeerID} {cost : ℚ}
    (h : Walk (view.inferenceEdges startIndex endIndex cacheTokensNeeded) .finish nodes last cost) :
    nodes = [] := by
  cases nodes with
  | nil => rfl
  | cons next rest =>
      obtain ⟨edge, hmem, hsource, htarget, -⟩ := h
      cases (inferenceEdges_iff cacheTokensNeeded _ _).mp ⟨edge, hmem, hsource, htarget⟩

theorem foldlM_visitNode {numBlocks : Nat} (hsorted : view.spans.WellSorted numBlocks)
    (hinfos : ∀ span ∈ view.spans.spansByPriority, ∀ blockIdx, startIndex ≤ blockIdx →
      blockIdx < endIndex → span.Covers blockIdx → ∃ info, serverInfos span.peerId = some info)
    {cacheTokensNeeded : Option Int} {nodes : List (Node PeerID)} {cost : ℚ} {peerId : PeerID}
    {blockIdx : Int} {newest : RemoteSpanInfo PeerID} {earlier : List (RemoteSpanInfo PeerID)}
    (hwalk : Walk (view.inferenceEdges startIndex endIndex cacheTokensNeeded)
      (.at peerId blockIdx) nodes .finish cost)
    (h : view.RouteAt startIndex endIndex peerId blockIdx newest earlier) :
    nodes ≠ [] ∧ ∃ route, nodes.dropLast.foldlM (visitNode serverInfos) (newest :: earlier) =
        .ok route ∧ view.RouteOver startIndex endIndex route.reverse := by
  induction nodes generalizing peerId blockIdx newest earlier cost with
  | nil => cases hwalk.1
  | cons next rest ih =>
      refine ⟨List.cons_ne_nil _ _, ?_⟩
      obtain ⟨edge, hmem, hsource, htarget, hrest⟩ := hwalk
      have hlink := (inferenceEdges_iff cacheTokensNeeded _ _).mp ⟨edge, hmem, hsource, htarget⟩
      cases next with
      | start => cases hlink
      | finish =>
          obtain rfl := walk_finish hrest
          exact ⟨newest :: earlier, rfl, h.leave hlink⟩
      | «at» nextPeer nextIdx =>
          obtain ⟨newest', earlier', hvisit, hnext⟩ := visitNode_step hsorted hinfos h hlink
          obtain ⟨hne, route, hroute, hover⟩ := ih hrest hnext
          refine ⟨route, ?_, hover⟩
          rw [List.dropLast_cons_of_ne_nil hne, List.foldlM_cons, hvisit]
          exact hroute

theorem serverInfos_eq {numBlocks : Nat} (hsorted : view.spans.WellSorted numBlocks) {blockIdx : Int}
    (hlow : startIndex ≤ blockIdx) (hhigh : blockIdx < endIndex) {span : RemoteSpanInfo PeerID}
    (hmem : span ∈ view.spans.spansByPriority) (hcovers : span.Covers blockIdx) :
    RoutingView.serverInfos ((Int.range startIndex endIndex).map view.listedAt).flatten
      span.peerId = some span.serverInfo := by
  unfold RoutingView.serverInfos
  cases hfind : (((Int.range startIndex endIndex).map view.listedAt).flatten.reverse.find?
      fun other => other.peerId = span.peerId) with
  | some found =>
      have hpeer := List.find?_some hfind
      rw [decide_eq_true_eq] at hpeer
      obtain ⟨listed, hlisted, hfound⟩ :=
        List.mem_flatten.mp (List.mem_reverse.mp (List.mem_of_find?_eq_some hfind))
      obtain ⟨block, -, rfl⟩ := List.mem_map.mp hlisted
      rw [hsorted.eq_of_peerId (mem_listedAt.mp hfound).1 hmem hpeer]
      rfl
  | none =>
      have := List.find?_eq_none.mp hfind span (by
        rw [List.mem_reverse, List.mem_flatten]
        exact ⟨_, List.mem_map_of_mem (Int.mem_range_iff.mpr ⟨hlow, hhigh⟩),
          mem_listedAt.mpr ⟨hmem, hcovers⟩⟩)
      simp at this

/-- Every path of the graph through the range gives a route, and has a cost. -/
theorem walk_route {numBlocks : Nat} (hsorted : view.spans.WellSorted numBlocks)
    (hlt : startIndex < endIndex) {cacheTokensNeeded : Option Int} {nodes : List (Node PeerID)}
    {cost : ℚ} (hwalk : Walk (view.inferenceEdges startIndex endIndex cacheTokensNeeded) .start
      nodes .finish cost) :
    0 < cost ∧ ∃ route, nodes.dropLast.foldlM (visitNode
        (RoutingView.serverInfos ((Int.range startIndex endIndex).map view.listedAt).flatten)) [] =
        .ok route ∧ view.RouteOver startIndex endIndex route.reverse := by
  cases nodes with
  | nil => cases hwalk.1
  | cons next rest =>
      obtain ⟨edge, hmem, hsource, htarget, hrest⟩ := hwalk
      have hfirst := (inferenceEdges_cost_nonneg hmem).2 hsource
      have htail := hrest.cost_nonneg fun edge hmem => (inferenceEdges_cost_nonneg hmem).1
      refine ⟨by linarith, ?_⟩
      cases (inferenceEdges_iff cacheTokensNeeded _ _).mp ⟨edge, hmem, hsource, htarget⟩ with
      | @enter span hspan hcovers =>
          obtain ⟨hvisit, hentered⟩ := visitNode_enter hspan hcovers hlt
            (serverInfos_eq hsorted le_rfl hlt hspan hcovers)
          obtain ⟨hne, route, hroute, hover⟩ := foldlM_visitNode hsorted
            (fun _ hmem _ hlow hhigh hcovers => ⟨_, serverInfos_eq hsorted hlow hhigh hmem hcovers⟩)
            hrest hentered
          refine ⟨route, ?_, hover⟩
          rw [List.dropLast_cons_of_ne_nil hne, List.foldlM_cons, hvisit]
          exact hroute

section outcomes
variable (hsorted : view.spans.WellSorted view.numBlocks) (hlow : 0 ≤ startIndex)
  (hlt : startIndex < endIndex) (hhigh : endIndex ≤ view.numBlocks)
  (findPath : PathSearch (Node PeerID)) (cacheTokensNeeded : Option Int)
include hsorted hlow hlt hhigh

theorem makeSequenceWithMinLatency_missing (hmissing : ¬ view.Covered startIndex endIndex) :
    ∃ blocks, view.makeSequenceWithMinLatency findPath startIndex endIndex cacheTokensNeeded =
      .error (.missingBlocks blocks) := by
  unfold makeSequenceWithMinLatency
  rw [if_neg hlt.ne, missingBlocks_eq hsorted hlow hhigh]
  simp only [bind, Except.bind, ne_eq, missing_eq_nil_iff.not.mpr hmissing, not_false_eq_true,
    if_true]
  exact ⟨_, rfl⟩

theorem makeSequenceWithMinLatency_zeroRate (hcovered : view.Covered startIndex endIndex)
    (hrates : ¬ view.PositiveRates startIndex endIndex) :
    view.makeSequenceWithMinLatency findPath startIndex endIndex cacheTokensNeeded =
      .error .zeroDivision := by
  unfold makeSequenceWithMinLatency
  rw [if_neg hlt.ne, missingBlocks_eq hsorted hlow hhigh, missing_eq_nil_iff.mpr hcovered,
    mapM_spansAt hsorted hlow hhigh,
    buildInferenceGraph_eq_error hsorted hlow hlt hhigh cacheTokensNeeded hcovered hrates]
  rfl

variable {findPath} in
/-- With every block covered and every rate positive the path that the search finds is decoded. -/
theorem makeSequenceWithMinLatency_found (hcovered : view.Covered startIndex endIndex)
    (hrates : view.PositiveRates startIndex endIndex) {path : PathInfo (Node PeerID)}
    (hfind : findPath (view.inferenceEdges startIndex endIndex cacheTokensNeeded) .start .finish =
      some path) (hcost : path.totalCost ≠ 0) :
    view.makeSequenceWithMinLatency findPath startIndex endIndex cacheTokensNeeded =
      (path.nodes.tail.dropLast.foldlM (visitNode (RoutingView.serverInfos
        ((Int.range startIndex endIndex).map view.listedAt).flatten)) []).map
        fun route => route.reverse.filter fun span => 0 < span.length := by
  unfold makeSequenceWithMinLatency
  rw [if_neg hlt.ne, missingBlocks_eq hsorted hlow hhigh, missing_eq_nil_iff.mpr hcovered,
    mapM_spansAt hsorted hlow hhigh,
    buildInferenceGraph_eq hsorted hlow hlt hhigh cacheTokensNeeded hcovered hrates]
  simp only [bind, Except.bind, ne_eq, not_true_eq_false, if_false, hfind, hcost, and_false]
  cases path.nodes.tail.dropLast.foldlM (visitNode (RoutingView.serverInfos
    ((Int.range startIndex endIndex).map view.listedAt).flatten)) [] with
  | error e => rfl
  | ok route => rfl

variable {findPath} in
theorem makeSequenceWithMinLatency_eq (hsound : findPath.Sound)
    (hcovered : view.Covered startIndex endIndex)
    (hrates : view.PositiveRates startIndex endIndex) :
    match findPath (view.inferenceEdges startIndex endIndex cacheTokensNeeded) .start .finish with
    | none => view.makeSequenceWithMinLatency findPath startIndex endIndex cacheTokensNeeded =
        .error .noPath
    | some _ => ∃ route, view.makeSequenceWithMinLatency findPath startIndex endIndex
        cacheTokensNeeded = .ok route ∧ view.RouteOver startIndex endIndex route := by
  cases hfind : findPath (view.inferenceEdges startIndex endIndex cacheTokensNeeded) .start
      .finish with
  | none =>
      unfold makeSequenceWithMinLatency
      rw [if_neg hlt.ne, missingBlocks_eq hsorted hlow hhigh, missing_eq_nil_iff.mpr hcovered,
        mapM_spansAt hsorted hlow hhigh,
        buildInferenceGraph_eq hsorted hlow hlt hhigh cacheTokensNeeded hcovered hrates]
      simp only [bind, Except.bind, ne_eq, not_true_eq_false, if_false, hfind]
  | some path =>
      obtain ⟨rest, hnodes, hwalk⟩ := hsound _ _ _ _ hfind
      obtain ⟨hcost, route, hroute, hover⟩ := walk_route hsorted hlt hwalk
      refine ⟨route.reverse, ?_, hover⟩
      rw [makeSequenceWithMinLatency_found hsorted hlow hlt hhigh cacheTokensNeeded hcovered hrates
        hfind hcost.ne', hnodes, List.tail_cons, hroute]
      exact congrArg Except.ok (filter_nonempty hover.tiles)

end outcomes
end latency

/-! Throughput policy: the spans are drawn in order. -/

theorem randomChoice_mem {α : Type} {draw : Nat} {candidates : List α} {weight : α → ℚ}
    {chosen : α} (h : randomChoice draw candidates weight = .ok chosen) : chosen ∈ candidates := by
  unfold randomChoice at h
  split at h
  · cases h
  · dsimp only at h
    split at h
    · rename_i hget
      cases h
      exact (List.mem_filter.mp (List.mem_of_getElem? hget)).1
    · cases h

theorem randomChoice_eq {α : Type} {draw : Nat} {candidates : List α} {weight : α → ℚ}
    (hpos : ∀ candidate ∈ candidates, 0 < weight candidate) {chosen : α}
    (hchosen : candidates[draw % candidates.length]? = some chosen) :
    randomChoice draw candidates weight = .ok chosen := by
  have hne : candidates ≠ [] := List.ne_nil_of_mem (List.mem_of_getElem? hchosen)
  have hsum : 0 < (candidates.map weight).sum := by
    refine List.sum_pos _ ?_ (by simpa using hne)
    rintro _ hmem
    obtain ⟨candidate, hcandidate, rfl⟩ := List.mem_map.mp hmem
    exact hpos candidate hcandidate
  have hfilter : (candidates.filter fun candidate => 0 < weight candidate) = candidates := by
    rw [List.filter_eq_self]
    exact fun candidate hmem => decide_eq_true (hpos candidate hmem)
  unfold randomChoice
  rw [if_neg]
  · dsimp only
    rw [hfilter, hchosen]
  · rintro (hzero | ⟨candidate, hmem, hneg⟩)
    · exact hsum.ne' hzero
    · exact (hpos candidate hmem).not_gt hneg

theorem exists_randomChoice {α : Type} (draw : Nat) {candidates : List α} {weight : α → ℚ}
    (hne : candidates ≠ []) (hpos : ∀ candidate ∈ candidates, 0 < weight candidate) :
    ∃ chosen, randomChoice draw candidates weight = .ok chosen :=
  ⟨_, randomChoice_eq hpos
    (List.getElem?_eq_getElem (Nat.mod_lt draw (List.length_pos_of_ne_nil hne)))⟩

theorem exists_draw {α : Type} {candidates : List α} {weight : α → ℚ} {candidate : α}
    (hmem : candidate ∈ candidates) (hpos : ∀ other ∈ candidates, 0 < weight other) :
    ∃ draw, randomChoice draw candidates weight = .ok candidate := by
  obtain ⟨position, hposition, hget⟩ := List.getElem_of_mem hmem
  refine ⟨position, randomChoice_eq hpos ?_⟩
  rw [Nat.mod_eq_of_lt hposition, ← hget]
  exact List.getElem?_eq_getElem hposition

theorem spanWeight_pos (view : RoutingView PeerID) {span : RemoteSpanInfo PeerID} {blockIdx : Int}
    (hcovers : span.Covers blockIdx) : 0 < view.spanWeight span := by
  unfold spanWeight
  split
  · have hlength : 0 < span.length := by
      have := hcovers.1
      have := hcovers.2
      unfold RemoteSpanInfo.length
      omega
    exact_mod_cast hlength
  · norm_num [unreachableWeight]

theorem maxThroughputLoop_succ {endIndex : Int} {turns : Nat} {draws : List Nat}
    {currentIndex : Int} {route : List (RemoteSpanInfo PeerID)} (hlt : currentIndex < endIndex)
    (h : view.maxThroughputLoop endIndex (turns + 1) draws currentIndex = .ok route) :
    ∃ candidates chosen rest, view.spansAt currentIndex = .ok candidates ∧
      chosen ∈ candidates ∧ chosen.Covers currentIndex ∧
      view.maxThroughputLoop endIndex turns draws.tail chosen.stop = .ok rest ∧
      route = { chosen with start := currentIndex } :: rest := by
  unfold maxThroughputLoop at h
  rw [if_pos hlt] at h
  obtain ⟨candidates, hcandidates, h⟩ := bind_eq_ok.mp h
  split at h
  · cases h
  · obtain ⟨-, -, h⟩ := bind_eq_ok.mp h
    obtain ⟨chosen, hchosen, h⟩ := bind_eq_ok.mp h
    split at h
    · cases h
    · rename_i hcovers
      obtain ⟨-, -, h⟩ := bind_eq_ok.mp h
      obtain ⟨rest, hrest, h⟩ := bind_eq_ok.mp h
      cases h
      exact ⟨candidates, chosen, rest, hcandidates, randomChoice_mem hchosen,
        Decidable.not_not.mp hcovers, hrest, rfl⟩

theorem maxThroughputLoop_done {endIndex : Int} {turns : Nat} {draws : List Nat}
    {currentIndex : Int} {route : List (RemoteSpanInfo PeerID)} (hge : ¬ currentIndex < endIndex)
    (h : view.maxThroughputLoop endIndex turns draws currentIndex = .ok route) : route = [] := by
  unfold maxThroughputLoop at h
  rw [if_neg hge] at h
  exact (Except.ok.inj h).symm

theorem maxThroughputLoop_zero {endIndex : Int} {draws : List Nat} {currentIndex : Int}
    {route : List (RemoteSpanInfo PeerID)}
    (h : view.maxThroughputLoop endIndex 0 draws currentIndex = .ok route) :
    ¬ currentIndex < endIndex := by
  unfold maxThroughputLoop at h
  split at h
  · cases h
  · assumption

section throughput
variable {endIndex : Int} (hsorted : view.spans.WellSorted view.numBlocks)
  (hhigh : endIndex ≤ view.numBlocks)
include hsorted hhigh

theorem maxThroughputLoop_route {turns : Nat} {draws : List Nat} {currentIndex : Int}
    {route : List (RemoteSpanInfo PeerID)} (hlow : 0 ≤ currentIndex)
    (h : view.maxThroughputLoop endIndex turns draws currentIndex = .ok route) :
    ∃ stop, view.RouteOver currentIndex stop route ∧ endIndex ≤ stop ∧
      ∀ span ∈ route.dropLast, span.stop < endIndex := by
  induction turns generalizing draws currentIndex route with
  | zero =>
      have hge := maxThroughputLoop_zero h
      obtain rfl := maxThroughputLoop_done hge h
      exact ⟨currentIndex, routeOver_nil.mpr rfl, by omega, by simp⟩
  | succ turns ih =>
      by_cases hlt : currentIndex < endIndex
      · obtain ⟨candidates, chosen, rest, hcandidates, hchosen, hcovers, hrest, rfl⟩ :=
          maxThroughputLoop_succ hlt h
        rw [spansAt_eq hsorted hlow (by omega)] at hcandidates
        cases hcandidates
        have hmem := (mem_listedAt.mp hchosen).1
        have hstop := hcovers.2
        obtain ⟨stop, hover, hend, hinside⟩ := ih (by omega) hrest
        refine ⟨stop, hover.cons hsorted hmem hcovers, hend, ?_⟩
        cases rest with
        | nil => simp
        | cons next rest =>
            -- the loop went on, so this span ends before the range does
            have hnext : chosen.stop < endIndex := by
              by_contra hge
              cases maxThroughputLoop_done hge hrest
            rw [List.dropLast_cons_of_ne_nil (List.cons_ne_nil _ _)]
            intro span hspan
            rcases List.mem_cons.mp hspan with rfl | hspan
            · exact hnext
            · exact hinside span hspan
      · obtain rfl := maxThroughputLoop_done hlt h
        exact ⟨currentIndex, routeOver_nil.mpr rfl, by omega, by simp⟩

theorem exists_maxThroughputLoop {turns : Nat} (draws : List Nat) {currentIndex : Int}
    (hlow : 0 ≤ currentIndex) (hturns : endIndex - currentIndex ≤ turns)
    (hcovered : view.Covered currentIndex endIndex) :
    ∃ route, view.maxThroughputLoop endIndex turns draws currentIndex = .ok route := by
  induction turns generalizing draws currentIndex with
  | zero =>
      unfold maxThroughputLoop
      rw [if_neg (by omega)]
      exact ⟨[], rfl⟩
  | succ turns ih =>
      unfold maxThroughputLoop
      split
      · rename_i hlt
        have hne : view.listedAt currentIndex ≠ [] := fun hnil =>
          listedAt_eq_nil_iff.mp hnil (hcovered currentIndex le_rfl hlt)
        obtain ⟨chosen, hchosen⟩ := exists_randomChoice (draws.headD 0) hne
          fun span hmem => view.spanWeight_pos (mem_listedAt.mp hmem).2
        obtain ⟨hmem, hcovers⟩ := mem_listedAt.mp (randomChoice_mem hchosen)
        have hstop := hcovers.2
        have hcoveredRest : view.Covered chosen.stop endIndex :=
          fun blockIdx hge => hcovered blockIdx (by omega)
        obtain ⟨rest, hrest⟩ := ih draws.tail (by omega) (by omega) hcoveredRest
        rw [spansAt_eq hsorted hlow (by omega)]
        simp only [bind, Except.bind, List.isEmpty_iff, hne, if_false, hchosen, hcovers,
          not_true_eq_false, hrest]
        exact ⟨_, rfl⟩
      · exact ⟨[], rfl⟩

end throughput

end RoutingView
end Peerz.Client.Routing
