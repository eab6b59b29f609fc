import Peerz.Client.Routing.Routes

/-! The latency policy finds the cheapest chain of servers. The paths of the inference graph
correspond to the chains that leave each server at the end of its span, cost for cost. -/
namespace Peerz.Client.Routing
open Library

variable {PeerID : Type} [DecidableEq PeerID]

namespace RoutingView

def listedSpan (view : RoutingView PeerID) (peerId : PeerID) : RemoteSpanInfo PeerID :=
  (view.spans.spansByPriority.find? fun span => span.peerId = peerId).getD
    ⟨peerId, 0, 0, { state := .offline, throughput := 0 }⟩

/-- A chain of listed servers over `[start, stop)`: consecutive non-empty spans, each a part of
the listed one, and each server but the last left at its own end. -/
structure CoveringChain (view : RoutingView PeerID) (start stop : Int)
    (chain : List (RemoteSpanInfo PeerID)) : Prop where
  tiles : Tiles RemoteSpanInfo.start RemoteSpanInfo.stop start chain stop
  listed : ∀ span ∈ chain, ∃ listed ∈ view.spans.spansByPriority,
    listed.peerId = span.peerId ∧ listed.serverInfo = span.serverInfo ∧
      listed.start ≤ span.start ∧ span.stop ≤ listed.stop
  leaves : ∀ span ∈ chain.dropLast, span.stop = (view.listedSpan span.peerId).stop

def blockDelay (span : RemoteSpanInfo PeerID) : ℚ :=
  1 / (span.serverInfo.inferenceRps.getD defaultInferenceRps : ℚ≥0)

/-- The cost of a chain from its current server on: its blocks, then the hop to the next server
or back to the client. -/
def costFrom (view : RoutingView PeerID) (cacheTokensNeeded : Option Int) :
    RemoteSpanInfo PeerID → List (RemoteSpanInfo PeerID) → ℚ
  | current, [] =>
      current.length * blockDelay current + rttToDelay (view.clientServerRtts current.peerId)
  | current, next :: rest =>
      current.length * blockDelay current +
        (entryDelay (view.listedSpan next.peerId) (view.serverRtt current next) cacheTokensNeeded +
          costFrom view cacheTokensNeeded next rest)

/-- What one step costs over a chain. Every hop to a server has the overhead of a request, and
the penalty where the attention cache of its whole span would not fit. -/
def chainCost (view : RoutingView PeerID) (cacheTokensNeeded : Option Int) :
    List (RemoteSpanInfo PeerID) → ℚ
  | [] => 0
  | first :: rest =>
      entryDelay (view.listedSpan first.peerId) (view.clientServerRtts first.peerId)
        cacheTokensNeeded + view.costFrom cacheTokensNeeded first rest

/-- The path through the graph that a chain takes, without its start. -/
def pathNodes : List (RemoteSpanInfo PeerID) → List (Node PeerID)
  | [] => [.finish]
  | span :: rest => (Int.range span.start (span.stop + 1)).map (.at span.peerId) ++ pathNodes rest

variable {view : RoutingView PeerID}

theorem listedSpan_eq {numBlocks : Nat} (hsorted : view.spans.WellSorted numBlocks)
    {listed : RemoteSpanInfo PeerID} (hmem : listed ∈ view.spans.spansByPriority) :
    view.listedSpan listed.peerId = listed := by
  unfold listedSpan
  cases hfind : view.spans.spansByPriority.find? fun span => span.peerId = listed.peerId with
  | none =>
      have := List.find?_eq_none.mp hfind listed hmem
      simp at this
  | some found =>
      have hpeer := List.find?_some hfind
      rw [decide_eq_true_eq] at hpeer
      exact hsorted.eq_of_peerId (List.mem_of_find?_eq_some hfind) hmem hpeer

/-! The cost of an edge depends on its ends only, so no edge is added over another. -/

def edgeCost (view : RoutingView PeerID) (cacheTokensNeeded : Option Int) :
    Node PeerID → Node PeerID → ℚ
  | .start, .at peerId _ =>
      entryDelay (view.listedSpan peerId) (view.clientServerRtts peerId) cacheTokensNeeded
  | .at peerId _, .finish => rttToDelay (view.clientServerRtts peerId)
  | .at current blockIdx, .at next nextIdx =>
      if blockIdx = nextIdx then
        entryDelay (view.listedSpan next)
          (view.serverRtt (view.listedSpan current) (view.listedSpan next)) cacheTokensNeeded
      else blockDelay (view.listedSpan current)
  | _, _ => 0

section graph
variable {startIndex endIndex : Int} {cacheTokensNeeded : Option Int} {numBlocks : Nat}
  (hsorted : view.spans.WellSorted numBlocks)
include hsorted

theorem inferenceEdges_cost {edge : Edge (Node PeerID)}
    (hmem : edge ∈ view.inferenceEdges startIndex endIndex cacheTokensNeeded) :
    edge.cost = view.edgeCost cacheTokensNeeded edge.source edge.target := by
  simp only [inferenceEdges, List.mem_append, List.mem_map, List.mem_flatten] at hmem
  rcases hmem with ((⟨span, hspan, rfl⟩ | ⟨span, hspan, rfl⟩) | ⟨_, ⟨blockIdx, hblock, rfl⟩, hedge⟩) |
    ⟨_, ⟨span, hspan, rfl⟩, hedge⟩
  · rw [edgeCost, listedSpan_eq hsorted (mem_listedAt.mp hspan).1]
  · rfl
  · simp only [switchEdgesAt, List.mem_flatMap, List.mem_filter, mem_listedAt,
      List.mem_map] at hedge
    obtain ⟨current, ⟨⟨hcurrent, -⟩, -⟩, next, ⟨hnext, -⟩, rfl⟩ := hedge
    rw [edgeCost, if_pos rfl, listedSpan_eq hsorted hcurrent, listedSpan_eq hsorted hnext]
  · obtain ⟨blockIdx, -, rfl⟩ := List.mem_map.mp hedge
    unfold computeEdge
    rw [edgeCost, if_neg (by omega), listedSpan_eq hsorted hspan]
    rfl

theorem inferenceEdges_unique :
    ∀ edge ∈ view.inferenceEdges startIndex endIndex cacheTokensNeeded,
      ∀ other ∈ view.inferenceEdges startIndex endIndex cacheTokensNeeded,
        edge.source = other.source → edge.target = other.target → edge.cost = other.cost := by
  intro edge hmem other hother hsource htarget
  rw [inferenceEdges_cost hsorted hmem, inferenceEdges_cost hsorted hother, hsource, htarget]

theorem walk_link {first next last : Node PeerID} {rest : List (Node PeerID)} {cost : ℚ}
    (hlink : Link view startIndex endIndex first next)
    (hrest : Walk (view.inferenceEdges startIndex endIndex cacheTokensNeeded) next rest last cost) :
    Walk (view.inferenceEdges startIndex endIndex cacheTokensNeeded) first (next :: rest) last
      (view.edgeCost cacheTokensNeeded first next + cost) := by
  obtain ⟨edge, hmem, rfl, rfl⟩ := (inferenceEdges_iff cacheTokensNeeded first next).mpr hlink
  refine ⟨edge, hmem, rfl, rfl, ?_⟩
  rwa [inferenceEdges_cost hsorted hmem, add_sub_cancel_left]

end graph

/-! Chains from one end to the other, server by server. -/

inductive ChainFrom (view : RoutingView PeerID) (endIndex : Int) :
    Int → List (RemoteSpanInfo PeerID) → Prop
  | last {listed blockIdx} (hmem : listed ∈ view.spans.spansByPriority)
      (hcovers : listed.Covers blockIdx) (hlt : blockIdx < endIndex)
      (hstop : endIndex ≤ listed.stop) :
      ChainFrom view endIndex blockIdx [{ listed with start := blockIdx, stop := endIndex }]
  | hop {listed blockIdx rest} (hmem : listed ∈ view.spans.spansByPriority)
      (hcovers : listed.Covers blockIdx) (hrest : ChainFrom view endIndex listed.stop rest) :
      ChainFrom view endIndex blockIdx ({ listed with start := blockIdx } :: rest)

omit [DecidableEq PeerID] in
theorem ChainFrom.lt {endIndex blockIdx : Int} {chain : List (RemoteSpanInfo PeerID)}
    (h : ChainFrom view endIndex blockIdx chain) : blockIdx < endIndex := by
  induction h with
  | last hmem hcovers hlt hstop => exact hlt
  | hop hmem hcovers hrest ih => exact hcovers.2.trans ih

omit [DecidableEq PeerID] in
theorem ChainFrom.ne_nil {endIndex blockIdx : Int} {chain : List (RemoteSpanInfo PeerID)}
    (h : ChainFrom view endIndex blockIdx chain) : chain ≠ [] := by
  cases h with
  | last hmem hcovers hlt hstop => exact List.cons_ne_nil _ _
  | hop hmem hcovers hrest => exact List.cons_ne_nil _ _

section chains
variable {startIndex endIndex : Int} {numBlocks : Nat}
  (hsorted : view.spans.WellSorted numBlocks)
include hsorted

theorem ChainFrom.coveringChain {blockIdx : Int} {chain : List (RemoteSpanInfo PeerID)}
    (h : ChainFrom view endIndex blockIdx chain) : view.CoveringChain blockIdx endIndex chain := by
  induction h with
  | @last listed blockIdx hmem hcovers hlt hstop =>
      exact
        { tiles := ⟨rfl, hlt, rfl⟩
          listed := by
            intro span hspan
            rw [List.mem_singleton.mp hspan]
            exact ⟨listed, hmem, rfl, rfl, hcovers.1, hstop⟩
          leaves := by simp }
  | @hop listed blockIdx rest hmem hcovers hrest ih =>
      exact
        { tiles := ⟨rfl, hcovers.2, ih.tiles⟩
          listed := by
            intro span hspan
            rcases List.mem_cons.mp hspan with rfl | hspan
            · exact ⟨listed, hmem, rfl, rfl, hcovers.1, le_rfl⟩
            · exact ih.listed span hspan
          leaves := by
            rw [List.dropLast_cons_of_ne_nil hrest.ne_nil]
            intro span hspan
            rcases List.mem_cons.mp hspan with rfl | hspan
            · rw [listedSpan_eq hsorted hmem]
            · exact ih.leaves span hspan }

theorem CoveringChain.chainFrom {chain : List (RemoteSpanInfo PeerID)}
    (hlt : startIndex < endIndex) (h : view.CoveringChain startIndex endIndex chain) :
    ChainFrom view endIndex startIndex chain := by
  induction chain generalizing startIndex with
  | nil => exact absurd h.tiles hlt.ne
  | cons span rest ih =>
      obtain ⟨hstart, hnonempty, htiles⟩ := h.tiles
      obtain ⟨listed, hmem, hpeer, hinfo, hlow, hhigh⟩ := h.listed span List.mem_cons_self
      obtain ⟨peerId, spanStart, spanStop, serverInfo⟩ := span
      dsimp only at hstart hnonempty htiles hpeer hinfo hlow hhigh
      subst hstart hpeer hinfo
      have hcovers : listed.Covers spanStart := ⟨hlow, by omega⟩
      by_cases hrest : rest = []
      · subst hrest
        obtain rfl : spanStop = endIndex := htiles
        exact .last hmem hcovers hnonempty hhigh
      · have hleaves := h.leaves
        rw [List.dropLast_cons_of_ne_nil hrest] at hleaves
        -- the server is left at its own end
        obtain rfl : spanStop = listed.stop := by
          have hstop := hleaves _ List.mem_cons_self
          rwa [listedSpan_eq hsorted hmem] at hstop
        have hnext : listed.stop < endIndex :=
          lt_of_le_of_ne htiles.le fun heq => hrest (htiles.eq_nil_iff.mpr heq)
        exact .hop hmem hcovers (ih hnext
          { tiles := htiles
            listed := fun span hspan => h.listed span (List.mem_cons_of_mem _ hspan)
            leaves := fun span hspan => hleaves span (List.mem_cons_of_mem _ hspan) })

end chains

/-! A chain as a path through the graph. -/

omit [DecidableEq PeerID] in
theorem pathNodes_cons {span : RemoteSpanInfo PeerID} (h : span.start ≤ span.stop)
    (rest : List (RemoteSpanInfo PeerID)) :
    pathNodes (span :: rest) = .at span.peerId span.start ::
      ((Int.range (span.start + 1) (span.stop + 1)).map (.at span.peerId) ++ pathNodes rest) := by
  rw [pathNodes, intRange_cons (by omega), List.map_cons, List.cons_append]

omit [DecidableEq PeerID] in
theorem dropLast_pathNodes_cons (span : RemoteSpanInfo PeerID)
    (rest : List (RemoteSpanInfo PeerID)) :
    (pathNodes (span :: rest)).dropLast =
      (Int.range span.start (span.stop + 1)).map (Node.at span.peerId) ++
        (pathNodes rest).dropLast := by
  have hne : pathNodes rest ≠ [] := by
    cases rest with
    | nil => exact List.cons_ne_nil _ _
    | cons next rest =>
        induction rest generalizing next with
        | nil => exact List.append_ne_nil_of_right_ne_nil _ (List.cons_ne_nil _ _)
        | cons after rest ih => exact List.append_ne_nil_of_right_ne_nil _ (ih after)
  rw [pathNodes, List.dropLast_append_of_ne_nil hne]

section walks
variable {startIndex endIndex : Int} {cacheTokensNeeded : Option Int} {numBlocks : Nat}
  (hsorted : view.spans.WellSorted numBlocks)
include hsorted

theorem walk_run {listed : RemoteSpanInfo PeerID} (hmem : listed ∈ view.spans.spansByPriority)
    {first stop : Int} (hle : first ≤ stop) (hlow : startIndex ≤ first)
    (hstart : listed.start ≤ first) (hstop : stop ≤ listed.stop) (hhigh : stop ≤ endIndex) :
    Walk (view.inferenceEdges startIndex endIndex cacheTokensNeeded) (.at listed.peerId first)
      ((Int.range (first + 1) (stop + 1)).map (.at listed.peerId)) (.at listed.peerId stop)
      ((stop - first : Int) * blockDelay listed) := by
  obtain ⟨count, rfl⟩ : ∃ count : Nat, stop = first + count := ⟨(stop - first).toNat, by omega⟩
  rw [add_sub_cancel_left, Int.cast_natCast]
  clear hle
  induction count generalizing first with
  | zero =>
      simp only [Int.add_zero, intRange_self, Nat.cast_zero, zero_mul]
      exact ⟨rfl, rfl⟩
  | succ count ih =>
      have hlink : Link view startIndex endIndex (.at listed.peerId first)
          (.at listed.peerId (first + 1)) :=
        .run hmem ⟨hstart, by omega⟩ hlow (by omega)
      have hcost : view.edgeCost cacheTokensNeeded (.at listed.peerId first)
          (.at listed.peerId (first + 1)) = blockDelay listed := by
        rw [edgeCost, if_neg (by omega), listedSpan_eq hsorted hmem]
      have hnext : first + 1 + (count : Int) = first + (count + 1 : Nat) := by omega
      have hrest := @ih (first + 1) (by omega) (by omega) (by omega) (by omega)
      rw [hnext] at hrest
      have hwalk := walk_link hsorted hlink hrest
      rw [hcost] at hwalk
      rw [intRange_cons (by omega), List.map_cons, Nat.cast_succ (R := ℚ), add_one_mul,
        add_comm (count * blockDelay listed)]
      exact hwalk

theorem ChainFrom.walk {blockIdx : Int} {chain : List (RemoteSpanInfo PeerID)}
    (h : ChainFrom view endIndex blockIdx chain) (hlow : startIndex ≤ blockIdx) :
    ∃ listed ∈ view.spans.spansByPriority, listed.Covers blockIdx ∧
      ∃ current rest nodes, chain = current :: rest ∧ current.peerId = listed.peerId ∧
        pathNodes chain = .at listed.peerId blockIdx :: nodes ∧
        Walk (view.inferenceEdges startIndex endIndex cacheTokensNeeded)
          (.at listed.peerId blockIdx) nodes .finish
          (view.costFrom cacheTokensNeeded current rest) := by
  induction h with
  | @last listed blockIdx hmem hcovers hlt hstop =>
      have hstart := hcovers.1
      refine ⟨listed, hmem, hcovers, _, _, _, rfl, rfl, pathNodes_cons hlt.le [], ?_⟩
      have hleave : Link view startIndex endIndex (.at listed.peerId endIndex) .finish :=
        .leave hmem ⟨by omega, by omega⟩
      have hdone : Walk (view.inferenceEdges startIndex endIndex cacheTokensNeeded) .finish []
          .finish 0 := ⟨rfl, rfl⟩
      have hend := walk_link hsorted hleave hdone
      rw [add_zero] at hend
      exact (walk_run hsorted hmem hlt.le hlow hstart hstop le_rfl).append hend
  | @hop listed blockIdx rest hmem hcovers hrest ih =>
      have hstart := hcovers.1
      have hlt := hcovers.2
      obtain ⟨next, hnext, hcoversNext, current, after, nodes, hchain, hpeer, hnodes, hwalk⟩ :=
        ih (by omega)
      refine ⟨listed, hmem, hcovers, _, _, _, rfl, rfl, pathNodes_cons hlt.le rest, ?_⟩
      have hswitch : Link view startIndex endIndex (.at listed.peerId listed.stop)
          (.at next.peerId listed.stop) :=
        .switch hmem rfl hnext hcoversNext (by omega) (by omega) hrest.lt
      have hcost : view.edgeCost cacheTokensNeeded (.at listed.peerId listed.stop)
          (.at next.peerId listed.stop) = entryDelay (view.listedSpan current.peerId)
            (view.serverRtt { listed with start := blockIdx } current) cacheTokensNeeded := by
        rw [edgeCost, if_pos rfl, hpeer, listedSpan_eq hsorted hmem, listedSpan_eq hsorted hnext]
        unfold serverRtt
        rw [hpeer]
      have hafter := walk_link hsorted hswitch hwalk
      rw [hcost] at hafter
      rw [hnodes, hchain]
      exact (walk_run hsorted hmem hlt.le hlow hstart le_rfl hrest.lt.le).append hafter

/-- The walk that follows the nodes of a chain costs what the chain does. -/
theorem CoveringChain.walk {chain : List (RemoteSpanInfo PeerID)} (hlt : startIndex < endIndex)
    (h : view.CoveringChain startIndex endIndex chain) :
    Walk (view.inferenceEdges startIndex endIndex cacheTokensNeeded) .start (pathNodes chain)
      .finish (view.chainCost cacheTokensNeeded chain) := by
  obtain ⟨listed, hmem, hcovers, current, rest, nodes, rfl, hpeer, hnodes, hwalk⟩ :=
    (h.chainFrom hsorted hlt).walk hsorted le_rfl
  rw [hnodes, chainCost, hpeer]
  exact walk_link hsorted (.enter hmem hcovers) hwalk

/-! Decoding the nodes of a chain, as the policy does, gives the chain back. -/

section decoding
variable {serverInfos : PeerID → Option ServerInfo}

omit hsorted in
theorem foldlM_visitNode_run (newest : RemoteSpanInfo PeerID)
    (earlier : List (RemoteSpanInfo PeerID)) {stop : Int} (hle : newest.stop ≤ stop) :
    ((Int.range (newest.stop + 1) (stop + 1)).map (Node.at newest.peerId)).foldlM
        (visitNode serverInfos) (newest :: earlier) =
      .ok ({ newest with stop } :: earlier) := by
  obtain ⟨count, rfl⟩ : ∃ count : Nat, stop = newest.stop + count :=
    ⟨(stop - newest.stop).toNat, by omega⟩
  clear hle
  induction count generalizing newest with
  | zero =>
      simp only [Nat.cast_zero, Int.add_zero, intRange_self]
      rfl
  | succ count ih =>
      have hvisit : visitNode serverInfos (newest :: earlier) (.at newest.peerId (newest.stop + 1)) =
          .ok ({ newest with stop := newest.stop + 1 } :: earlier) := by
        simp [visitNode]
      have hnext : newest.stop + 1 + (count : Int) = newest.stop + (count + 1 : Nat) := by omega
      have hrest := ih { newest with stop := newest.stop + 1 }
      dsimp only at hrest
      rw [hnext] at hrest
      rw [intRange_cons (by omega), List.map_cons, List.foldlM_cons, hvisit]
      exact hrest

omit hsorted in
theorem foldlM_visitNode_span (span : RemoteSpanInfo PeerID) (hle : span.start ≤ span.stop)
    (hinfo : serverInfos span.peerId = some span.serverInfo)
    {earlier : List (RemoteSpanInfo PeerID)}
    (hswitch : ∀ last ∈ earlier.head?, last.peerId ≠ span.peerId) :
    ((Int.range span.start (span.stop + 1)).map (Node.at span.peerId)).foldlM
        (visitNode serverInfos) earlier = .ok (span :: earlier) := by
  have hvisit : visitNode serverInfos earlier (.at span.peerId span.start) =
      .ok ({ span with stop := span.start } :: earlier) := by
    cases earlier with
    | nil => simp [visitNode, hinfo]
    | cons last earlier => simp [visitNode, hinfo, hswitch last rfl]
  rw [intRange_cons (by omega), List.map_cons, List.foldlM_cons, hvisit]
  exact foldlM_visitNode_run { span with stop := span.start } earlier hle

theorem ChainFrom.decode
    (hinfos : ∀ span ∈ view.spans.spansByPriority, ∀ blockIdx, startIndex ≤ blockIdx →
      blockIdx < endIndex → span.Covers blockIdx →
      serverInfos span.peerId = some span.serverInfo)
    {blockIdx : Int} {chain : List (RemoteSpanInfo PeerID)}
    (h : ChainFrom view endIndex blockIdx chain) (hlow : startIndex ≤ blockIdx)
    {earlier : List (RemoteSpanInfo PeerID)}
    (hswitch : ∀ last ∈ earlier.head?, ∀ listed ∈ view.spans.spansByPriority,
      listed.Covers blockIdx → last.peerId ≠ listed.peerId) :
    (pathNodes chain).dropLast.foldlM (visitNode serverInfos) earlier =
      .ok (chain.reverse ++ earlier) := by
  induction h generalizing earlier with
  | @last listed blockIdx hmem hcovers hlt hstop =>
      have hspan := foldlM_visitNode_span { listed with start := blockIdx, stop := endIndex } hlt.le
        (hinfos listed hmem blockIdx hlow hlt hcovers)
        fun last hlast => hswitch last hlast listed hmem hcovers
      rw [dropLast_pathNodes_cons, List.foldlM_append, hspan]
      rfl
  | @hop listed blockIdx rest hmem hcovers hrest ih =>
      have hstart := hcovers.1
      have hstop := hcovers.2
      have hlt := hrest.lt
      have hspan := foldlM_visitNode_span { listed with start := blockIdx } hcovers.2.le
        (hinfos listed hmem blockIdx hlow (by omega) hcovers)
        fun last hlast => hswitch last hlast listed hmem hcovers
      rw [dropLast_pathNodes_cons, List.foldlM_append, hspan]
      change (pathNodes rest).dropLast.foldlM (visitNode serverInfos) _ = _
      rw [ih (by omega), List.reverse_cons, List.append_assoc]
      · rfl
      · -- the server that is left does not hold the block the next one goes on with
        intro last hlast next hnext hcoversNext hpeer
        cases hlast
        have heq := hsorted.eq_of_peerId hmem hnext hpeer
        exact absurd hcoversNext.2 (heq ▸ lt_irrefl listed.stop)

end decoding

/-! Every walk from the start to the end follows the nodes of a chain. -/

def RunsOn (view : RoutingView PeerID) (endIndex : Int) (listed : RemoteSpanInfo PeerID)
    (blockIdx : Int) (nodes : List (Node PeerID)) : Prop :=
  ∃ stop rest, blockIdx ≤ stop ∧
    nodes = (Int.range (blockIdx + 1) (stop + 1)).map (.at listed.peerId) ++ pathNodes rest ∧
    (rest = [] ∧ stop = endIndex ∧ endIndex ≤ listed.stop ∨
      stop = listed.stop ∧ ChainFrom view endIndex stop rest)

omit [DecidableEq PeerID] hsorted in
theorem RunsOn.chainFrom {listed : RemoteSpanInfo PeerID} {blockIdx : Int}
    {nodes : List (Node PeerID)} (h : RunsOn view endIndex listed blockIdx nodes)
    (hmem : listed ∈ view.spans.spansByPriority) (hcovers : listed.Covers blockIdx)
    (hlt : blockIdx < endIndex) :
    ∃ chain, ChainFrom view endIndex blockIdx chain ∧
      pathNodes chain = .at listed.peerId blockIdx :: nodes := by
  obtain ⟨stop, rest, hle, rfl, ⟨rfl, rfl, hstop⟩ | ⟨rfl, hrest⟩⟩ := h
  · exact ⟨_, .last hmem hcovers hlt hstop, pathNodes_cons hle []⟩
  · exact ⟨_, .hop hmem hcovers hrest, pathNodes_cons hle rest⟩

omit [DecidableEq PeerID] in
theorem runsOn_of_walk {listed : RemoteSpanInfo PeerID}
    (hmem : listed ∈ view.spans.spansByPriority) {blockIdx : Int} {nodes : List (Node PeerID)}
    {cost : ℚ}
    (hwalk : Walk (view.inferenceEdges startIndex endIndex cacheTokensNeeded)
      (.at listed.peerId blockIdx) nodes .finish cost) :
    RunsOn view endIndex listed blockIdx nodes := by
  induction nodes generalizing listed blockIdx cost with
  | nil => cases hwalk.1
  | cons next rest ih =>
      obtain ⟨edge, hedge, hsource, rfl, hrest⟩ := hwalk
      have hlink := (inferenceEdges_iff cacheTokensNeeded _ _).mp ⟨edge, hedge, hsource, rfl⟩
      generalize edge.target = next at hlink hrest
      generalize hnode : Node.at listed.peerId blockIdx = node at hlink
      cases hlink with
      | enter hspan hcovers => cases hnode
      | @leave span hspan hcovers =>
          injection hnode with hpeer hblock
          subst hblock
          obtain rfl := hsorted.eq_of_peerId hmem hspan hpeer
          have hlast := hcovers.2
          obtain rfl := walk_finish hrest
          refine ⟨blockIdx, [], le_rfl, ?_, .inl ⟨rfl, rfl, by omega⟩⟩
          rw [intRange_self]
          rfl
      | @«switch» current span _ hcurrent hstop hspan hcovers hstart hlow hhigh =>
          injection hnode with hpeer hblock
          subst hblock
          obtain rfl := hsorted.eq_of_peerId hmem hcurrent hpeer
          obtain ⟨chain, hchain, hnodes⟩ := (ih hspan hrest).chainFrom hspan hcovers hhigh
          refine ⟨blockIdx, chain, le_rfl, ?_, .inr ⟨hstop.symm, hchain⟩⟩
          rw [intRange_self, hnodes]
          rfl
      | @run span _ hspan hcovers hlow hhigh =>
          injection hnode with hpeer hblock
          subst hblock
          obtain rfl := hsorted.eq_of_peerId hmem hspan hpeer
          obtain ⟨stop, later, hle, rfl, hend⟩ := ih hmem hrest
          refine ⟨stop, later, by omega, ?_, hend⟩
          rw [@intRange_cons (blockIdx + 1) _ (by omega), List.map_cons, List.cons_append]

theorem exists_chain_of_walk (hlt : startIndex < endIndex) {nodes : List (Node PeerID)} {cost : ℚ}
    (hwalk : Walk (view.inferenceEdges startIndex endIndex cacheTokensNeeded) .start nodes .finish
      cost) :
    ∃ chain, view.CoveringChain startIndex endIndex chain ∧ pathNodes chain = nodes := by
  cases nodes with
  | nil => cases hwalk.1
  | cons next rest =>
      obtain ⟨edge, hedge, hsource, htarget, hrest⟩ := hwalk
      cases (inferenceEdges_iff cacheTokensNeeded _ _).mp ⟨edge, hedge, hsource, htarget⟩ with
      | @enter span hspan hcovers =>
          obtain ⟨chain, hchain, hnodes⟩ :=
            (runsOn_of_walk hsorted hspan hrest).chainFrom hspan hcovers hlt
          exact ⟨chain, hchain.coveringChain hsorted, hnodes⟩

theorem CoveringChain.decode (hlt : startIndex < endIndex) {chain : List (RemoteSpanInfo PeerID)}
    (h : view.CoveringChain startIndex endIndex chain) :
    (pathNodes chain).dropLast.foldlM (visitNode (RoutingView.serverInfos
        ((Int.range startIndex endIndex).map view.listedAt).flatten)) [] = .ok chain.reverse := by
  have hempty : ∀ last ∈ ([] : List (RemoteSpanInfo PeerID)).head?,
      ∀ listed ∈ view.spans.spansByPriority, listed.Covers startIndex →
        last.peerId ≠ listed.peerId := by simp
  have hdecode := (h.chainFrom hsorted hlt).decode hsorted
    (fun _ hmem _ hlow hhigh hcovers => serverInfos_eq hsorted hlow hhigh hmem hcovers) le_rfl
    hempty
  rwa [List.append_nil] at hdecode

/-- The chains over a range are the paths through its graph. -/
theorem pathNodes_bijOn (hlt : startIndex < endIndex) :
    Set.BijOn pathNodes {chain | view.CoveringChain startIndex endIndex chain}
      {nodes | ∃ cost, Walk (view.inferenceEdges startIndex endIndex cacheTokensNeeded) .start nodes
        .finish cost} := by
  refine ⟨?_, ?_, ?_⟩
  · intro chain hchain
    exact ⟨_, CoveringChain.walk hsorted hlt hchain⟩
  · intro chain hchain other hother heq
    have hdecode := CoveringChain.decode hsorted hlt hchain
    rw [heq, CoveringChain.decode hsorted hlt hother] at hdecode
    exact (List.reverse_injective (Except.ok.inj hdecode)).symm
  · rintro nodes ⟨cost, hwalk⟩
    exact exists_chain_of_walk hsorted hlt hwalk

theorem CoveringChain.walk_iff (hlt : startIndex < endIndex) {chain : List (RemoteSpanInfo PeerID)}
    (h : view.CoveringChain startIndex endIndex chain) (cost : ℚ) :
    Walk (view.inferenceEdges startIndex endIndex cacheTokensNeeded) .start (pathNodes chain)
      .finish cost ↔ cost = view.chainCost cacheTokensNeeded chain := by
  constructor
  · intro hwalk
    exact hwalk.cost_unique (inferenceEdges_unique hsorted) (h.walk hsorted hlt)
  · rintro rfl
    exact h.walk hsorted hlt

end walks

section optimum
variable {startIndex endIndex : Int} (hsorted : view.spans.WellSorted view.numBlocks)
  (hlow : 0 ≤ startIndex) (hlt : startIndex < endIndex) (hhigh : endIndex ≤ view.numBlocks)
  (cacheTokensNeeded : Option Int)
include hsorted hlow hlt hhigh

theorem exists_leastCost {findPath : PathSearch (Node PeerID)} (hleast : findPath.LeastCost)
    (hcovered : view.Covered startIndex endIndex)
    (hrates : view.PositiveRates startIndex endIndex) :
    ∃ chain, view.makeSequenceWithMinLatency findPath startIndex endIndex cacheTokensNeeded =
        .ok chain ∧ view.CoveringChain startIndex endIndex chain ∧
      ∀ other, view.CoveringChain startIndex endIndex other →
        view.chainCost cacheTokensNeeded chain ≤ view.chainCost cacheTokensNeeded other := by
  have hnonneg : ∀ edge ∈ view.inferenceEdges startIndex endIndex cacheTokensNeeded,
      0 ≤ edge.cost := fun edge hmem => (inferenceEdges_cost_nonneg hmem).1
  obtain ⟨_, _, hsome⟩ := exists_walk cacheTokensNeeded hlt hcovered
  obtain ⟨path, rest, hfind, hnodes, hwalk, -⟩ := hleast _ _ _ hnonneg _ _ hsome
  obtain ⟨chain, hchain, rfl⟩ := exists_chain_of_walk hsorted hlt hwalk
  have hcost := (hchain.walk_iff hsorted hlt path.totalCost).mp hwalk
  refine ⟨chain, ?_, hchain, fun other hother => ?_⟩
  · rw [makeSequenceWithMinLatency_found hsorted hlow hlt hhigh cacheTokensNeeded hcovered hrates
      hfind (walk_route hsorted hlt hwalk).1.ne', hnodes, List.tail_cons,
      hchain.decode hsorted hlt]
    change Except.ok (chain.reverse.reverse.filter _) = _
    rw [List.reverse_reverse, filter_nonempty hchain.tiles]
  · obtain ⟨found, _, hfound, -, -, hle⟩ :=
      hleast _ _ _ hnonneg _ _ (hother.walk hsorted hlt)
    cases hfind.symm.trans hfound
    exact hcost ▸ hle

end optimum

end RoutingView

/-- Over a covered range the latency policy returns a cheapest chain, and the chains correspond to
the paths of the inference graph, cost for cost. -/
theorem makeSequenceWithMinLatency_leastCost (info : RemoteSequenceInfo PeerID)
    (clientServerRtts : PeerID → Option RTT) (toBase58 : PeerID → String)
    {startIndex endIndex : Int} (hlow : 0 ≤ startIndex) (hle : startIndex ≤ endIndex)
    (hhigh : endIndex ≤ info.blockUids.length) (cacheTokensNeeded : Option Int)
    {findPath : PathSearch (Node PeerID)} (hleast : findPath.LeastCost) :
    let view : RoutingView PeerID :=
      ⟨info.spans, info.blockUids.length, clientServerRtts, toBase58⟩
    view.Covered startIndex endIndex → view.PositiveRates startIndex endIndex →
    (∃ chain, view.makeSequenceWithMinLatency findPath startIndex endIndex cacheTokensNeeded =
        .ok chain ∧ view.CoveringChain startIndex endIndex chain ∧
      ∀ other, view.CoveringChain startIndex endIndex other →
        view.chainCost cacheTokensNeeded chain ≤ view.chainCost cacheTokensNeeded other) ∧
    (startIndex < endIndex →
      ∃ graph, view.buildInferenceGraph startIndex endIndex cacheTokensNeeded = .ok graph ∧
        Set.BijOn RoutingView.pathNodes {chain | view.CoveringChain startIndex endIndex chain}
          {nodes | ∃ cost, Walk graph .start nodes .finish cost} ∧
        ∀ chain, view.CoveringChain startIndex endIndex chain → ∀ cost,
          Walk graph .start (RoutingView.pathNodes chain) .finish cost ↔
            cost = view.chainCost cacheTokensNeeded chain) := by
  intro view hcovered hrates
  have hsorted : view.spans.WellSorted view.numBlocks := info.wellSorted
  constructor
  · rcases hle.lt_or_eq with hlt | rfl
    · exact RoutingView.exists_leastCost hsorted hlow hlt hhigh cacheTokensNeeded hleast hcovered
        hrates
    · -- an empty range has the empty chain only
      refine ⟨[], if_pos rfl, ⟨rfl, by simp, by simp⟩, fun other hother => ?_⟩
      rw [hother.tiles.eq_nil_iff.mpr rfl]
  · intro hlt
    exact ⟨_, RoutingView.buildInferenceGraph_eq hsorted hlow hlt hhigh cacheTokensNeeded hcovered
      hrates, RoutingView.pathNodes_bijOn hsorted hlt,
      fun chain hchain cost => hchain.walk_iff hsorted hlt cost⟩

/-! One server holds both blocks, two others one block each. -/

private def holding (startBlock endBlock : Nat) : ServerInfo :=
  { state := .online, throughput := 1, startBlock := some startBlock, endBlock := some endBlock }

private def threeServers : List (RemoteModuleInfo Nat) :=
  [⟨⟨"model", 0⟩, (Dict.empty.insert 7 (holding 0 2)).insert 8 (holding 0 1)⟩,
    ⟨⟨"model", 1⟩, (Dict.empty.insert 7 (holding 0 2)).insert 9 (holding 1 2)⟩]

private def threeServersInfo : RemoteSequenceInfo Nat where
  blockUids := [⟨"model", 0⟩, ⟨"model", 1⟩]
  blockInfos := threeServers
  spans := (sortSpans threeServers).getD ⟨[], []⟩
  sameLength := rfl
  wellSorted := @sortSpans_wellSorted _ _ threeServers _ rfl

theorem makeSequenceWithMinLatency_leastCost_threeServers :
    let view : RoutingView Nat :=
      ⟨threeServersInfo.spans, threeServersInfo.blockUids.length, fun _ => none, toString⟩
    ∃ chain, view.makeSequenceWithMinLatency cheapestPath 0 2 none = .ok chain ∧
      chain.map (fun span => (span.peerId, span.start, span.stop)) = [(7, 0, 2)] ∧
      view.CoveringChain 0 2 chain ∧
      ∀ other, view.CoveringChain 0 2 other →
        view.chainCost none chain ≤ view.chainCost none other := by
  intro view
  have hcovered : view.Covered 0 2 := by decide +kernel
  have hrates : view.PositiveRates 0 2 := by decide +kernel
  obtain ⟨⟨chain, hchain, hcovering, hleast⟩, -⟩ := makeSequenceWithMinLatency_leastCost
    threeServersInfo (fun _ => none) toString le_rfl (by decide) (by decide) none
    cheapestPath_leastCost hcovered hrates
  refine ⟨chain, hchain, ?_, hcovering, hleast⟩
  have hroute : (view.makeSequenceWithMinLatency cheapestPath 0 2 none).map
      (List.map fun span => (span.peerId, span.start, span.stop)) = .ok [(7, 0, 2)] := by
    decide +kernel
  rw [hchain] at hroute
  exact Except.ok.inj hroute

end Peerz.Client.Routing
