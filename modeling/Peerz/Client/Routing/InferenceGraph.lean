import Mathlib.Data.List.ReduceOption
import Peerz.Client.Routing.SequenceManager

/-! The inference graph over a sorted routing table. Its edges are the four kinds the
source adds, and building it fails for one announcement only: a zero inference rate. -/
namespace Peerz.Client.Routing
open Library

variable {PeerID : Type} {view : RoutingView PeerID}

namespace RoutingView

def listedAt (view : RoutingView PeerID) (blockIdx : Int) : List (RemoteSpanInfo PeerID) :=
  view.spans.spansByPriority.filter fun span => span.Covers blockIdx

@[simp] theorem mem_listedAt {blockIdx : Int} {span : RemoteSpanInfo PeerID} :
    span ∈ view.listedAt blockIdx ↔ span ∈ view.spans.spansByPriority ∧ span.Covers blockIdx := by
  simp [listedAt]

def Covered (view : RoutingView PeerID) (startIndex endIndex : Int) : Prop :=
  ∀ blockIdx, startIndex ≤ blockIdx → blockIdx < endIndex →
    ∃ span ∈ view.spans.spansByPriority, span.Covers blockIdx

def PositiveRates (view : RoutingView PeerID) (startIndex endIndex : Int) : Prop :=
  ∀ span ∈ view.spans.spansByPriority,
    max span.start startIndex < min span.stop endIndex → span.serverInfo.inferenceRps ≠ some 0

instance (view : RoutingView PeerID) (startIndex endIndex : Int) :
    Decidable (view.Covered startIndex endIndex) :=
  inferInstanceAs (Decidable (∀ _, _ → _ → ∃ span ∈ view.spans.spansByPriority, _))

instance (view : RoutingView PeerID) (startIndex endIndex : Int) :
    Decidable (view.PositiveRates startIndex endIndex) :=
  inferInstanceAs (Decidable (∀ span ∈ view.spans.spansByPriority, _ → _))

theorem spansAt_eq (hsorted : view.spans.WellSorted view.numBlocks) {blockIdx : Int}
    (hlow : 0 ≤ blockIdx) (hhigh : blockIdx < view.numBlocks) :
    view.spansAt blockIdx = .ok (view.listedAt blockIdx) := by
  unfold spansAt
  rw [hsorted.listedAt hlow hhigh]
  rfl

theorem listedAt_eq_nil_iff {blockIdx : Int} :
    view.listedAt blockIdx = [] ↔
      ¬ ∃ span ∈ view.spans.spansByPriority, span.Covers blockIdx := by
  simp [List.eq_nil_iff_forall_not_mem]

private theorem reduceOption_map_ite {α : Type} (p : α → Bool) (items : List α) :
    (items.map fun item => if p item then some item else none).reduceOption = items.filter p := by
  induction items with
  | nil => rfl
  | cons item rest ih => by_cases h : p item <;> simp [h, ih, List.reduceOption_cons_of_some]

section range
variable {startIndex endIndex : Int}

theorem missingBlocks_eq (hsorted : view.spans.WellSorted view.numBlocks)
    (hlow : 0 ≤ startIndex) (hhigh : endIndex ≤ view.numBlocks) :
    view.missingBlocks startIndex endIndex =
      .ok ((Int.range startIndex endIndex).filter fun blockIdx =>
        (view.listedAt blockIdx).isEmpty) := by
  have hbody : ∀ blockIdx ∈ Int.range startIndex endIndex,
      (do
        let spans ← view.spansAt blockIdx
        pure (if spans.isEmpty then some blockIdx else none) : Except RoutingError _) =
      .ok (if (view.listedAt blockIdx).isEmpty then some blockIdx else none) := by
    intro blockIdx hmem
    obtain ⟨hge, hlt⟩ := Int.mem_range_iff.mp hmem
    rw [spansAt_eq hsorted (by omega) (by omega)]
    rfl
  unfold missingBlocks
  rw [mapM_eq_ok hbody]
  exact congrArg Except.ok (reduceOption_map_ite _ _)

theorem missing_eq_nil_iff :
    ((Int.range startIndex endIndex).filter fun blockIdx => (view.listedAt blockIdx).isEmpty) =
      [] ↔ view.Covered startIndex endIndex := by
  rw [List.filter_eq_nil_iff]
  simp only [List.isEmpty_iff, listedAt_eq_nil_iff, not_not, Int.mem_range_iff, and_imp]
  rfl

/-! The edges, as the four loops of the source add them. -/

def switchEdgesAt (view : RoutingView PeerID) (cacheTokensNeeded : Option Int) (blockIdx : Int) :
    List (Edge (Node PeerID)) :=
  ((view.listedAt (blockIdx - 1)).filter fun span => span.stop = blockIdx).flatMap
    fun currentSpan => (view.listedAt blockIdx).map fun nextSpan =>
      { source := .at currentSpan.peerId blockIdx
        target := .at nextSpan.peerId blockIdx
        cost := entryDelay nextSpan (view.serverRtt currentSpan nextSpan) cacheTokensNeeded }

theorem switchEdges_eq (hsorted : view.spans.WellSorted view.numBlocks)
    (cacheTokensNeeded : Option Int) {blockIdx : Int} (hlow : 0 < blockIdx)
    (hhigh : blockIdx < view.numBlocks) :
    view.switchEdges cacheTokensNeeded blockIdx =
      .ok (view.switchEdgesAt cacheTokensNeeded blockIdx) := by
  unfold switchEdges
  rw [spansAt_eq hsorted (by omega) (by omega), spansAt_eq hsorted (by omega) hhigh]
  rfl

def computeEdge (span : RemoteSpanInfo PeerID) (blockIdx : Int) : Edge (Node PeerID) where
  source := .at span.peerId blockIdx
  target := .at span.peerId (blockIdx + 1)
  cost := 1 / (span.serverInfo.inferenceRps.getD defaultInferenceRps : ℚ≥0)

theorem rate_eq_zero_iff (serverInfo : ServerInfo) :
    serverInfo.inferenceRps.getD defaultInferenceRps = 0 ↔ serverInfo.inferenceRps = some 0 := by
  cases serverInfo.inferenceRps with
  | none => simp [defaultInferenceRps]
  | some rps => simp

theorem computeEdges_eq {span : RemoteSpanInfo PeerID}
    (h : max span.start startIndex < min span.stop endIndex →
      span.serverInfo.inferenceRps ≠ some 0) :
    computeEdges startIndex endIndex span =
      .ok ((Int.range (max span.start startIndex) (min span.stop endIndex)).map
        (computeEdge span)) := by
  apply mapM_eq_ok
  intro blockIdx hmem
  obtain ⟨hge, hlt⟩ := Int.mem_range_iff.mp hmem
  have hrate := h (by omega)
  unfold computeDelay
  dsimp only
  rw [if_neg (mt (rate_eq_zero_iff _).mp hrate)]
  rfl

theorem computeEdges_eq_error {span : RemoteSpanInfo PeerID}
    (hoverlap : max span.start startIndex < min span.stop endIndex)
    (hzero : span.serverInfo.inferenceRps = some 0) :
    computeEdges startIndex endIndex span = .error .zeroDivision := by
  have hbody (blockIdx : Int) : (do
      let cost ← computeDelay span
      pure { source := .at span.peerId blockIdx, target := .at span.peerId (blockIdx + 1), cost } :
        Except RoutingError (Edge (Node PeerID))) = .error .zeroDivision := by
    unfold computeDelay
    dsimp only
    rw [if_pos ((rate_eq_zero_iff _).mpr hzero)]
    rfl
  exact mapM_eq_error (fun blockIdx _ => .inr (hbody blockIdx))
    ⟨max span.start startIndex, Int.mem_range_iff.mpr ⟨le_rfl, hoverlap⟩, hbody _⟩

def inferenceEdges (view : RoutingView PeerID) (startIndex endIndex : Int)
    (cacheTokensNeeded : Option Int) : List (Edge (Node PeerID)) :=
  ((view.listedAt startIndex).map fun span =>
    { source := .start
      target := .at span.peerId startIndex
      cost := entryDelay span (view.clientServerRtts span.peerId) cacheTokensNeeded }) ++
  ((view.listedAt (endIndex - 1)).map fun span =>
    { source := .at span.peerId endIndex
      target := .finish
      cost := rttToDelay (view.clientServerRtts span.peerId) }) ++
  ((Int.range (startIndex + 1) endIndex).map (view.switchEdgesAt cacheTokensNeeded)).flatten ++
  (view.spans.spansByPriority.map fun span =>
    (Int.range (max span.start startIndex) (min span.stop endIndex)).map
      (computeEdge span)).flatten

variable (hsorted : view.spans.WellSorted view.numBlocks) (hlow : 0 ≤ startIndex)
  (hlt : startIndex < endIndex) (hhigh : endIndex ≤ view.numBlocks)
  (cacheTokensNeeded : Option Int)
include hsorted hlow hlt hhigh

omit hlt in
private theorem switches_eq :
    (Int.range (startIndex + 1) endIndex).mapM (view.switchEdges cacheTokensNeeded) =
      .ok ((Int.range (startIndex + 1) endIndex).map (view.switchEdgesAt cacheTokensNeeded)) := by
  apply mapM_eq_ok
  intro blockIdx hmem
  obtain ⟨hge, hblock⟩ := Int.mem_range_iff.mp hmem
  exact switchEdges_eq hsorted cacheTokensNeeded (by omega) (by omega)

theorem buildInferenceGraph_eq (hcovered : view.Covered startIndex endIndex)
    (hrates : view.PositiveRates startIndex endIndex) :
    view.buildInferenceGraph startIndex endIndex cacheTokensNeeded =
      .ok (view.inferenceEdges startIndex endIndex cacheTokensNeeded) := by
  have hcompute : view.spans.spansByPriority.mapM (computeEdges startIndex endIndex) =
      .ok (view.spans.spansByPriority.map fun span =>
        (Int.range (max span.start startIndex) (min span.stop endIndex)).map
          (computeEdge span)) :=
    mapM_eq_ok fun span hspan => computeEdges_eq (hrates span hspan)
  unfold buildInferenceGraph
  rw [missingBlocks_eq hsorted hlow hhigh, missing_eq_nil_iff.mpr hcovered,
    spansAt_eq hsorted hlow (by omega), spansAt_eq hsorted (by omega) (by omega),
    switches_eq hsorted hlow hhigh, hcompute]
  rfl

/-- One announced rate of zero under the range is enough to lose the graph. -/
theorem buildInferenceGraph_eq_error (hcovered : view.Covered startIndex endIndex)
    (hrates : ¬ view.PositiveRates startIndex endIndex) :
    view.buildInferenceGraph startIndex endIndex cacheTokensNeeded = .error .zeroDivision := by
  have hcompute : view.spans.spansByPriority.mapM (computeEdges startIndex endIndex) =
      .error .zeroDivision := by
    unfold PositiveRates at hrates
    push Not at hrates
    obtain ⟨span, hspan, hoverlap, hzero⟩ := hrates
    refine mapM_eq_error (fun other _ => ?_) ⟨span, hspan, computeEdges_eq_error hoverlap hzero⟩
    by_cases hother : max other.start startIndex < min other.stop endIndex ∧
        other.serverInfo.inferenceRps = some 0
    · exact .inr (computeEdges_eq_error hother.1 hother.2)
    · exact .inl ⟨_, computeEdges_eq fun hoverlap hrate => hother ⟨hoverlap, hrate⟩⟩
  unfold buildInferenceGraph
  rw [missingBlocks_eq hsorted hlow hhigh, missing_eq_nil_iff.mpr hcovered,
    spansAt_eq hsorted hlow (by omega), spansAt_eq hsorted (by omega) (by omega),
    switches_eq hsorted hlow hhigh, hcompute]
  rfl

end range
end RoutingView

/-- One step along the inference graph: entering the chain, leaving it, switching the
server at the end of a span, or running one more block. -/
inductive Link (view : RoutingView PeerID) (startIndex endIndex : Int) :
    Node PeerID → Node PeerID → Prop
  | enter {span} (hmem : span ∈ view.spans.spansByPriority) (hcovers : span.Covers startIndex) :
      Link view startIndex endIndex .start (.at span.peerId startIndex)
  | leave {span} (hmem : span ∈ view.spans.spansByPriority)
      (hcovers : span.Covers (endIndex - 1)) :
      Link view startIndex endIndex (.at span.peerId endIndex) .finish
  | switch {current next blockIdx} (hcurrent : current ∈ view.spans.spansByPriority)
      (hstop : current.stop = blockIdx) (hnext : next ∈ view.spans.spansByPriority)
      (hcovers : next.Covers blockIdx) (hstart : current.start < blockIdx)
      (hlow : startIndex < blockIdx) (hhigh : blockIdx < endIndex) :
      Link view startIndex endIndex (.at current.peerId blockIdx) (.at next.peerId blockIdx)
  | run {span blockIdx} (hmem : span ∈ view.spans.spansByPriority) (hcovers : span.Covers blockIdx)
      (hlow : startIndex ≤ blockIdx) (hhigh : blockIdx < endIndex) :
      Link view startIndex endIndex (.at span.peerId blockIdx) (.at span.peerId (blockIdx + 1))

namespace RoutingView

theorem inferenceEdges_iff {startIndex endIndex : Int} (cacheTokensNeeded : Option Int)
    (source target : Node PeerID) :
    (∃ edge ∈ view.inferenceEdges startIndex endIndex cacheTokensNeeded,
      edge.source = source ∧ edge.target = target) ↔
      Link view startIndex endIndex source target := by
  constructor
  · rintro ⟨edge, hmem, rfl, rfl⟩
    simp only [inferenceEdges, List.mem_append, List.mem_map, List.mem_flatten] at hmem
    rcases hmem with ((⟨span, hspan, rfl⟩ | ⟨span, hspan, rfl⟩) | ⟨_, ⟨blockIdx, hblock, rfl⟩, hedge⟩) |
      ⟨_, ⟨span, hspan, rfl⟩, hedge⟩
    · obtain ⟨hspan, hcovers⟩ := mem_listedAt.mp hspan
      exact .enter hspan hcovers
    · obtain ⟨hspan, hcovers⟩ := mem_listedAt.mp hspan
      exact .leave hspan hcovers
    · obtain ⟨hlow, hhigh⟩ := Int.mem_range_iff.mp hblock
      simp only [switchEdgesAt, List.mem_flatMap, List.mem_filter, mem_listedAt, List.mem_map,
        decide_eq_true_eq] at hedge
      obtain ⟨current, ⟨⟨hcurrent, hprevious⟩, hstop⟩, next, ⟨hnext, hcovers⟩, rfl⟩ := hedge
      have hstart := hprevious.1
      exact .switch hcurrent hstop hnext hcovers (by omega) (by omega) hhigh
    · obtain ⟨blockIdx, hblock, rfl⟩ := List.mem_map.mp hedge
      obtain ⟨hlow, hhigh⟩ := Int.mem_range_iff.mp hblock
      exact .run hspan ⟨by omega, by omega⟩ (by omega) (by omega)
  · intro hlink
    simp only [inferenceEdges, List.mem_append, List.mem_map, List.mem_flatten]
    cases hlink with
    | enter hmem hcovers =>
        exact ⟨_, .inl (.inl (.inl ⟨_, mem_listedAt.mpr ⟨hmem, hcovers⟩, rfl⟩)), rfl, rfl⟩
    | leave hmem hcovers =>
        exact ⟨_, .inl (.inl (.inr ⟨_, mem_listedAt.mpr ⟨hmem, hcovers⟩, rfl⟩)), rfl, rfl⟩
    | @switch current next blockIdx hcurrent hstop hnext hcovers hstart hlow hhigh =>
        refine ⟨⟨.at current.peerId blockIdx, .at next.peerId blockIdx,
          entryDelay next (view.serverRtt current next) cacheTokensNeeded⟩, .inl (.inr
            ⟨_, ⟨blockIdx, Int.mem_range_iff.mpr ⟨by omega, hhigh⟩, rfl⟩, ?_⟩), rfl, rfl⟩
        simp only [switchEdgesAt, List.mem_flatMap, List.mem_filter, mem_listedAt, List.mem_map,
          decide_eq_true_eq]
        exact ⟨current, ⟨⟨hcurrent, by omega, by omega⟩, hstop⟩, next, ⟨hnext, hcovers⟩, rfl⟩
    | @run span blockIdx hmem hcovers hlow hhigh =>
        have hstart := hcovers.1
        have hstop := hcovers.2
        exact ⟨computeEdge span blockIdx, .inr ⟨_, ⟨span, hmem, rfl⟩, List.mem_map.mpr
          ⟨blockIdx, Int.mem_range_iff.mpr ⟨by omega, by omega⟩, rfl⟩⟩, rfl, rfl⟩

private theorem exists_walk_cons {startIndex endIndex : Int} {cacheTokensNeeded : Option Int}
    {first next last : Node PeerID} (hlink : Link view startIndex endIndex first next)
    (hrest : ∃ nodes cost, Walk (view.inferenceEdges startIndex endIndex cacheTokensNeeded)
      next nodes last cost) :
    ∃ nodes cost, Walk (view.inferenceEdges startIndex endIndex cacheTokensNeeded)
      first nodes last cost := by
  obtain ⟨edge, hmem, hsource, htarget⟩ := (inferenceEdges_iff cacheTokensNeeded _ _).mpr hlink
  obtain ⟨nodes, cost, hwalk⟩ := hrest
  exact ⟨next :: nodes, cost + edge.cost, edge, hmem, hsource, htarget,
    by rwa [add_sub_cancel_right]⟩

/-- From any listed server the graph leads on to the end: the server runs to its own end,
and some server holds the block after it. -/
theorem exists_walk_from {startIndex endIndex : Int} (cacheTokensNeeded : Option Int)
    (hcovered : view.Covered startIndex endIndex) (remaining : Nat) {blockIdx : Int}
    (hlow : startIndex ≤ blockIdx) (hremaining : blockIdx + remaining + 1 = endIndex)
    {span : RemoteSpanInfo PeerID} (hmem : span ∈ view.spans.spansByPriority)
    (hcovers : span.Covers blockIdx) :
    ∃ nodes cost, Walk (view.inferenceEdges startIndex endIndex cacheTokensNeeded)
      (.at span.peerId blockIdx) nodes .finish cost := by
  have hrun : Link view startIndex endIndex (.at span.peerId blockIdx)
      (.at span.peerId (blockIdx + 1)) := .run hmem hcovers hlow (by omega)
  refine exists_walk_cons hrun ?_
  induction remaining generalizing blockIdx span with
  | zero =>
      have hend : blockIdx + 1 = endIndex := by omega
      have hlast : span.Covers (endIndex - 1) := by
        rwa [← hend, add_sub_cancel_right]
      rw [hend]
      exact exists_walk_cons (.leave hmem hlast) ⟨[], 0, rfl, rfl⟩
  | succ remaining ih =>
      by_cases hstop : span.stop = blockIdx + 1
      · obtain ⟨next, hnext, hcoversNext⟩ := hcovered (blockIdx + 1) (by omega) (by omega)
        have hstart := hcovers.1
        have hswitch : Link view startIndex endIndex (.at span.peerId (blockIdx + 1))
            (.at next.peerId (blockIdx + 1)) :=
          .switch hmem hstop hnext hcoversNext (by omega) (by omega) (by omega)
        have hrunNext : Link view startIndex endIndex (.at next.peerId (blockIdx + 1))
            (.at next.peerId (blockIdx + 1 + 1)) := .run hnext hcoversNext (by omega) (by omega)
        exact exists_walk_cons hswitch (exists_walk_cons hrunNext
          (ih (by omega) (by omega) hnext hcoversNext hrunNext))
      · have hstart := hcovers.1
        have hbefore := hcovers.2
        have hcoversNext : span.Covers (blockIdx + 1) := ⟨by omega, by omega⟩
        have hrunNext : Link view startIndex endIndex (.at span.peerId (blockIdx + 1))
            (.at span.peerId (blockIdx + 1 + 1)) := .run hmem hcoversNext (by omega) (by omega)
        exact exists_walk_cons hrunNext (ih (by omega) (by omega) hmem hcoversNext hrunNext)

theorem exists_walk {startIndex endIndex : Int} (cacheTokensNeeded : Option Int)
    (hlt : startIndex < endIndex) (hcovered : view.Covered startIndex endIndex) :
    ∃ nodes cost, Walk (view.inferenceEdges startIndex endIndex cacheTokensNeeded)
      .start nodes .finish cost := by
  obtain ⟨span, hmem, hcovers⟩ := hcovered startIndex le_rfl hlt
  obtain ⟨remaining, hremaining⟩ := Int.eq_ofNat_of_zero_le (Int.sub_nonneg_of_le hlt)
  exact exists_walk_cons (.enter hmem hcovers)
    (exists_walk_from cacheTokensNeeded hcovered remaining le_rfl (by omega) hmem hcovers)

theorem rttToDelay_nonneg (rtt : Option RTT) : 0 ≤ rttToDelay rtt := by
  unfold rttToDelay
  split
  · norm_num [defaultDelay]
  · norm_num [maxDelay]
  · rename_i rtt
    have hrtt : (0 : ℚ) ≤ rtt := rtt.coe_nonneg
    exact le_min (by linarith) (by norm_num [maxDelay])

theorem entryDelay_pos (span : RemoteSpanInfo PeerID) (rtt : Option RTT)
    (cacheTokensNeeded : Option Int) : 0 < entryDelay span rtt cacheTokensNeeded := by
  have hrtt := rttToDelay_nonneg rtt
  unfold entryDelay overheadDelay allocDelay
  split <;> linarith

theorem inferenceEdges_cost_nonneg {startIndex endIndex : Int} {cacheTokensNeeded : Option Int}
    {edge : Edge (Node PeerID)}
    (hmem : edge ∈ view.inferenceEdges startIndex endIndex cacheTokensNeeded) :
    0 ≤ edge.cost ∧ (edge.source = .start → 0 < edge.cost) := by
  simp only [inferenceEdges, List.mem_append, List.mem_map, List.mem_flatten] at hmem
  rcases hmem with ((⟨span, hspan, rfl⟩ | ⟨span, hspan, rfl⟩) | ⟨_, ⟨blockIdx, hblock, rfl⟩, hedge⟩) |
    ⟨_, ⟨span, hspan, rfl⟩, hedge⟩
  · exact ⟨(entryDelay_pos _ _ _).le, fun _ => entryDelay_pos _ _ _⟩
  · exact ⟨rttToDelay_nonneg _, fun h => by cases h⟩
  · simp only [switchEdgesAt, List.mem_flatMap, List.mem_map] at hedge
    obtain ⟨current, _, next, _, rfl⟩ := hedge
    exact ⟨(entryDelay_pos _ _ _).le, fun h => by cases h⟩
  · obtain ⟨blockIdx, _, rfl⟩ := List.mem_map.mp hedge
    refine ⟨?_, fun h => by cases h⟩
    exact div_nonneg zero_le_one (NNRat.coe_nonneg _)

end RoutingView
end Peerz.Client.Routing
