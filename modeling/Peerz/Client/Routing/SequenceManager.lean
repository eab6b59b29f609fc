import Mathlib.Data.NNRat.Lemmas
import Peerz.Client.Routing.SequenceInfo
import Peerz.Library.Checked
import Peerz.Library.WeightedGraph

/-! Route selection: `make_sequence` and the two policies under it. The client reads the
span lists, its own ping table and, between servers, the pings they announce. -/
namespace Peerz.Client.Routing
open Library

inductive RoutingError where
  | missingBlocks (blockIndices : List Int)
  | zeroDivision
  | indexError
  | keyError
  | noPath
  | valueError
  | assertionError
deriving DecidableEq

/-- What a routing call reads: the span lists, `len(self)` and the measured round trips. -/
structure RoutingView (PeerID : Type) where
  spans : SpanLists PeerID
  numBlocks : Nat
  clientServerRtts : PeerID → Option RTT
  toBase58 : PeerID → String

inductive Node (PeerID : Type) where
  | start
  | finish
  | at (peerId : PeerID) (blockIdx : Int)
deriving DecidableEq

variable {PeerID : Type}

def defaultDelay : ℚ := 15 / 100
def maxDelay : ℚ := 5
def overheadDelay : ℚ := 18 / 1000
def allocDelay : ℚ := 10
def defaultInferenceRps : RPS := 300

def rttToDelay : Option RTT → ℚ
  | none => defaultDelay
  | some ⊤ => maxDelay
  | some (some rtt) => min ((rtt : ℚ) / 2) maxDelay

def hasCacheFor (span : RemoteSpanInfo PeerID) (cacheTokensNeeded : Option Int) : Bool :=
  match cacheTokensNeeded, span.serverInfo.cacheTokensLeft with
  | some needed, some left => needed * 2 * span.length ≤ left
  | _, _ => true

/-- The cost of entering a server: the delay of the hop, the overhead of a request and a
penalty where the attention cache would not fit. -/
def entryDelay (span : RemoteSpanInfo PeerID) (rtt : Option RTT) (cacheTokensNeeded : Option Int) :
    ℚ :=
  rttToDelay rtt + overheadDelay + if hasCacheFor span cacheTokensNeeded then 0 else allocDelay

def computeDelay (span : RemoteSpanInfo PeerID) : Except RoutingError ℚ :=
  let inferenceRps := span.serverInfo.inferenceRps.getD defaultInferenceRps
  if inferenceRps = 0 then .error .zeroDivision else .ok (1 / inferenceRps)

namespace RoutingView

def spansAt (view : RoutingView PeerID) (blockIdx : Int) :
    Except RoutingError (List (RemoteSpanInfo PeerID)) :=
  match pyGet? view.spans.spansContainingBlock blockIdx with
  | some spans => .ok spans
  | none => .error .indexError

def missingBlocks (view : RoutingView PeerID) (startIndex endIndex : Int) :
    Except RoutingError (List Int) := do
  let missing ← (Int.range startIndex endIndex).mapM fun blockIdx => do
    let spans ← view.spansAt blockIdx
    pure (if spans.isEmpty then some blockIdx else none)
  pure missing.reduceOption

def serverRtt (view : RoutingView PeerID) (current next : RemoteSpanInfo PeerID) : Option RTT :=
  current.serverInfo.nextPings.bind fun nextPings => nextPings.get? (view.toBase58 next.peerId)

def switchEdges (view : RoutingView PeerID) (cacheTokensNeeded : Option Int) (blockIdx : Int) :
    Except RoutingError (List (Edge (Node PeerID))) := do
  let current ← view.spansAt (blockIdx - 1)
  -- a chosen server is kept until its own end, which keeps the graph small
  let leaving := current.filter fun span => span.stop = blockIdx
  let next ← view.spansAt blockIdx
  pure <| leaving.flatMap fun currentSpan => next.map fun nextSpan =>
    { source := .at currentSpan.peerId blockIdx
      target := .at nextSpan.peerId blockIdx
      cost := entryDelay nextSpan (view.serverRtt currentSpan nextSpan) cacheTokensNeeded }

def computeEdges (startIndex endIndex : Int) (span : RemoteSpanInfo PeerID) :
    Except RoutingError (List (Edge (Node PeerID))) :=
  (Int.range (max span.start startIndex) (min span.stop endIndex)).mapM fun blockIdx => do
    let cost ← computeDelay span
    pure { source := .at span.peerId blockIdx, target := .at span.peerId (blockIdx + 1), cost }

def buildInferenceGraph (view : RoutingView PeerID) (startIndex endIndex : Int)
    (cacheTokensNeeded : Option Int) : Except RoutingError (List (Edge (Node PeerID))) := do
  let missing ← view.missingBlocks startIndex endIndex
  if missing ≠ [] then throw (.missingBlocks missing)
  let first ← view.spansAt startIndex
  let last ← view.spansAt (endIndex - 1)
  let switches ← (Int.range (startIndex + 1) endIndex).mapM (view.switchEdges cacheTokensNeeded)
  let compute ← view.spans.spansByPriority.mapM (computeEdges startIndex endIndex)
  pure <|
    (first.map fun span =>
      { source := .start
        target := .at span.peerId startIndex
        cost := entryDelay span (view.clientServerRtts span.peerId) cacheTokensNeeded }) ++
    (last.map fun span =>
      { source := .at span.peerId endIndex
        target := .finish
        cost := rttToDelay (view.clientServerRtts span.peerId) }) ++
    switches.flatten ++ compute.flatten

/-- One node of the path; the route is kept with its newest span first. -/
def visitNode (serverInfos : PeerID → Option ServerInfo) [DecidableEq PeerID]
    (route : List (RemoteSpanInfo PeerID)) :
    Node PeerID → Except RoutingError (List (RemoteSpanInfo PeerID))
  | .at peerId blockIdx =>
      let opened : Except RoutingError (List (RemoteSpanInfo PeerID)) :=
        match serverInfos peerId with
        | none => .error .keyError
        | some serverInfo => .ok (⟨peerId, blockIdx, blockIdx, serverInfo⟩ :: route)
      match route with
      | [] => opened
      | newest :: earlier =>
          if newest.peerId ≠ peerId then opened
          else .ok ({ newest with stop := blockIdx } :: earlier)
  | _ => .error .valueError

/-- `server_infos`: of several spans of one peer the last assignment stays. -/
def serverInfos [DecidableEq PeerID] (listed : List (RemoteSpanInfo PeerID)) (peerId : PeerID) :
    Option ServerInfo :=
  (listed.reverse.find? fun span => span.peerId = peerId).map RemoteSpanInfo.serverInfo

variable [DecidableEq PeerID]

def makeSequenceWithMinLatency (view : RoutingView PeerID)
    (findPath : PathSearch (Node PeerID)) (startIndex endIndex : Int) (cacheTokensNeeded : Option Int) :
    Except RoutingError (List (RemoteSpanInfo PeerID)) :=
  if startIndex = endIndex then .ok []
  else do
    let missing ← view.missingBlocks startIndex endIndex
    if missing ≠ [] then throw (.missingBlocks missing)
    let listed ← (Int.range startIndex endIndex).mapM view.spansAt
    let graph ← view.buildInferenceGraph startIndex endIndex cacheTokensNeeded
    match findPath graph .start .finish with
    | none => .error .noPath
    | some path => do
        -- the expected speed is logged as the inverse of the path's cost
        if startIndex = 0 ∧ endIndex = view.numBlocks ∧ path.totalCost = 0 then
          throw .zeroDivision
        let route ← path.nodes.tail.dropLast.foldlM (visitNode (serverInfos listed.flatten)) []
        pure (route.reverse.filter fun span => 0 < span.length)

def unreachableWeight : ℚ := 1 / 1000000

def spanWeight (view : RoutingView PeerID) (span : RemoteSpanInfo PeerID) : ℚ :=
  if view.clientServerRtts span.peerId ≠ some ⊤ then span.length else unreachableWeight

/-- `np.random.choice` with the given weights: a candidate of positive weight, which one
is up to `draw`; weights that give no distribution are an error. -/
def randomChoice {α : Type} (draw : Nat) (candidates : List α) (weight : α → ℚ) :
    Except RoutingError α :=
  if (candidates.map weight).sum = 0 ∨ ∃ candidate ∈ candidates, weight candidate < 0 then
    .error .valueError
  else
    let possible := candidates.filter fun candidate => 0 < weight candidate
    match possible[draw % possible.length]? with
    | some candidate => .ok candidate
    | none => .error .valueError

/-- The loop of the `max_throughput` policy from `currentIndex`. Each chosen span ends
past `currentIndex`, so a bound of one turn a block is never reached. -/
def maxThroughputLoop (view : RoutingView PeerID) (endIndex : Int) :
    Nat → List Nat → Int → Except RoutingError (List (RemoteSpanInfo PeerID))
  | turns, draws, currentIndex =>
      if currentIndex < endIndex then
        match turns with
        | 0 => .error .assertionError
        | turns + 1 => do
            let candidates ← view.spansAt currentIndex
            if candidates.isEmpty then throw (.missingBlocks [currentIndex])
            let chosen ← randomChoice (draws.headD 0) candidates view.spanWeight
            if ¬ chosen.Covers currentIndex then throw .assertionError
            let rest ← maxThroughputLoop view endIndex turns draws.tail chosen.stop
            pure ({ chosen with start := currentIndex } :: rest)
      else .ok []

def makeSequenceWithMaxThroughput (view : RoutingView PeerID) (draws : List Nat)
    (startIndex endIndex : Int) : Except RoutingError (List (RemoteSpanInfo PeerID)) :=
  view.maxThroughputLoop endIndex (endIndex - startIndex).toNat draws startIndex

end RoutingView

/-- The mode of a routing call, with the outcomes of the search or of the draws it makes. -/
inductive RoutingMode (PeerID : Type) where
  | minLatency (findPath : PathSearch (Node PeerID))
  | maxThroughput (draws : List Nat)

/-- `make_sequence`, once the span lists have been read. -/
def makeSequence [DecidableEq PeerID] (view : RoutingView PeerID) (startIndex : Int)
    (endIndex : Option Int) (mode : RoutingMode PeerID) (cacheTokensNeeded : Option Int) :
    Except RoutingError (List (RemoteSpanInfo PeerID)) :=
  let endIndex := endIndex.getD view.numBlocks
  match mode with
  | .minLatency findPath =>
      view.makeSequenceWithMinLatency findPath startIndex endIndex cacheTokensNeeded
  | .maxThroughput draws => view.makeSequenceWithMaxThroughput draws startIndex endIndex

end Peerz.Client.Routing
