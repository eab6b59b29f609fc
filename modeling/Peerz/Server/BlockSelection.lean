import Mathlib.Algebra.Order.Ring.Rat
import Mathlib.Data.List.Lex
import Mathlib.Data.List.MinMax
import Mathlib.Data.Prod.Lex
import Peerz.Library.PySequence
import Peerz.Utils.Dht

/-! Where a server places its blocks, and whether it should move: a simulation of moving
every server to its best place, until none of them moves. Throughputs are exact. -/
namespace Peerz.Server
open Library Utils.Dht

inductive SelectionError where
  | valueError
  | assertionError
  | keyError
  /-- the simulation has not settled within the given number of passes -/
  | unsettled
deriving DecidableEq

variable {PeerID : Type}

def eps : ℚ := 1 / 1000

/-- `throughputs[span.start : span.end] += amount`. -/
def addOver (throughputs : List ℚ) (span : RemoteSpanInfo PeerID) (amount : ℚ) : List ℚ :=
  pyMapSlice throughputs span.start span.stop (· + amount)

/-- `sorted(throughputs[i : i + num_blocks]), i`. -/
def startOption (throughputs : List ℚ) (numBlocks start : Int) : List ℚ ×ₗ Int :=
  toLex ((pySlice throughputs start (start + numBlocks)).insertionSort (· ≤ ·), start)

def chooseBestStart (throughputs : List ℚ) (numBlocks : Int) : Except SelectionError Int :=
  match ((Int.range 0 (throughputs.length - numBlocks + 1)).map
      (startOption throughputs numBlocks)).min? with
  | some best => .ok (ofLex best).2
  | none => .error .valueError

def moveSpan (span : RemoteSpanInfo PeerID) (newStart : Int) : RemoteSpanInfo PeerID :=
  { span with start := newStart, stop := newStart + span.length }

def minThroughput (throughputs : List ℚ) : Except SelectionError ℚ :=
  match throughputs.min? with
  | some lowest => .ok lowest
  | none => .error .valueError

variable [LinearOrder PeerID]

def computeThroughputs (spans : Dict PeerID (RemoteSpanInfo PeerID)) (totalBlocks : Nat) : List ℚ :=
  (spans.values.insertionSort fun left right => left.peerId ≤ right.peerId).foldl
    (fun throughputs span => addOver throughputs span span.throughput)
    (List.replicate totalBlocks 0)

def chooseBestBlocks (numBlocks : Int) (moduleInfos : List (RemoteModuleInfo PeerID)) :
    Except SelectionError (List Int) := do
  let spans := computeSpans moduleInfos .joining
  let throughputs := computeThroughputs spans moduleInfos.length
  let start ← chooseBestStart throughputs numBlocks
  return Int.range start (start + numBlocks)

/-- The spans and the throughputs of their blocks, kept in step. -/
structure Simulation (PeerID : Type) where
  spans : Dict PeerID (RemoteSpanInfo PeerID)
  throughputs : List ℚ

namespace Simulation

/-- The body of the inner loop, and whether the span has moved. -/
def visit (sim : Simulation PeerID) (peerId : PeerID) :
    Except SelectionError (Simulation PeerID × Bool) :=
  match sim.spans.get? peerId with
  | none => .error .keyError
  | some span => do
      let removed := addOver sim.throughputs span (-(span.throughput * (1 + eps)))
      let newStart ← chooseBestStart removed span.length
      let returned := addOver removed span (span.throughput * eps)
      let placed := if span.start ≠ newStart then moveSpan span newStart else span
      return (⟨sim.spans.insert peerId placed, addOver returned placed placed.throughput⟩,
        decide (span.start ≠ newStart))

def runPass (sim : Simulation PeerID) (servers : List PeerID) :
    Except SelectionError (Simulation PeerID × Bool) :=
  servers.foldlM
    (fun state peerId => do
      let (next, moved) ← state.1.visit peerId
      return (next, state.2 || moved))
    (sim, false)

def whileMoved (orders : Nat → List PeerID) :
    Nat → Nat → Simulation PeerID → Except SelectionError (Simulation PeerID)
  | 0, _, _ => .error .unsettled
  | passes + 1, pass, sim => do
      let (next, moved) ← sim.runPass (orders pass)
      if moved then whileMoved orders passes (pass + 1) next else return next

end Simulation

def initialSimulation (moduleInfos : List (RemoteModuleInfo PeerID)) : Simulation PeerID where
  spans := computeSpans moduleInfos .joining
  throughputs := computeThroughputs (computeSpans moduleInfos .joining) moduleInfos.length

/-- The part of `should_choose_other_blocks` up to the end of the loop; `none` where it
returns `False` before the simulation. -/
def simulateMoves (orders : Nat → List PeerID) (passes : Nat) (localPeerId : PeerID)
    (sim : Simulation PeerID) (initialThroughput : ℚ) :
    Except SelectionError (Option (Simulation PeerID)) :=
  match sim.spans.get? localPeerId with
  | none => .error .assertionError
  | some localSpan => do
      let removed := addOver sim.throughputs localSpan (-(localSpan.throughput * (1 + eps)))
      let lowest ← minThroughput removed
      -- switching blocks would make the swarm disjoint
      if eps < initialThroughput ∧ lowest ≤ 0 then return none
      let newStart ← chooseBestStart removed localSpan.length
      if localSpan.start = newStart then return none
      let returned := addOver removed localSpan (localSpan.throughput * eps)
      let placed := moveSpan localSpan newStart
      let settled ← Simulation.whileMoved orders passes 0
        ⟨sim.spans.insert localPeerId placed, addOver returned placed placed.throughput⟩
      return some settled

def shouldChooseOtherBlocks (orders : Nat → List PeerID) (passes : Nat) (localPeerId : PeerID)
    (moduleInfos : List (RemoteModuleInfo PeerID)) (balanceQuality : ℚ) :
    Except SelectionError Bool :=
  if 1 < balanceQuality then return true
  else do
    let sim := initialSimulation moduleInfos
    let initialThroughput ← minThroughput sim.throughputs
    match ← simulateMoves orders passes localPeerId sim initialThroughput with
    | none => return false
    | some settled =>
        let newThroughput ← minThroughput settled.throughputs
        if newThroughput < initialThroughput ∨ newThroughput < eps then return false
        return decide (initialThroughput / newThroughput < balanceQuality - eps)

end Peerz.Server
