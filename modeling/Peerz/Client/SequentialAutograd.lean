import Peerz.Client.Config
import Peerz.Client.Routing.Coverage
import Peerz.Library.PySequence
import Peerz.Server.BlockFunctions

/-! Forward and backward passes through a chain of servers, which reroute what fails. What the
network and the swarm do is the input of each attempt. -/
namespace Peerz.Client
open Library Server

structure RemoteModel (Token : Type) where
  numBlocks : Nat
  backend : Nat → TransformerBackend Token

structure ForwardAttempt (PeerID : Type) where
  /-- the route from a block to another one, `none` where `make_sequence` raises -/
  makeSequence : Int → Int → Option (List (RemoteSpanInfo PeerID))
  answered : Bool

structure BackwardAttempt (PeerID : Type) where
  /-- the attempts of the forward pass that recovers the span -/
  recovery : List (ForwardAttempt PeerID)
  answered : Bool

inductive PassOutcome (Result : Type) where
  | returned (result : Result)
  | raised
  /-- it needs more attempts -/
  | pending

variable {PeerID Token : Type} [Add Token]

namespace RemoteModel

def backends (model : RemoteModel Token) (span : RemoteSpanInfo PeerID) :
    List (TransformerBackend Token) :=
  (pySlice (List.range model.numBlocks) span.start span.stop).map model.backend

end RemoteModel

structure ForwardLoop (PeerID Token : Type) where
  sequences : List (RemoteSpanInfo PeerID)
  intermediateInputs : List (List Token)
  doneSequences : List (RemoteSpanInfo PeerID)
  blockIdx : Int
  attemptNo : Nat
  inputs : List Token

namespace ForwardLoop

def request (model : RemoteModel Token) (prompts : List (List Token))
    (span : RemoteSpanInfo PeerID) (inputs : List Token) (answered : Bool) : Option (List Token) :=
  if answered then
    (runRpcForward (model.backends span) (pySlice prompts span.start span.stop) inputs).filter
      fun outputs => outputs.length = inputs.length
  else none

def fail (loop : ForwardLoop PeerID Token) (sequences : List (RemoteSpanInfo PeerID)) :
    ForwardLoop PeerID Token :=
  { loop with sequences := sequences, attemptNo := loop.attemptNo + 1 }

def attempt (loop : ForwardLoop PeerID Token) (model : RemoteModel Token)
    (prompts : List (List Token)) (endIndex : Int) (attempt : ForwardAttempt PeerID) :
    ForwardLoop PeerID Token × Bool :=
  let sequences :=
    if loop.sequences = [] ∨ 1 ≤ loop.attemptNo then
      (attempt.makeSequence loop.blockIdx endIndex).map (truncateLast · endIndex)
    else some loop.sequences
  match sequences with
  | none => (loop.fail loop.sequences, false)
  | some [] => (loop.fail [], false)
  | some (span :: rest) =>
      match request model prompts span loop.inputs attempt.answered with
      | none => (loop.fail rest, false)
      | some outputs =>
          ({ sequences := rest
             intermediateInputs := loop.intermediateInputs ++ [loop.inputs]
             doneSequences := loop.doneSequences ++ [span]
             blockIdx := span.stop, attemptNo := 0, inputs := outputs }, true)

def run (config : ClientConfig) (model : RemoteModel Token) (prompts : List (List Token))
    (endIndex : Int) : List (ForwardAttempt PeerID) → ForwardLoop PeerID Token →
      PassOutcome (List Token × List (List Token) × List (RemoteSpanInfo PeerID))
  | attempts, loop =>
      if endIndex ≤ loop.blockIdx then
        .returned (loop.inputs, loop.intermediateInputs, loop.doneSequences)
      else
        match attempts with
        | [] => .pending
        | first :: rest =>
            let (next, taken) := loop.attempt model prompts endIndex first
            if taken ∨ config.maxRetries ≠ some next.attemptNo then
              run config model prompts endIndex rest next
            else .raised

end ForwardLoop

def sequentialForward (config : ClientConfig) (model : RemoteModel Token) (inputs : List Token)
    (prompts : List (List Token)) (startIndex : Int) (endIndex : Option Int)
    (attempts : List (ForwardAttempt PeerID)) :
    PassOutcome (List Token × List (List Token) × List (RemoteSpanInfo PeerID)) :=
  let endIndex := endIndex.getD model.numBlocks
  if 0 ≤ startIndex ∧ endIndex ≤ model.numBlocks ∧
      (prompts.all List.isEmpty = true ∨ prompts.length = model.numBlocks) then
    ForwardLoop.run config model prompts endIndex attempts ⟨[], [], [], startIndex, 0, inputs⟩
  else .raised

structure BackwardState (PeerID Token : Type) where
  gradOutputs : List Token
  intermediateInputs : List (List Token)
  forwardSequences : List (RemoteSpanInfo PeerID)
  /-- for each span that is done, the gradients of its prompts -/
  gradPromptsReversed : List (List (List Token))

structure BackwardLoop (PeerID Token : Type) where
  state : BackwardState PeerID Token
  inputs : List Token
  span : RemoteSpanInfo PeerID
  attemptNo : Nat

namespace BackwardState

def pop (state : BackwardState PeerID Token) : Option (BackwardLoop PeerID Token) :=
  match state.intermediateInputs.getLast?, state.forwardSequences.getLast? with
  | some inputs, some span =>
      some
        { state := { state with
            intermediateInputs := state.intermediateInputs.dropLast
            forwardSequences := state.forwardSequences.dropLast }
          inputs := inputs, span := span, attemptNo := 0 }
  | _, _ => none

def result (state : BackwardState PeerID Token) : List Token × List (List Token) :=
  (state.gradOutputs, state.gradPromptsReversed.reverse.flatten)

end BackwardState

namespace BackwardLoop

/-- The span is split over the route of another forward pass, of which the last part is next. -/
def recover (loop : BackwardLoop PeerID Token) (config : ClientConfig) (model : RemoteModel Token)
    (prompts : List (List Token)) (attempts : List (ForwardAttempt PeerID)) :
    PassOutcome (BackwardLoop PeerID Token) :=
  match sequentialForward config model loop.inputs prompts loop.span.start (some loop.span.stop)
    attempts with
  | .pending => .pending
  | .raised => .raised
  | .returned (_, backupInputs, backupSequences) =>
      if backupInputs.length = backupSequences.length ∧
          backupSequences.head?.map RemoteSpanInfo.start = some loop.span.start ∧
          backupSequences.getLast?.map RemoteSpanInfo.stop = some loop.span.stop then
        let extended : BackwardState PeerID Token :=
          { loop.state with
            intermediateInputs := loop.state.intermediateInputs ++ backupInputs
            forwardSequences := loop.state.forwardSequences ++ backupSequences }
        match extended.pop with
        | none => .raised
        | some next => .returned { next with attemptNo := loop.attemptNo }
      else .raised

def request (loop : BackwardLoop PeerID Token) (model : RemoteModel Token)
    (prompts : List (List Token)) (answered : Bool) : Option (BackwardState PeerID Token) :=
  if answered then
    (runRpcBackward (model.backends loop.span) loop.inputs loop.state.gradOutputs
      (pySlice prompts loop.span.start loop.span.stop)).map fun grads =>
        { loop.state with
          gradOutputs := grads.1
          gradPromptsReversed := loop.state.gradPromptsReversed ++
            (if grads.2 = [] then [] else [grads.2]) }
  else none

def run (config : ClientConfig) (model : RemoteModel Token) (prompts : List (List Token)) :
    List (BackwardAttempt PeerID) → BackwardLoop PeerID Token →
      PassOutcome (List Token × List (List Token))
  | [], _ => .pending
  | attempt :: attempts, loop =>
      let fail (loop : BackwardLoop PeerID Token) :=
        if config.maxRetries = some (loop.attemptNo + 1) then .raised
        else run config model prompts attempts { loop with attemptNo := loop.attemptNo + 1 }
      let recovered :=
        if 1 ≤ loop.attemptNo then loop.recover config model prompts attempt.recovery
        else .returned loop
      match recovered with
      | .pending => .pending
      | .raised => fail loop
      | .returned loop =>
          match loop.request model prompts attempt.answered with
          | none => fail loop
          | some state =>
              match state.pop with
              | none => .returned state.result
              | some next => run config model prompts attempts next

end BackwardLoop

def sequentialBackward (config : ClientConfig) (model : RemoteModel Token)
    (gradOutputs : List Token) (intermediateInputs : List (List Token))
    (prompts : List (List Token)) (forwardSequences : List (RemoteSpanInfo PeerID))
    (attempts : List (BackwardAttempt PeerID)) : PassOutcome (List Token × List (List Token)) :=
  if intermediateInputs.length = forwardSequences.length then
    let state : BackwardState PeerID Token :=
      ⟨gradOutputs, intermediateInputs, forwardSequences, []⟩
    match state.pop with
    | none => .returned state.result
    | some loop => BackwardLoop.run config model prompts attempts loop
  else .raised

end Peerz.Client
