import Peerz.Library.PySequence
import Peerz.Library.Runs
import Mathlib.Logic.Function.Basic
import Peerz.Server.Inference
import Peerz.Server.InferenceStream

/-! An inference session over a chain of servers that push their outputs to one another. The
client sends each step to one server after the other and waits for each response; the pushed
requests arrive at any time, in any order, or never. No request fails. -/
namespace Peerz.Client
open Library Server

structure ClientStep (StepId Token : Type) where
  stepId : StepId
  inputs : List Token
  prompts : List (List Token)
  hypoIds : List Nat

inductive ClientPhase (StepId Token : Type) where
  | idle
  | sending (step : ClientStep StepId Token) (serverIdx : Nat) (inputs : List Token)
  | awaiting (step : ClientStep StepId Token) (serverIdx : Nat)
  | closed

/-- The server sessions of an `InferenceSession`, with the codec of its hidden states and what the
servers compute from the requests they have yielded. -/
structure Pipeline (PeerID SessionId StepId Token Wire : Type) where
  chain : List (NextServer PeerID SessionId)
  uniqueSessionIds : (chain.map NextServer.sessionId).Nodup
  serialize : List Token → Wire
  deserialize : Wire → List Token
  compute : SessionId → List (InferenceTensors Token) → Wire
  useServerToServer : Bool

structure PipelineState (PeerID SessionId StepId Token Wire : Type) where
  /-- in the order of issue -/
  steps : List (ClientStep StepId Token) := []
  phase : ClientPhase StepId Token := .idle
  stepped : SessionId → Bool := fun _ => false
  streams : SessionId → InferenceStream PeerID SessionId StepId Token Wire := fun _ => {}
  /-- the pushed requests on their way -/
  inFlight : List (NextServer PeerID SessionId ×
    StepRequest PeerID SessionId StepId Token Wire) := []
  /-- all requests that were pushed -/
  pushed : List (NextServer PeerID SessionId ×
    StepRequest PeerID SessionId StepId Token Wire) := []

inductive PipelineEvent (SessionId StepId Token : Type) where
  | beginStep (step : ClientStep StepId Token)
  | send
  | receive
  | close
  | takeRequest (sessionId : SessionId)
  | takePush (sessionId : SessionId)
  | arrive (index : Nat)
  | drop (index : Nat)

variable {PeerID SessionId StepId Token Wire : Type}

namespace Pipeline

/-- The tensors of a request as the server deserializes them. -/
def received (pipeline : Pipeline PeerID SessionId StepId Token Wire)
    (tensors : RequestTensors Token Wire) : InferenceTensors Token where
  hiddenStates := pipeline.deserialize tensors.hiddenStates
  prompts := tensors.prompts
  hypoIds := tensors.hypoIds

def serve (pipeline : Pipeline PeerID SessionId StepId Token Wire) (sessionId : SessionId)
    (requests : List (RequestTensors Token Wire)) : Wire :=
  pipeline.compute sessionId (requests.map pipeline.received)

end Pipeline

namespace PipelineState

def stepIds (state : PipelineState PeerID SessionId StepId Token Wire) : List StepId :=
  state.steps.map ClientStep.stepId

end PipelineState

namespace Pipeline

variable [DecidableEq SessionId] [DecidableEq StepId]
  (pipeline : Pipeline PeerID SessionId StepId Token Wire)
  (state : PipelineState PeerID SessionId StepId Token Wire)

omit [DecidableEq SessionId] [DecidableEq StepId] in
/-- The later sessions, up to the first that has not stepped. -/
def collectNextServers (serverIdx : Nat) : List (NextServer PeerID SessionId) :=
  (pipeline.chain.drop (serverIdx + 1)).takeWhile fun session => state.stepped session.sessionId

omit [DecidableEq SessionId] [DecidableEq StepId] in
def sessionPrompts (step : ClientStep StepId Token) (session : NextServer PeerID SessionId) :
    List (List Token) :=
  if step.prompts.all List.isEmpty then [] else pySlice step.prompts session.start session.stop

omit [DecidableEq SessionId] [DecidableEq StepId] in
def request (step : ClientStep StepId Token) (serverIdx : Nat)
    (session : NextServer PeerID SessionId) (inputs : List Token) :
    StepRequest PeerID SessionId StepId Token Wire where
  tensors :=
    { hiddenStates := pipeline.serialize inputs
      prompts := sessionPrompts step session
      hypoIds := step.hypoIds }
  metadata :=
    { sessionId := session.sessionId
      stepId := some step.stepId
      nextServers :=
        if state.stepped session.sessionId && pipeline.useServerToServer then
          pipeline.collectNextServers state serverIdx
        else []
      pushed := false }

omit [DecidableEq StepId] in
def turned (sessionId : SessionId)
    (turn : InferenceStream PeerID SessionId StepId Token Wire ×
      List (NextServer PeerID SessionId × StepRequest PeerID SessionId StepId Token Wire)) :
    PipelineState PeerID SessionId StepId Token Wire :=
  { state with
    streams := Function.update state.streams sessionId turn.1
    inFlight := state.inFlight ++ turn.2
    pushed := state.pushed ++ turn.2 }

def step : PipelineEvent SessionId StepId Token →
    Option (PipelineState PeerID SessionId StepId Token Wire)
  | .beginStep step =>
      match state.phase with
      | .idle =>
          -- `step_id` is a new uuid
          if step.stepId ∈ state.stepIds then none
          else some { state with
            steps := state.steps ++ [step]
            phase := .sending step 0 step.inputs }
      | _ => none
  | .send =>
      match state.phase with
      | .sending step serverIdx inputs =>
          (pipeline.chain[serverIdx]?).map fun session =>
            let request := pipeline.request state step serverIdx session inputs
            let stream := state.streams session.sessionId
            { state with
              phase := .awaiting step serverIdx
              stepped := Function.update state.stepped session.sessionId true
              streams := Function.update state.streams session.sessionId
                { stream with
                  requests := stream.requests ++ [request]
                  sent := stream.sent ++ [request] } }
      | _ => none
  | .receive =>
      match state.phase with
      | .awaiting step serverIdx =>
          (pipeline.chain[serverIdx]?).bind fun session =>
            let stream := state.streams session.sessionId
            match stream.responses with
            | [] => none
            | response :: rest => some
                { state with
                  phase :=
                    if serverIdx + 1 < pipeline.chain.length then
                      .sending step (serverIdx + 1) (pipeline.deserialize response)
                    else .idle
                  streams := Function.update state.streams session.sessionId
                    { stream with responses := rest, read := stream.read ++ [response] } }
      | _ => none
  | .close =>
      match state.phase with
      | .idle => some
          { state with
            phase := .closed
            streams := fun sessionId =>
              { state.streams sessionId with doneSending := state.stepped sessionId } }
      | _ => none
  | .takeRequest sessionId =>
      ((state.streams sessionId).takeRequest (pipeline.serve sessionId)).map
        (turned state sessionId)
  | .takePush sessionId =>
      ((state.streams sessionId).takePush (pipeline.serve sessionId)).map (turned state sessionId)
  | .arrive index =>
      (state.inFlight[index]?).map fun push =>
        { state with
          inFlight := state.inFlight.eraseIdx index
          streams := Function.update state.streams push.1.sessionId
            ((state.streams push.1.sessionId).rpcPush push.2) }
  | .drop index =>
      (state.inFlight[index]?).map fun _ =>
        { state with inFlight := state.inFlight.eraseIdx index }

end Pipeline
end Peerz.Client
