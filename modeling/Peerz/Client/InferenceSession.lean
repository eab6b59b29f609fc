import Peerz.Client.Config
import Peerz.Client.Routing.Coverage
import Peerz.Library.PySequence
import Peerz.Server.Inference
import Peerz.Server.InferenceStream

/-! The client's inference session over a chain of servers: its steps, with retries, the
replacement of a failed server session, and the outputs that the servers push to each other. What
the network and the swarm do is the input of each attempt. -/
namespace Peerz.Client
open Library Server

structure BlockModel (Token Cache : Type) where
  numBlocks : Nat
  block : Nat → Block Token Cache

/-- What becomes of a request: its response is read, or the client gives up on it. -/
inductive RequestOutcome where
  | served
  /-- `handled`: the server takes the request all the same, and its response stays unread;
  `streamLives`: the stream can carry later requests, unless it has lost this one -/
  | failed (handled streamLives : Bool)
deriving DecidableEq

structure Attempt (PeerID : Type) where
  /-- the pushes that servers take before it, by their places among those on their way -/
  taken : List Nat := []
  /-- closing the failed session raises nothing -/
  closeOk : Bool := true
  /-- the route from a block to another one, `none` where `make_sequence` raises -/
  makeSequence : Int → Int → Option (List (RemoteSpanInfo PeerID))
  /-- all the sessions of the route open -/
  sessionsOpen : Bool := true
  request : RequestOutcome := .served

/-- Hidden states travel as they are. -/
abbrev SessionRequest (PeerID Token : Type) := StepRequest PeerID Nat Nat Token (List Token)

abbrev Push (PeerID Token : Type) := NextServer PeerID Nat × SessionRequest PeerID Token

def unpack {Token : Type} (tensors : RequestTensors Token (List Token)) : InferenceTensors Token :=
  ⟨tensors.hiddenStates, tensors.prompts, tensors.hypoIds⟩

variable {PeerID Token Cache : Type} [Add Token]

structure ServerInferenceSession (PeerID Token Cache : Type) where
  span : RemoteSpanInfo PeerID
  sessionId : Nat
  nextSession : Option Nat
  stepped : Bool
  closed : Bool
  position : Nat
  history : Option (List Token)
  /-- the server's end of the stream -/
  server : ServerSession Token Cache
  /-- the tensors of the request that opened the stream -/
  opening : Option (RequestTensors Token (List Token))
  processedStepIds : List Nat
  /-- the server handles requests; it stops where one raises -/
  serving : Bool
  /-- responses in the stream that the client has not read -/
  unread : List (List Token)
  /-- the stream still carries requests and responses -/
  alive : Bool

structure Stepped (PeerID Token Cache : Type) where
  session : ServerInferenceSession PeerID Token Cache
  pushes : List (Push PeerID Token) := []
  outputs : Option (List Token) := none

namespace ServerInferenceSession

def new (model : BlockModel Token Cache) (maxLength sessionId : Nat)
    (span : RemoteSpanInfo PeerID) : ServerInferenceSession PeerID Token Cache where
  span := span
  sessionId := sessionId
  nextSession := none
  stepped := false
  closed := false
  position := 0
  history := none
  server := .new ((pySlice (List.range model.numBlocks) span.start span.stop).map model.block)
    maxLength
  opening := none
  processedStepIds := []
  serving := true
  unread := []
  alive := true

/-- The inputs so far, with those of the step. A history that is longer than the position, as a
replacement session or a failed step leaves it, stays as it is. -/
def extendHistory (session : ServerInferenceSession PeerID Token Cache) (inputs : List Token) :
    List Token :=
  match session.history with
  | none => inputs
  | some history => if history.length = session.position then history ++ inputs else history

/-- The server takes a request, unless it has processed the step before. It answers into the
stream and pushes its outputs, if there are no deep prompts. -/
def handle (session : ServerInferenceSession PeerID Token Cache)
    (request : SessionRequest PeerID Token) : Stepped PeerID Token Cache :=
  let opening := session.opening.getD request.tensors
  let opened := { session with opening := some opening }
  if request.metadata.stepId.any (· ∈ session.processedStepIds) then { session := opened }
  else
    match session.server.process (unpack request.tensors) with
    | none => { session := { opened with serving := false } }
    | some (outputs, server) =>
        { session := { opened with
            server := server
            processedStepIds := session.processedStepIds ++ request.metadata.stepId.toList
            unread := session.unread ++ [outputs] }
          pushes :=
            if request.tensors.prompts.all List.isEmpty then
              (pushOutputs opening outputs request.metadata).toList
            else [] }

/-- A server that has no open session of the id ignores the push. -/
def takePush (session : ServerInferenceSession PeerID Token Cache) (push : Push PeerID Token) :
    Stepped PeerID Token Cache :=
  if session.sessionId = push.1.sessionId ∧ session.opening.isSome ∧ session.serving then
    session.handle push.2
  else { session }

/-- `_step` and the check of the response: the first unread response is taken for the answer. -/
def exchange (session : ServerInferenceSession PeerID Token Cache)
    (request : SessionRequest PeerID Token) (outcome : RequestOutcome) :
    Stepped PeerID Token Cache :=
  if session.alive then
    match outcome with
    | .served =>
        let answered := if session.serving then session.handle request else { session }
        match answered.session.unread with
        | [] => answered
        | response :: unread =>
            { answered with
              session := { answered.session with unread }
              outputs :=
                if response.length = request.tensors.hiddenStates.length then some response
                else none }
    | .failed handled streamLives =>
        let answered := if handled && session.serving then session.handle request else { session }
        { answered with session := { answered.session with alive := handled && streamLives } }
  else { session }

/-- The request of a step; `nextServers` is what `_collect_next_servers` returns. -/
def stepRequest (session : ServerInferenceSession PeerID Token Cache) (config : ClientConfig)
    (inputs : List Token) (prompts : List (List Token)) (hypoIds : List Nat) (stepId : Nat)
    (nextServers : List (NextServer PeerID Nat)) : SessionRequest PeerID Token where
  -- a first request passes the full inputs, including the prefix
  tensors := ⟨if session.stepped then inputs else session.extendHistory inputs, prompts, hypoIds⟩
  metadata :=
    { sessionId := session.sessionId
      stepId := some stepId
      nextServers := if session.stepped && config.useServerToServer then nextServers else []
      pushed := false }

def step (session : ServerInferenceSession PeerID Token Cache) (config : ClientConfig)
    (inputs : List Token) (prompts : List (List Token)) (hypoIds : List Nat) (stepId : Nat)
    (nextServers : List (NextServer PeerID Nat)) (outcome : RequestOutcome) :
    Stepped PeerID Token Cache :=
  if session.closed then { session }
  else
    let history := session.extendHistory inputs
    let extended := { session with history := some history }
    if history.length = session.position + inputs.length then
      let answered := { extended with stepped := true }.exchange
        (session.stepRequest config inputs prompts hypoIds stepId nextServers) outcome
      if answered.outputs.isSome then
        { answered with
          session := { answered.session with position := session.position + inputs.length } }
      else answered
    else { session := extended }

/-- Closing a session that has stepped ends it on the server and may raise. -/
def close (session : ServerInferenceSession PeerID Token Cache) (closeOk : Bool) :
    ServerInferenceSession PeerID Token Cache :=
  if session.stepped && !closeOk then session
  else { session with closed := true, serving := false, alive := false }

end ServerInferenceSession

structure StepCall (Token : Type) where
  inputs : List Token
  batchSize : Nat
  prompts : List (List Token)
  hypoIds : List Nat
deriving DecidableEq

/-- `prompts.shape[2]`. -/
def StepCall.prefixLength (call : StepCall Token) : Nat :=
  (call.prompts.head?.map List.length).getD 0

/-- The call as the loop gets it: prompts that are all dummies are left out. -/
def withoutDummies (call : StepCall Token) : StepCall Token :=
  { call with prompts := if call.prompts.all List.isEmpty then [] else call.prompts }

structure InferenceSession (PeerID Token Cache : Type) where
  serverSessions : List (ServerInferenceSession PeerID Token Cache)
  position : Nat
  maxLength : Nat
  /-- the next fresh session id -/
  nextSessionId : Nat
  /-- the next fresh step id -/
  nextStepId : Nat
  /-- the pushes on their way between servers -/
  pushes : List (Push PeerID Token)

namespace InferenceSession

def new (maxLength : Nat) : InferenceSession PeerID Token Cache where
  serverSessions := []
  position := 0
  maxLength := maxLength
  nextSessionId := 0
  nextStepId := 0
  pushes := []

/-- The push is taken where it arrives. What its server pushes in turn goes on its way. -/
def takePush (session : InferenceSession PeerID Token Cache) (i : Nat) :
    InferenceSession PeerID Token Cache :=
  match session.pushes[i]? with
  | none => session
  | some push =>
      { session with
        serverSessions := session.serverSessions.map fun serverSession =>
          (serverSession.takePush push).session
        pushes := session.pushes.eraseIdx i ++ session.serverSessions.flatMap fun serverSession =>
          (serverSession.takePush push).pushes }

def takePushes (session : InferenceSession PeerID Token Cache) (taken : List Nat) :
    InferenceSession PeerID Token Cache :=
  taken.foldl takePush session

/-- `_collect_next_servers`, from the id of the next session on. The links lead on through the
list of sessions, so that they take no more steps than there are sessions. -/
def collectNextServers (sessions : List (ServerInferenceSession PeerID Token Cache)) :
    Nat → Option Nat → List (NextServer PeerID Nat)
  | steps + 1, some sessionId =>
      match sessions.find? fun session => session.sessionId == sessionId with
      | some session =>
          if session.stepped then
            ⟨session.span.peerId, session.sessionId, session.span.start.toNat,
              session.span.stop.toNat⟩ :: collectNextServers sessions steps session.nextSession
          else []
      | none => []
  | _, _ => []

/-- `_enter_server_sessions`, where every session opens. -/
def enterServerSessions (session : InferenceSession PeerID Token Cache)
    (model : BlockModel Token Cache) (spans : List (RemoteSpanInfo PeerID)) :
    List (ServerInferenceSession PeerID Token Cache) :=
  spans.zipIdx.map fun span =>
    .new model session.maxLength (session.nextSessionId + span.2) span.1

/-- The links of the sessions from `low` to `high`, to the session after each. -/
def linkSessions (sessions : List (ServerInferenceSession PeerID Token Cache)) (low high : Nat) :
    List (ServerInferenceSession PeerID Token Cache) :=
  sessions.mapIdx fun i session =>
    if low ≤ i ∧ i < high then
      { session with
        nextSession := (sessions[i + 1]?).map ServerInferenceSession.sessionId }
    else session

/-- The failed session is closed even where no replacement is found; `true` where one is. -/
def updateSequence (session : InferenceSession PeerID Token Cache)
    (model : BlockModel Token Cache) (serverIdx : Nat) (blockIdx : Int) (attempt : Attempt PeerID) :
    InferenceSession PeerID Token Cache × Bool :=
  let session := { session with
    serverSessions := session.serverSessions.modify serverIdx fun failed =>
      failed.close attempt.closeOk }
  let failed := session.serverSessions[serverIdx]?
  let updateEnd : Int := (failed.map fun failed => failed.span.stop).getD model.numBlocks
  match attempt.makeSequence blockIdx updateEnd with
  | none | some [] => (session, false)
  | some spans =>
      if attempt.sessionsOpen then
        let updated := session.enterServerSessions model (truncateLast spans updateEnd)
        let updated := match failed with
          | none => updated
          | some failed => updated.modifyHead fun first => { first with history := failed.history }
        let sessions := session.serverSessions.take serverIdx ++ updated ++
          session.serverSessions.drop (serverIdx + 1)
        ({ session with
            serverSessions := linkSessions sessions (serverIdx - 1)
              (min (serverIdx + updated.length) (sessions.length - 1))
            nextSessionId := session.nextSessionId + updated.length }, true)
      else (session, false)

structure Loop (PeerID Token Cache : Type) where
  session : InferenceSession PeerID Token Cache
  serverIdx : Nat
  blockIdx : Int
  attemptNo : Nat
  inputs : List Token
  stepId : Nat

inductive StepResult (PeerID Token Cache : Type) where
  | returned (outputs : List Token) (session : InferenceSession PeerID Token Cache)
  | raised (session : InferenceSession PeerID Token Cache)
  /-- it needs more attempts -/
  | pending

namespace Loop

def start (session : InferenceSession PeerID Token Cache) (call : StepCall Token) :
    Loop PeerID Token Cache where
  session := { session with nextStepId := session.nextStepId + 1 }
  serverIdx := 0
  blockIdx := 0
  attemptNo := 0
  inputs := call.inputs
  stepId := session.nextStepId

/-- One attempt: the loop after it, and `false` where it was the last one allowed. -/
def attempt (loop : Loop PeerID Token Cache) (config : ClientConfig)
    (model : BlockModel Token Cache) (call : StepCall Token) (attempt : Attempt PeerID) :
    Loop PeerID Token Cache × Bool :=
  let session := loop.session.takePushes attempt.taken
  let (session, ready) :=
    if session.serverSessions = [] ∨ 1 ≤ loop.attemptNo then
      session.updateSequence model loop.serverIdx loop.blockIdx attempt
    else (session, true)
  let failed (session : InferenceSession PeerID Token Cache) : Loop PeerID Token Cache × Bool :=
    ({ loop with session := session, attemptNo := loop.attemptNo + 1 },
      decide (config.maxRetries ≠ some (loop.attemptNo + 1)))
  if ready then
    match session.serverSessions[loop.serverIdx]? with
    | none => failed session
    | some serverSession =>
        let stepped := serverSession.step config loop.inputs
          (pySlice call.prompts serverSession.span.start serverSession.span.stop) call.hypoIds
          loop.stepId (collectNextServers session.serverSessions session.serverSessions.length
            serverSession.nextSession) attempt.request
        let session := { session with
          serverSessions := session.serverSessions.set loop.serverIdx stepped.session
          pushes := session.pushes ++ stepped.pushes }
        match stepped.outputs with
        | none => failed session
        | some outputs =>
            ({ session := session, serverIdx := loop.serverIdx + 1,
               blockIdx := serverSession.span.stop, attemptNo := 0, inputs := outputs,
               stepId := loop.stepId }, true)
  else failed session

/-- `inputs[:, -n_input_tokens:]`. -/
def lastTokens (nInputTokens : Nat) (inputs : List Token) : List Token :=
  if nInputTokens = 0 then inputs else inputs.drop (inputs.length - nInputTokens)

def run (config : ClientConfig) (model : BlockModel Token Cache) (call : StepCall Token) :
    List (Attempt PeerID) → Loop PeerID Token Cache → StepResult PeerID Token Cache
  | attempts, loop =>
      if model.numBlocks ≤ loop.blockIdx then
        .returned (lastTokens call.inputs.length loop.inputs)
          { loop.session with position := loop.session.position + call.inputs.length }
      else
        match attempts with
        | [] => .pending
        | first :: rest =>
            let (next, continues) := loop.attempt config model call first
            if continues then run config model call rest next else .raised next.session

end Loop

/-- The checks of the arguments that a step starts with. The prompts of the blocks are of one
length, being a tensor. -/
def Accepts (session : InferenceSession PeerID Token Cache) (model : BlockModel Token Cache)
    (call : StepCall Token) : Prop :=
  (∀ prompt ∈ call.prompts, prompt.length = call.prefixLength) ∧
    (call.prompts.all List.isEmpty = true ∨
      call.prompts.length = model.numBlocks ∧ call.prefixLength ≤ call.inputs.length) ∧
    (call.hypoIds = [] ∨ call.hypoIds.length = call.batchSize) ∧
    session.position + call.inputs.length ≤ session.maxLength

instance (session : InferenceSession PeerID Token Cache) (model : BlockModel Token Cache)
    (call : StepCall Token) : Decidable (session.Accepts model call) :=
  inferInstanceAs (Decidable (_ ∧ _))

def step (session : InferenceSession PeerID Token Cache) (config : ClientConfig)
    (model : BlockModel Token Cache) (call : StepCall Token) (attempts : List (Attempt PeerID)) :
    StepResult PeerID Token Cache :=
  if session.Accepts model call then
    Loop.run config model (withoutDummies call) attempts (Loop.start session call)
  else .raised session

end InferenceSession
end Peerz.Client
