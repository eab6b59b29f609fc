import Mathlib.Data.List.Basic

/-! One inference stream of the connection handler: the steps that it takes, from the client's
requests and from the queue of pushed ones, and the outputs that it pushes to the next server. -/
namespace Peerz.Server

/-- The hidden states are serialized. No prompts, or no hypothesis ids, stand for dummy tensors. -/
structure RequestTensors (Token Wire : Type) where
  hiddenStates : Wire
  prompts : List (List Token)
  hypoIds : List Nat
deriving DecidableEq

structure NextServer (PeerID SessionId : Type) where
  peerId : PeerID
  sessionId : SessionId
  start : Nat
  stop : Nat
deriving DecidableEq

structure StepMetadata (PeerID SessionId StepId : Type) where
  sessionId : SessionId
  stepId : Option StepId
  nextServers : List (NextServer PeerID SessionId)
  pushed : Bool
deriving DecidableEq

structure StepRequest (PeerID SessionId StepId Token Wire : Type) where
  tensors : RequestTensors Token Wire
  metadata : StepMetadata PeerID SessionId StepId
deriving DecidableEq

variable {PeerID SessionId StepId Token Wire : Type}

/-- The request that `_push_outputs` sends, and where to. It has the tensors of the request that
opened the stream, but for the hidden states. -/
def pushOutputs (opening : RequestTensors Token Wire) (outputs : Wire)
    (metadata : StepMetadata PeerID SessionId StepId) :
    Option (NextServer PeerID SessionId × StepRequest PeerID SessionId StepId Token Wire) :=
  match metadata.nextServers with
  | [] => none
  | next :: later =>
      some (next, ⟨{ opening with hiddenStates := outputs },
        { metadata with sessionId := next.sessionId, nextServers := later, pushed := true }⟩)

/-- The call of `rpc_inference` for one session, and what it has done so far. -/
structure InferenceStream (PeerID SessionId StepId Token Wire : Type) where
  /-- requests of the client that the handler has not read -/
  requests : List (StepRequest PeerID SessionId StepId Token Wire) := []
  /-- an empty request follows them -/
  doneSending : Bool := false
  /-- the tensors of the request that opened the session -/
  opening : Option (RequestTensors Token Wire) := none
  ended : Bool := false
  sessionQueue : List (StepRequest PeerID SessionId StepId Token Wire) := []
  processedStepIds : List StepId := []
  /-- responses that the client has not read -/
  responses : List Wire := []
  /-- all that the client has sent -/
  sent : List (StepRequest PeerID SessionId StepId Token Wire) := []
  /-- all that was put into the session queue -/
  queued : List (StepRequest PeerID SessionId StepId Token Wire) := []
  yielded : List (StepRequest PeerID SessionId StepId Token Wire) := []
  discarded : List (StepRequest PeerID SessionId StepId Token Wire) := []
  read : List Wire := []

theorem pushOutputs_eq_some {opening : RequestTensors Token Wire} {outputs : Wire}
    {metadata : StepMetadata PeerID SessionId StepId}
    {push : NextServer PeerID SessionId × StepRequest PeerID SessionId StepId Token Wire}
    (h : pushOutputs opening outputs metadata = some push) :
    metadata.nextServers = push.1 :: push.2.metadata.nextServers ∧
      push.2.metadata.stepId = metadata.stepId ∧
      push.2.tensors = { opening with hiddenStates := outputs } := by
  unfold pushOutputs at h
  split at h
  · cases h
  · rename_i next later hnext
    cases h
    exact ⟨hnext, rfl, rfl⟩

namespace InferenceStream

variable [DecidableEq StepId] (serve : List (RequestTensors Token Wire) → Wire)
  (stream : InferenceStream PeerID SessionId StepId Token Wire)

def answer (requests : List (StepRequest PeerID SessionId StepId Token Wire)) : Wire :=
  serve (requests.map StepRequest.tensors)

def isNew (request : StepRequest PeerID SessionId StepId Token Wire) : Bool :=
  match request.metadata.stepId with
  | none => true
  | some stepId => stepId ∉ stream.processedStepIds

/-- One turn of the loop of `_iterate_inference_steps`. A request that is yielded is computed and
answered, and what it pushes, without deep prompts, goes on its way. -/
def turn (opening : RequestTensors Token Wire)
    (request : StepRequest PeerID SessionId StepId Token Wire) :
    InferenceStream PeerID SessionId StepId Token Wire ×
      List (NextServer PeerID SessionId × StepRequest PeerID SessionId StepId Token Wire) :=
  if stream.isNew request then
    let outputs := answer serve (stream.yielded ++ [request])
    let canPush := request.tensors.prompts.all List.isEmpty
    ({ stream with
        yielded := stream.yielded ++ [request]
        processedStepIds := stream.processedStepIds ++ request.metadata.stepId.toList
        responses := stream.responses ++ [outputs] },
      if canPush then (pushOutputs opening outputs request.metadata).toList else [])
  else ({ stream with discarded := stream.discarded ++ [request] }, [])

theorem turn_frame (opening : RequestTensors Token Wire)
    (request : StepRequest PeerID SessionId StepId Token Wire) :
    let turned := (turn serve stream opening request).1
    turned.requests = stream.requests ∧ turned.sessionQueue = stream.sessionQueue ∧
      turned.doneSending = stream.doneSending ∧ turned.ended = stream.ended ∧
      turned.opening = stream.opening ∧ turned.sent = stream.sent ∧ turned.read = stream.read := by
  unfold turn
  split
  · exact ⟨rfl, rfl, rfl, rfl, rfl, rfl, rfl⟩
  · exact ⟨rfl, rfl, rfl, rfl, rfl, rfl, rfl⟩

theorem mem_turn_pushes {opening : RequestTensors Token Wire}
    {request : StepRequest PeerID SessionId StepId Token Wire}
    {push : NextServer PeerID SessionId × StepRequest PeerID SessionId StepId Token Wire}
    (h : push ∈ (turn serve stream opening request).2) :
    pushOutputs opening (answer serve (stream.yielded ++ [request])) request.metadata =
      some push ∧ (turn serve stream opening request).1.yielded = stream.yielded ++ [request] ∧
      (turn serve stream opening request).1.responses =
        stream.responses ++ [answer serve (stream.yielded ++ [request])] := by
  unfold turn at h ⊢
  split at h
  · rename_i hnew
    rw [if_pos hnew]
    dsimp only at h
    split at h
    · exact ⟨Option.mem_toList.mp h, rfl, rfl⟩
    · exact absurd h List.not_mem_nil
  · exact absurd h List.not_mem_nil

/-- The handler reads the client's next request. The first one opens the session, the empty one
ends it, and the queue goes with the session. -/
def takeRequest :
    Option (InferenceStream PeerID SessionId StepId Token Wire ×
      List (NextServer PeerID SessionId × StepRequest PeerID SessionId StepId Token Wire)) :=
  if stream.ended then none
  else
    match stream.requests with
    | request :: rest =>
        let opening := stream.opening.getD request.tensors
        some (turn serve { stream with requests := rest, opening := some opening } opening request)
    | [] =>
        if stream.doneSending ∧ stream.opening.isSome then
          some ({ stream with
            ended := true
            sessionQueue := []
            discarded := stream.discarded ++ stream.sessionQueue }, [])
        else none

variable {stream} in
theorem takeRequest_cons {request : StepRequest PeerID SessionId StepId Token Wire}
    {rest : List (StepRequest PeerID SessionId StepId Token Wire)} (hopen : stream.ended = false)
    (hrequests : stream.requests = request :: rest) :
    stream.takeRequest serve =
      let opening := stream.opening.getD request.tensors
      some (turn serve { stream with requests := rest, opening := some opening } opening
        request) := by
  unfold takeRequest
  rw [hopen, hrequests]
  rfl

def takePush :
    Option (InferenceStream PeerID SessionId StepId Token Wire ×
      List (NextServer PeerID SessionId × StepRequest PeerID SessionId StepId Token Wire)) :=
  if stream.ended then none
  else
    match stream.opening, stream.sessionQueue with
    | some opening, request :: rest =>
        some (turn serve { stream with sessionQueue := rest } opening request)
    | _, _ => none

omit [DecidableEq StepId] in
/-- `rpc_push`, which ignores a push to a session that is not open. -/
def rpcPush (request : StepRequest PeerID SessionId StepId Token Wire) :
    InferenceStream PeerID SessionId StepId Token Wire :=
  if stream.opening.isSome ∧ ¬ stream.ended then
    { stream with
      sessionQueue := stream.sessionQueue ++ [request]
      queued := stream.queued ++ [request] }
  else stream

structure TakesTurn (stream : InferenceStream PeerID SessionId StepId Token Wire)
    (result : InferenceStream PeerID SessionId StepId Token Wire ×
      List (NextServer PeerID SessionId × StepRequest PeerID SessionId StepId Token Wire)) :
    Prop where
  sent : result.1.sent = stream.sent
  read : result.1.read = stream.read
  responses : stream.responses <+: result.1.responses
  waiting : ∀ request ∈ result.1.requests ++ result.1.sessionQueue,
    request ∈ stream.requests ++ stream.sessionQueue
  opening : ∃ opening, result.1.opening = some opening ∧ (stream.opening = some opening ∨
    stream.opening = none ∧ (stream.requests.head?.map StepRequest.tensors) = some opening)
  pushes : ∀ push ∈ result.2, ∃ request ∈ stream.requests ++ stream.sessionQueue,
    ∃ opening outputs, result.1.opening = some opening ∧
      pushOutputs opening outputs request.metadata = some push ∧
      result.1.yielded = stream.yielded ++ [request] ∧
      result.1.responses = stream.responses ++ [outputs]

theorem turn_responses (opening : RequestTensors Token Wire)
    (request : StepRequest PeerID SessionId StepId Token Wire) :
    stream.responses <+: (turn serve stream opening request).1.responses := by
  unfold turn
  split
  · exact List.prefix_append _ _
  · exact List.prefix_refl _

variable {stream} {serve} in
theorem takeRequest_takesTurn
    {result : InferenceStream PeerID SessionId StepId Token Wire ×
      List (NextServer PeerID SessionId × StepRequest PeerID SessionId StepId Token Wire)}
    (h : stream.takeRequest serve = some result) : TakesTurn stream result := by
  unfold takeRequest at h
  split at h
  · cases h
  · split at h
    · rename_i request rest hrequests
      cases h
      set opening := stream.opening.getD request.tensors with hopening
      let popped : InferenceStream PeerID SessionId StepId Token Wire :=
        { stream with requests := rest, opening := some opening }
      obtain ⟨hrest, hqueue, -, -, hopened, hsent, hread⟩ := turn_frame serve popped opening request
      refine ⟨hsent, hread, turn_responses serve popped opening request, ?_, ?_, ?_⟩
      · intro waiting hwaiting
        rw [hrest, hqueue] at hwaiting
        rw [hrequests]
        exact List.mem_cons_of_mem _ hwaiting
      · refine ⟨opening, hopened, ?_⟩
        cases hbefore : stream.opening with
        | none =>
            right
            rw [hopening, hbefore, hrequests]
            exact ⟨rfl, rfl⟩
        | some tensors =>
            left
            rw [hopening, hbefore]
            rfl
      · intro push hpush
        obtain ⟨hpush, hyielded, hresponses⟩ := mem_turn_pushes serve popped hpush
        refine ⟨request, ?_, opening, _, hopened, hpush, hyielded, hresponses⟩
        rw [hrequests]
        exact List.mem_cons_self
    · split at h
      · rename_i hdone
        cases h
        obtain ⟨opening, hopening⟩ := Option.isSome_iff_exists.mp hdone.2
        refine ⟨rfl, rfl, List.prefix_refl _, ?_, ⟨opening, hopening, .inl hopening⟩, ?_⟩
        · intro waiting hwaiting
          rw [List.append_nil] at hwaiting
          exact List.mem_append_left _ hwaiting
        · exact fun _ hmem => absurd hmem List.not_mem_nil
      · cases h

variable {stream} {serve} in
theorem takePush_takesTurn
    {result : InferenceStream PeerID SessionId StepId Token Wire ×
      List (NextServer PeerID SessionId × StepRequest PeerID SessionId StepId Token Wire)}
    (h : stream.takePush serve = some result) : TakesTurn stream result := by
  unfold takePush at h
  split at h
  · cases h
  · split at h
    · rename_i opening request rest hopening hqueue
      cases h
      let popped : InferenceStream PeerID SessionId StepId Token Wire :=
        { stream with sessionQueue := rest }
      obtain ⟨hrequests, hrest, -, -, hopened, hsent, hread⟩ :=
        turn_frame serve popped opening request
      have hstill := hopened.trans hopening
      refine ⟨hsent, hread, turn_responses serve popped opening request, ?_,
        ⟨opening, hstill, .inl hopening⟩, ?_⟩
      · intro waiting hwaiting
        rw [hrequests, hrest] at hwaiting
        rw [hqueue]
        obtain hwaiting | hwaiting := List.mem_append.mp hwaiting
        · exact List.mem_append_left _ hwaiting
        · exact List.mem_append_right _ (List.mem_cons_of_mem _ hwaiting)
      · intro push hpush
        obtain ⟨hpush, hyielded, hresponses⟩ := mem_turn_pushes serve popped hpush
        refine ⟨request, ?_, opening, _, hstill, hpush, hyielded, hresponses⟩
        rw [hqueue]
        exact List.mem_append_right _ List.mem_cons_self
    · cases h

end InferenceStream
end Peerz.Server
