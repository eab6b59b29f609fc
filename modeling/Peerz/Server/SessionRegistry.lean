import Peerz.Library.TableLog

/-! The inference sessions that are open on the handler processes of a server. Each handler keeps
a table of who owns which session, and learns of the others' sessions through its event queue. -/
namespace Peerz.Server
open Library

variable {SessionId Request : Type} [DecidableEq SessionId]

inductive Event (SessionId Request : Type) where
  /-- with the index of the handler that owns the session -/
  | newSession (sessionId : SessionId) (handlerIndex : Nat)
  | endSession (sessionId : SessionId) (handlerIndex : Nat)
  | push (sessionId : SessionId) (request : Request)

structure Envelope (SessionId Request : Type) where
  sender : Nat
  receiver : Nat
  event : Event SessionId Request

structure Handler (SessionId Request : Type) where
  sessionQueues : Dict SessionId (List Request) := Dict.empty
  sessionHandlers : Dict SessionId Nat := Dict.empty

inductive PushOutcome (SessionId Request : Type) where
  | ignored
  | put (handler : Handler SessionId Request)
  | forwarded (handlerIndex : Nat)
  | keyError

namespace Handler

/-- The start of `_managed_session`. -/
def enterSession (handler : Handler SessionId Request) (index : Nat) (sessionId : SessionId) :
    Handler SessionId Request where
  sessionQueues := handler.sessionQueues.insert sessionId []
  sessionHandlers := handler.sessionHandlers.insert sessionId index

/-- The end of `_managed_session`, and whether it gets that far without a `KeyError`. -/
def leaveSession (handler : Handler SessionId Request) (sessionId : SessionId) :
    Handler SessionId Request × Bool :=
  if handler.sessionQueues.contains sessionId then
    let handler := { handler with sessionQueues := handler.sessionQueues.erase sessionId }
    if handler.sessionHandlers.contains sessionId then
      ({ handler with sessionHandlers := handler.sessionHandlers.erase sessionId }, true)
    else (handler, false)
  else (handler, false)

def putIntoSessionQueue (handler : Handler SessionId Request) (index : Nat)
    (sessionId : SessionId) (request : Request) : PushOutcome SessionId Request :=
  match handler.sessionHandlers.get? sessionId with
  | none => .ignored
  | some handlerIndex =>
      if handlerIndex = index then
        match handler.sessionQueues.get? sessionId with
        | none => .keyError
        | some queue => .put
            { handler with
              sessionQueues := handler.sessionQueues.insert sessionId (queue ++ [request]) }
      else .forwarded handlerIndex

/-- One turn of `_listen_to_event_queue`: the handler after it, and the request that it puts into
the queue of a session. -/
def listenToEventQueue (handler : Handler SessionId Request) :
    Event SessionId Request → Handler SessionId Request × Option (SessionId × Request)
  | .newSession sessionId handlerIndex =>
      ({ handler with
        sessionHandlers := handler.sessionHandlers.insert sessionId handlerIndex }, none)
  | .endSession sessionId _ =>
      ({ handler with sessionHandlers := handler.sessionHandlers.erase sessionId }, none)
  | .push sessionId request =>
      match handler.sessionQueues.get? sessionId with
      | none => (handler, none)
      | some queue =>
          ({ handler with
            sessionQueues := handler.sessionQueues.insert sessionId (queue ++ [request]) },
            some (sessionId, request))

end Handler

/-- The handlers, the events between them, and the history of their sessions. -/
structure HandlerPool (SessionId Request : Type) where
  numHandlers : Nat
  handlers : Nat → Handler SessionId Request := fun _ => {}
  /-- in the order in which they were sent -/
  inFlight : List (Envelope SessionId Request) := []
  /-- the sessions that are open, with the handlers that opened them -/
  sessions : List (Nat × SessionId) := []
  /-- the requests that were put into the queues of sessions, with the handlers and the sessions -/
  puts : List (Nat × SessionId × Request) := []
  keyErrors : Nat := 0

inductive PoolEvent (SessionId Request : Type) where
  | enter (index : Nat) (sessionId : SessionId)
  | leave (index : Nat) (sessionId : SessionId)
  /-- an `rpc_push` arrives at a handler -/
  | push (index : Nat) (sessionId : SessionId) (request : Request)
  | deliver (position : Nat)

namespace HandlerPool

def new (numHandlers : Nat) : HandlerPool SessionId Request where
  numHandlers := numHandlers

def tellOthers (numHandlers sender : Nat) (event : Event SessionId Request) :
    List (Envelope SessionId Request) :=
  ((List.range numHandlers).filter fun other => other ≠ sender).map fun receiver =>
    ⟨sender, receiver, event⟩

section steps
variable (pool : HandlerPool SessionId Request)

/-- A handler that has the session already raises `AssertionError` and leaves all as it is. -/
def enter (index : Nat) (sessionId : SessionId) : Option (HandlerPool SessionId Request) :=
  if index < pool.numHandlers then
    if (pool.handlers index).sessionQueues.contains sessionId then some pool
    else some { pool with
      handlers := Function.update pool.handlers index
        ((pool.handlers index).enterSession index sessionId)
      inFlight := pool.inFlight ++
        tellOthers pool.numHandlers index (.newSession sessionId index)
      sessions := pool.sessions ++ [(index, sessionId)] }
  else none

def leave (index : Nat) (sessionId : SessionId) : Option (HandlerPool SessionId Request) :=
  if (index, sessionId) ∈ pool.sessions then
    let (handler, complete) := (pool.handlers index).leaveSession sessionId
    let left : HandlerPool SessionId Request := { pool with
      handlers := Function.update pool.handlers index handler
      sessions := pool.sessions.erase (index, sessionId) }
    if complete then
      some { left with
        inFlight := pool.inFlight ++
          tellOthers pool.numHandlers index (.endSession sessionId index) }
    else some { left with keyErrors := pool.keyErrors + 1 }
  else none

def rpcPush (index : Nat) (sessionId : SessionId) (request : Request) :
    Option (HandlerPool SessionId Request) :=
  if index < pool.numHandlers then
    match (pool.handlers index).putIntoSessionQueue index sessionId request with
    | .ignored => some pool
    | .put handler => some { pool with
        handlers := Function.update pool.handlers index handler
        puts := pool.puts ++ [(index, sessionId, request)] }
    | .forwarded handlerIndex => some { pool with
        inFlight := pool.inFlight ++ [⟨index, handlerIndex, .push sessionId request⟩] }
    | .keyError => some { pool with keyErrors := pool.keyErrors + 1 }
  else none

/-- The event at the position is delivered, unless the same sender has sent another one to the
same receiver before. -/
def deliver (position : Nat) : Option (HandlerPool SessionId Request) := do
  let envelope ← pool.inFlight[position]?
  if (pool.inFlight.take position).all fun earlier =>
      earlier.sender ≠ envelope.sender ∨ earlier.receiver ≠ envelope.receiver then
    let (handler, put) := (pool.handlers envelope.receiver).listenToEventQueue envelope.event
    some { pool with
      handlers := Function.update pool.handlers envelope.receiver handler
      inFlight := pool.inFlight.eraseIdx position
      puts := pool.puts ++ (put.map fun put => (envelope.receiver, put)).toList }
  else none

def step : PoolEvent SessionId Request → Option (HandlerPool SessionId Request)
  | .enter index sessionId => pool.enter index sessionId
  | .leave index sessionId => pool.leave index sessionId
  | .push index sessionId request => pool.rpcPush index sessionId request
  | .deliver position => pool.deliver position

end steps
end HandlerPool
end Peerz.Server
