import Peerz.Library.Runs
import Peerz.Server.Backend
import Peerz.Server.Splitting

/-! The inference sessions of one server, whose steps run as tasks of one runtime. A short step is
one task for all blocks, a longer one a task for each block; the tasks of the sessions interleave. -/
namespace Peerz.Server
open Library

inductive QuantType where
  | none
  | int8
  | nf4
deriving DecidableEq

def maxShortInferenceTokens : Nat := 128
def maxNf4ShortInferenceTokens : Nat := 1

def mergeMaxTokens : QuantType → Nat
  | .nf4 => maxNf4ShortInferenceTokens
  | .none | .int8 => maxShortInferenceTokens

structure InferenceServer (Token Slot : Type) (width : Nat) where
  moduleBackends : ModuleUID → AttentionBlock Token Slot width
  quantType : QuantType
  /-- the largest batch of the merged pool, in tokens -/
  maxBatchSize : Nat

structure InferenceTask (Token Handle : Type) (width : Nat) where
  hypoIds : List Nat
  blocks : List (InferenceMetadata Handle width × List Token)

inductive StepPhase (Token Handle : Type) (width : Nat) where
  | waiting
  /-- the first task is submitted, the others follow with the hidden states it returns -/
  | running (lengthIncrement : Nat) (hiddenStates : List Token)
      (tasks : List (InferenceTask Token Handle width))
  | failed

/-- The loop of `iterate_rpc_inference`, over at least one block and a batch of at least one
sequence. -/
structure StepLoop (Token Handle : Type) (width : Nat) where
  requestedUids : List ModuleUID
  cacheHandles : List (Fin width → Handle)
  sameCount : cacheHandles.length = requestedUids.length
  nonempty : requestedUids ≠ []
  maxLength : Nat
  batchSize : Nat
  positiveBatch : 0 < batchSize
  prefixLength : Nat
  phase : StepPhase Token Handle width
  yielded : List (List Token)

variable {Token Slot Handle SessionId : Type} {width : Nat}

namespace StepLoop

def infos (loop : StepLoop Token Handle width) : List (InferenceMetadata Handle width) :=
  (loop.requestedUids.zip loop.cacheHandles).map fun block => ⟨block.1, loop.prefixLength, block.2⟩

def tasks (server : InferenceServer Token Slot width) (loop : StepLoop Token Handle width)
    (hypoIds : List Nat) (prompts : List (List Token)) (lengthIncrement : Nat) :
    List (InferenceTask Token Handle width) :=
  let canMergePools := loop.batchSize * lengthIncrement ≤ mergeMaxTokens server.quantType
  if canMergePools then [⟨hypoIds, loop.infos.zip prompts⟩]
  else (loop.infos.zip prompts).map fun block => ⟨hypoIds, [block]⟩

def receive (server : InferenceServer Token Slot width) (loop : StepLoop Token Handle width)
    (tensors : InferenceTensors Token) : StepLoop Token Handle width :=
  let lengthIncrement := tensors.hiddenStates.length
  let prompts :=
    if tensors.prompts.all List.isEmpty then loop.requestedUids.map fun _ => []
    else tensors.prompts
  if loop.requestedUids.length ≠ prompts.length then { loop with phase := .failed }
  else if loop.maxLength < loop.prefixLength + lengthIncrement then { loop with phase := .failed }
  else if lengthIncrement = 0 then { loop with yielded := loop.yielded ++ [tensors.hiddenStates] }
  else
    let tasks := loop.tasks server tensors.hypoIds prompts lengthIncrement
    { loop with phase := .running lengthIncrement tensors.hiddenStates tasks }

def resume (loop : StepLoop Token Handle width) (lengthIncrement : Nat)
    (later : List (InferenceTask Token Handle width)) (hiddenStates : Option (List Token)) :
    StepLoop Token Handle width :=
  match hiddenStates with
  | none => { loop with phase := .failed }
  | some hiddenStates =>
      if later = [] then
        { loop with
          phase := .waiting
          prefixLength := loop.prefixLength + lengthIncrement
          yielded := loop.yielded ++ [hiddenStates] }
      else { loop with phase := .running lengthIncrement hiddenStates later }

end StepLoop

inductive InferenceEvent (Token SessionId : Type) where
  | request (sessionId : SessionId) (tensors : InferenceTensors Token)
  /-- the future of a session's first task resolves -/
  | resolve (sessionId : SessionId)

structure InferenceRuntime (Token Slot Handle SessionId : Type) (width : Nat) where
  tensors : Tensors Handle Slot
  loops : SessionId → StepLoop Token Handle width

namespace InferenceRuntime

variable [Add Token] [DecidableEq Handle] [DecidableEq SessionId]

/-- The result of a task: `submit_task` refuses one that is too large, and the runtime runs the
others one at a time. -/
def runTask (server : InferenceServer Token Slot width) (batchSize : Nat)
    (task : InferenceTask Token Handle width) (hiddenStates : List Token)
    (tensors : Tensors Handle Slot) : Option (List Token) × Tensors Handle Slot :=
  if server.maxBatchSize < batchSize * hiddenStates.length then (none, tensors)
  else mergedInferenceStep server.moduleBackends batchSize task.hypoIds task.blocks hiddenStates
    tensors

def step (server : InferenceServer Token Slot width)
    (runtime : InferenceRuntime Token Slot Handle SessionId width) :
    InferenceEvent Token SessionId → Option (InferenceRuntime Token Slot Handle SessionId width)
  | .request sessionId tensors =>
      let loop := runtime.loops sessionId
      match loop.phase with
      | .waiting =>
          some { runtime with
            loops := Function.update runtime.loops sessionId (loop.receive server tensors) }
      | .running _ _ _ => none
      | .failed => none
  | .resolve sessionId =>
      let loop := runtime.loops sessionId
      match loop.phase with
      | .running lengthIncrement hiddenStates (task :: later) =>
          let (hiddenStates, tensors) :=
            runTask server loop.batchSize task hiddenStates runtime.tensors
          some ⟨tensors, Function.update runtime.loops sessionId
            (loop.resume lengthIncrement later hiddenStates)⟩
      | .running _ _ [] => none
      | .waiting => none
      | .failed => none

end InferenceRuntime
end Peerz.Server
