import Mathlib.Data.List.Basic

/-! The server's end of an inference session: the blocks it was opened for, their attention
caches and the steps it takes. -/
namespace Peerz.Server

/-- A transformer block, deterministic and the same on every server. It maps the hidden states
of new tokens to as many, given the attention cache of the earlier ones. -/
structure Block (Token Cache : Type) where
  emptyCache : Cache
  forward : Cache → List Token → List Token × Cache
  /-- `_reorder_cache_inplace`, which takes the hypotheses in the given order -/
  reorderCache : Cache → List Nat → Cache
  length_forward : ∀ cache tokens, (forward cache tokens).1.length = tokens.length

/-- The tensors of a request. No prompts, or no hypothesis ids, stand for dummy tensors. -/
structure InferenceTensors (Token : Type) where
  hiddenStates : List Token
  prompts : List (List Token)
  hypoIds : List Nat
deriving DecidableEq

section steps
variable {Token Cache : Type} [Add Token]

/-- `hidden_states[:, : prompt.shape[1]] += prompt`. -/
def addPrompt (prompt hiddenStates : List Token) : List Token :=
  List.zipWith (· + ·) (hiddenStates.take prompt.length) prompt ++ hiddenStates.drop prompt.length

@[simp] theorem addPrompt_length (prompt hiddenStates : List Token) :
    (addPrompt prompt hiddenStates).length = hiddenStates.length := by
  unfold addPrompt
  rw [List.length_append, List.length_zipWith, List.length_take, List.length_drop]
  omega

def Block.inferenceStep (block : Block Token Cache) (hypoIds : List Nat) (cache : Cache)
    (prompt hiddenStates : List Token) : List Token × Cache :=
  block.forward (if hypoIds = [] then cache else block.reorderCache cache hypoIds)
    (addPrompt prompt hiddenStates)

@[simp] theorem Block.inferenceStep_length (block : Block Token Cache) (hypoIds : List Nat)
    (cache : Cache) (prompt hiddenStates : List Token) :
    (block.inferenceStep hypoIds cache prompt hiddenStates).1.length = hiddenStates.length := by
  unfold Block.inferenceStep
  rw [block.length_forward, addPrompt_length]

/-- The blocks one after the other; a prompt longer than the hidden states does not fit. -/
def runBlocks (hypoIds : List Nat) :
    List (Block Token Cache × Cache × List Token) → List Token → Option (List Token × List Cache)
  | [], hiddenStates => some (hiddenStates, [])
  | (block, cache, prompt) :: rest, hiddenStates =>
      if prompt.length ≤ hiddenStates.length then do
        let (outputs, cache) := block.inferenceStep hypoIds cache prompt hiddenStates
        let (outputs, caches) ← runBlocks hypoIds rest outputs
        return (outputs, cache :: caches)
      else none

end steps

structure ServerSession (Token Cache : Type) where
  backends : List (Block Token Cache)
  caches : List Cache
  maxLength : Nat
  prefixLength : Nat

namespace ServerSession

variable {Token Cache : Type} [Add Token]

def new (backends : List (Block Token Cache)) (maxLength : Nat) : ServerSession Token Cache where
  backends := backends
  caches := backends.map Block.emptyCache
  maxLength := maxLength
  prefixLength := 0

/-- One turn of the loop of `iterate_rpc_inference`; `none` where it raises, which ends the
session. A request without tokens reaches no block. -/
def process (session : ServerSession Token Cache) (tensors : InferenceTensors Token) :
    Option (List Token × ServerSession Token Cache) :=
  let prompts :=
    if tensors.prompts.all List.isEmpty then session.backends.map fun _ => [] else tensors.prompts
  let lengthIncrement := tensors.hiddenStates.length
  if session.backends.length ≠ prompts.length then none
  else if session.maxLength < session.prefixLength + lengthIncrement then none
  else if lengthIncrement = 0 then some ([], session)
  else do
    let (outputs, caches) ← runBlocks tensors.hypoIds
      (session.backends.zip (session.caches.zip prompts)) tensors.hiddenStates
    return (outputs,
      { session with caches := caches, prefixLength := session.prefixLength + lengthIncrement })

end ServerSession
end Peerz.Server
