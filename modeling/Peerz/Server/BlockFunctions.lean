import Peerz.Server.Inference

/-! Forward and backward over the requested blocks of one server, as `rpc_forward` and
`rpc_backward` run them. -/
namespace Peerz.Server

/-- A block without an attention cache, deterministic and the same on every server. Both passes
keep the shape of the inputs. -/
structure TransformerBackend (Token : Type) where
  forward : List Token → List Token
  /-- the gradient of the inputs, given that of the outputs -/
  backward : List Token → List Token → List Token
  length_forward : ∀ inputs, (forward inputs).length = inputs.length
  length_backward : ∀ inputs gradOutputs, (backward inputs gradOutputs).length = inputs.length

variable {Token : Type} [Add Token]

/-- A dummy prompt adds nothing. One that is longer than the hidden states does not fit, unless
it broadcasts: a single token to none. -/
def addPrompt? (prompt hiddenStates : List Token) : Option (List Token) :=
  if prompt.length ≤ max hiddenStates.length 1 then some (addPrompt prompt hiddenStates) else none

def splitPrompts (backends : List (TransformerBackend Token)) (prompts : List (List Token)) :
    List (List Token) :=
  if prompts.all List.isEmpty then backends.map fun _ => [] else prompts

def runRpcForward (backends : List (TransformerBackend Token)) (prompts : List (List Token))
    (hiddenStates : List Token) : Option (List Token) :=
  if backends = [] then none
  else
    (backends.zip (splitPrompts backends prompts)).foldlM
      (fun hiddenStates layer => do
        let hiddenStates ← addPrompt? layer.2 hiddenStates
        return layer.1.forward hiddenStates)
      hiddenStates

/-- The inputs of each block after its prompt; the last block is not run. -/
def interInputs : List (TransformerBackend Token × List Token) → List Token →
    Option (List (List Token))
  | [], _ => none
  | [(_, prompt)], inputs => do
      let inputs ← addPrompt? prompt inputs
      return [inputs]
  | (backend, prompt) :: rest, inputs => do
      let inputs ← addPrompt? prompt inputs
      let later ← interInputs rest (backend.forward inputs)
      return inputs :: later

/-- The backward pass of one block: the gradient of its inputs and, in reverse order, those of
the prompts. -/
def backwardBlock (state : List Token × List (List Token))
    (block : List Token × List Token × TransformerBackend Token) :
    List Token × List (List Token) :=
  let gradInputs := block.2.2.backward block.1 state.1
  (gradInputs,
    if block.2.1 = [] then state.2 else state.2 ++ [gradInputs.take block.2.1.length])

/-- The gradients of the inputs and of the prompts; dummy gradients of prompts are left out. -/
def runRpcBackward (backends : List (TransformerBackend Token)) (inputs gradOutputs : List Token)
    (prompts : List (List Token)) : Option (List Token × List (List Token)) := do
  let prompts := splitPrompts backends prompts
  if backends.length = prompts.length then
    let inputs ← interInputs (backends.zip prompts) inputs
    let (gradInputs, gradPromptsReversed) :=
      (inputs.zip (prompts.zip backends)).reverse.foldl backwardBlock (gradOutputs, [])
    let gradPrompts := gradPromptsReversed.reverse
    return (gradInputs, if gradPrompts.all List.isEmpty then [] else gradPrompts)
  else none

end Peerz.Server
