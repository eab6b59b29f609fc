import Mathlib.Data.List.Zip
import Peerz.Server.BlockFunctions

/-! The blocks that `rpc_backward` runs: the intermediate inputs that its first loop collects and
the gradients that its second one gathers are those of one recursion over the blocks. -/
namespace Peerz.Server

variable {Token : Type}

/-- The gradients that the backward loop gathers, in the order of the blocks. -/
def gatherGradients (blocks : List (List Token × List Token × TransformerBackend Token))
    (gradOutputs : List Token) : List Token × List (List Token) :=
  let gathered := blocks.reverse.foldl backwardBlock (gradOutputs, [])
  (gathered.1, gathered.2.reverse)

theorem gatherGradients_cons (inputs prompt : List Token) (backend : TransformerBackend Token)
    (blocks : List (List Token × List Token × TransformerBackend Token))
    (gradOutputs : List Token) :
    gatherGradients ((inputs, prompt, backend) :: blocks) gradOutputs =
      let later := gatherGradients blocks gradOutputs
      let gradInputs := backend.backward inputs later.1
      (gradInputs, if prompt = [] then later.2 else gradInputs.take prompt.length :: later.2) := by
  unfold gatherGradients
  rw [List.reverse_cons, List.foldl_append]
  dsimp only [List.foldl_cons, List.foldl_nil, backwardBlock]
  split
  · rfl
  · rw [List.reverse_append]
    rfl

variable [Add Token]

def backwardChain : List (TransformerBackend Token × List Token) → List Token → List Token →
    Option (List Token × List (List Token))
  | [], _, gradOutputs => some (gradOutputs, [])
  | (backend, prompt) :: rest, inputs, gradOutputs => do
      let inputs ← addPrompt? prompt inputs
      let (gradOutputs, gradPrompts) ← backwardChain rest (backend.forward inputs) gradOutputs
      let gradInputs := backend.backward inputs gradOutputs
      return (gradInputs,
        if prompt = [] then gradPrompts else gradInputs.take prompt.length :: gradPrompts)

theorem interInputs_cons (backend : TransformerBackend Token) (prompt : List Token)
    {rest : List (TransformerBackend Token × List Token)} (hrest : rest ≠ [])
    (inputs : List Token) :
    interInputs ((backend, prompt) :: rest) inputs =
      (addPrompt? prompt inputs).bind fun prompted =>
        (interInputs rest (backend.forward prompted)).map (prompted :: ·) := by
  rw [interInputs]
  · change (addPrompt? prompt inputs).bind _ = _
    congr 1
    funext prompted
    cases interInputs rest (backend.forward prompted) with
    | none => rfl
    | some later => rfl
  · exact hrest

theorem interInputs_gather {blocks : List (TransformerBackend Token × List Token)}
    (hblocks : blocks ≠ []) (inputs gradOutputs : List Token) :
    ((interInputs blocks inputs).map fun inputs =>
        gatherGradients (inputs.zip (blocks.map Prod.swap)) gradOutputs) =
      backwardChain blocks inputs gradOutputs := by
  induction blocks generalizing inputs with
  | nil => exact absurd rfl hblocks
  | cons block rest ih =>
      obtain ⟨backend, prompt⟩ := block
      rw [backwardChain]
      by_cases hrest : rest = []
      · -- the last block is not run forward
        subst hrest
        rw [interInputs]
        cases addPrompt? prompt inputs with
        | none => rfl
        | some prompted => exact congrArg some (gatherGradients_cons _ _ _ [] _)
      · rw [interInputs_cons backend prompt hrest]
        cases addPrompt? prompt inputs with
        | none => rfl
        | some prompted =>
            rw [Option.bind_some]
            change _ = (backwardChain rest (backend.forward prompted) gradOutputs).bind _
            rw [← ih hrest]
            cases interInputs rest (backend.forward prompted) with
            | none => rfl
            | some inputs => exact congrArg some (gatherGradients_cons _ _ _ _ _)

variable {backends : List (TransformerBackend Token)} {prompts : List (List Token)}

theorem runRpcBackward_eq_backwardChain (hbackends : backends ≠ [])
    (hprompts : (splitPrompts backends prompts).length = backends.length)
    (inputs gradOutputs : List Token) :
    runRpcBackward backends inputs gradOutputs prompts =
      (backwardChain (backends.zip (splitPrompts backends prompts)) inputs gradOutputs).map
        fun grads => (grads.1, if grads.2.all List.isEmpty then [] else grads.2) := by
  have hblocks : backends.zip (splitPrompts backends prompts) ≠ [] := by
    rw [← List.length_pos_iff, List.length_zip, hprompts, min_self, List.length_pos_iff]
    exact hbackends
  unfold runRpcBackward
  dsimp only
  rw [if_pos hprompts.symm, ← interInputs_gather hblocks, Option.map_map, List.zip_swap]
  cases interInputs (backends.zip (splitPrompts backends prompts)) inputs with
  | none => rfl
  | some inputs => rfl

/-- Another number of prompts than that of the blocks ends in an internal shape error. -/
theorem runRpcBackward_eq_none (hprompts : prompts.all List.isEmpty = false)
    (hcount : prompts.length ≠ backends.length) (inputs gradOutputs : List Token) :
    runRpcBackward backends inputs gradOutputs prompts = none := by
  have hsplit : splitPrompts backends prompts = prompts :=
    if_neg (Bool.eq_false_iff.mp hprompts)
  unfold runRpcBackward
  rw [hsplit]
  exact if_neg hcount.symm

end Peerz.Server
