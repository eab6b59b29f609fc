import Peerz.Client.PlainChain
import Peerz.Server.BatchRows

/-! The blocks on a batch: each row of a batch goes through them on its own. -/
namespace Peerz.Client
open Library Server

variable {Hidden : Type} {height : Nat}

def batchedBackend (height : Nat) (backend : TransformerBackend Hidden) :
    TransformerBackend (Fin height → Hidden) where
  forward inputs :=
    columns (fun row => backend.forward (batchRow row inputs)) inputs.length fun row => by
      rw [backend.length_forward, length_batchRow]
  backward inputs gradOutputs :=
    columns (fun row => backend.backward (batchRow row inputs) (batchRow row gradOutputs))
      inputs.length fun row => by rw [backend.length_backward, length_batchRow]
  length_forward _ := length_columns ..
  length_backward _ _ := length_columns ..

@[simp] theorem batchRow_forward (row : Fin height) (backend : TransformerBackend Hidden)
    (inputs : List (Fin height → Hidden)) :
    batchRow row ((batchedBackend height backend).forward inputs) =
      backend.forward (batchRow row inputs) := by
  unfold batchedBackend
  rw [batchRow_columns]

@[simp] theorem batchRow_backward (row : Fin height) (backend : TransformerBackend Hidden)
    (inputs gradOutputs : List (Fin height → Hidden)) :
    batchRow row ((batchedBackend height backend).backward inputs gradOutputs) =
      backend.backward (batchRow row inputs) (batchRow row gradOutputs) := by
  unfold batchedBackend
  rw [batchRow_columns]

def RemoteModel.batched (model : RemoteModel Hidden) (height : Nat) :
    RemoteModel (Fin height → Hidden) where
  numBlocks := model.numBlocks
  backend block := batchedBackend height (model.backend block)

variable [Add Hidden] {model : RemoteModel Hidden} {prompts : List (List (Fin height → Hidden))}

theorem addPrompt?_batchRow (row : Fin height) (prompt inputs : List (Fin height → Hidden)) :
    (addPrompt? prompt inputs).map (batchRow row) =
      addPrompt? (batchRow row prompt) (batchRow row inputs) := by
  unfold addPrompt?
  rw [length_batchRow, length_batchRow]
  split
  · exact congrArg some (batchRow_addPrompt row prompt inputs)
  · rfl

omit [Add Hidden] in
theorem batchRow_prompt (row : Fin height) (prompts : List (List (Fin height → Hidden)))
    (block : Nat) : batchRow row (prompts.getD block []) =
      (prompts.map (batchRow row)).getD block [] := by
  rw [List.getD_eq_getElem?_getD, List.getD_eq_getElem?_getD, List.getElem?_map]
  cases prompts[block]? with
  | none => rfl
  | some prompt => rfl

theorem blockForward_batchRow (row : Fin height) (inputs : List (Fin height → Hidden))
    (block : Nat) :
    (blockForward (model.batched height) prompts inputs block).map (batchRow row) =
      blockForward model (prompts.map (batchRow row)) (batchRow row inputs) block := by
  unfold blockForward
  rw [← batchRow_prompt, ← addPrompt?_batchRow]
  cases addPrompt? (prompts.getD block []) inputs with
  | none => rfl
  | some prompted => exact congrArg some (batchRow_forward row (model.backend block) prompted)

theorem chainForward_batchRow (model : RemoteModel Hidden)
    (prompts : List (List (Fin height → Hidden))) (row : Fin height) (start length : Nat)
    (inputs : List (Fin height → Hidden)) :
    (chainForward (model.batched height) prompts start length inputs).map (batchRow row) =
      chainForward model (prompts.map (batchRow row)) start length (batchRow row inputs) := by
  unfold chainForward
  induction List.range' start length generalizing inputs with
  | nil => rfl
  | cons block blocks ih =>
      rw [List.foldlM_cons, List.foldlM_cons, ← blockForward_batchRow]
      cases blockForward (model.batched height) prompts inputs block with
      | none => rfl
      | some outputs => exact ih outputs

def gradientsRow (row : Fin height)
    (grads : List (Fin height → Hidden) × List (List (Fin height → Hidden))) :
    List Hidden × List (List Hidden) :=
  (batchRow row grads.1, grads.2.map (batchRow row))

theorem chainBackward_batchRow (model : RemoteModel Hidden)
    (prompts : List (List (Fin height → Hidden))) (row : Fin height) (start length : Nat)
    (inputs gradOutputs : List (Fin height → Hidden)) :
    (chainBackward (model.batched height) prompts start length inputs gradOutputs).map
        (gradientsRow row) =
      chainBackward model (prompts.map (batchRow row)) start length (batchRow row inputs)
        (batchRow row gradOutputs) := by
  induction length generalizing start inputs with
  | zero => rfl
  | succ length ih =>
      rw [chainBackward, chainBackward, ← batchRow_prompt, ← addPrompt?_batchRow]
      cases addPrompt? (prompts.getD start []) inputs with
      | none => rfl
      | some prompted =>
          have hforward : (model.backend start).forward (batchRow row prompted) =
              batchRow row (((model.batched height).backend start).forward prompted) :=
            (batchRow_forward row (model.backend start) prompted).symm
          simp only [Option.map_some, Option.bind_eq_bind, Option.bind_some]
          rw [hforward, ← ih]
          cases chainBackward (model.batched height) prompts (start + 1) length
              (((model.batched height).backend start).forward prompted) gradOutputs with
          | none => rfl
          | some later =>
              have hbackward : batchRow row
                  (((model.batched height).backend start).backward prompted later.1) =
                  (model.backend start).backward (batchRow row prompted) (batchRow row later.1) :=
                batchRow_backward row (model.backend start) prompted later.1
              simp only [Option.map_some, Option.bind_some, Option.pure_def, gradientsRow,
                ← hbackward, batchRow_eq_nil_iff, length_batchRow]
              split
              · rfl
              · simp [batchRow]

end Peerz.Client
