import Peerz.Client.BatchedModel
import Peerz.Client.SequentialBackward

/-! The autograd function of a remote chain of blocks: a batch is cut into micro-batches, each of
which finds its own way through the swarm, forward and back. -/
namespace Peerz.Client
open Library Server

variable {PeerID Hidden : Type}

def maxTokensInBatch : Nat := 1024

/-- Hidden states, `[batch_size, seq_length, hidden_size]`. -/
structure HiddenBatch (Hidden : Type) where
  seqLen : Nat
  rows : List (List Hidden)
  uniform : ∀ row ∈ rows, row.length = seqLen

/-- Deep prompts, `[num_blocks, batch_size, prompt_length, hidden_size]`, with the rows of the batch
outermost. -/
structure PromptBatch (Hidden : Type) where
  numBlocks : Nat
  length : Nat
  rows : List (List (List Hidden))
  uniform : ∀ row ∈ rows, row.length = numBlocks ∧ ∀ prompt ∈ row, prompt.length = length

namespace HiddenBatch

def columns (batch : HiddenBatch Hidden) {height : Nat} (h : batch.rows.length = height) :
    List (Fin height → Hidden) :=
  Library.columns (fun row => batch.rows.get ⟨row.val, h.symm ▸ row.isLt⟩) batch.seqLen fun _ =>
    batch.uniform _ (List.getElem_mem _)

def ofColumns {height : Nat} (columns : List (Fin height → Hidden)) : HiddenBatch Hidden where
  seqLen := columns.length
  rows := List.ofFn fun row => batchRow row columns
  uniform := by
    intro row hrow
    obtain ⟨index, rfl⟩ := List.mem_ofFn.mp hrow
    exact length_batchRow index columns

def split (batch : HiddenBatch Hidden) (size : Nat) : List (HiddenBatch Hidden) :=
  (torchSplit size batch.rows).attach.map fun part =>
    { seqLen := batch.seqLen
      rows := part.1
      uniform := fun row hrow => batch.uniform row (mem_of_mem_torchSplit part.2 row hrow) }

/-- `torch.cat`, which takes at least one tensor, and tensors of one length. -/
def cat : List (HiddenBatch Hidden) → Option (HiddenBatch Hidden)
  | [] => none
  | first :: rest =>
      if h : ∀ batch ∈ first :: rest, batch.seqLen = first.seqLen then
        some
          { seqLen := first.seqLen
            rows := ((first :: rest).map HiddenBatch.rows).flatten
            uniform := by
              intro row hrow
              obtain ⟨part, hpart, hrow⟩ := List.mem_flatten.mp hrow
              obtain ⟨batch, hbatch, rfl⟩ := List.mem_map.mp hpart
              exact (batch.uniform row hrow).trans (h batch hbatch) }
      else none

end HiddenBatch

namespace PromptBatch

def IsDummy (prompts : PromptBatch Hidden) : Bool :=
  prompts.rows.isEmpty || prompts.numBlocks = 0 || prompts.length = 0

def split (prompts : PromptBatch Hidden) (size : Nat) : List (PromptBatch Hidden) :=
  (torchSplit size prompts.rows).attach.map fun part =>
    { prompts with
      rows := part.1
      uniform := fun row hrow => prompts.uniform row (mem_of_mem_torchSplit part.2 row hrow) }

def ofColumns {height : Nat} (prompts : List (List (Fin height → Hidden))) (length : Nat)
    (h : ∀ prompt ∈ prompts, prompt.length = length) : PromptBatch Hidden where
  numBlocks := prompts.length
  length := length
  rows := List.ofFn fun row => prompts.map (batchRow row)
  uniform := by
    intro row hrow
    obtain ⟨index, rfl⟩ := List.mem_ofFn.mp hrow
    refine ⟨List.length_map _, fun prompt hprompt => ?_⟩
    obtain ⟨columns, hcolumns, rfl⟩ := List.mem_map.mp hprompt
    exact (length_batchRow index columns).trans (h columns hcolumns)

/-- The prompts of a single row serve for every row. -/
def broadcast (prompts : PromptBatch Hidden) (height : Nat) : PromptBatch Hidden :=
  if prompts.rows.length = 1 then
    { prompts with
      rows := (List.replicate height prompts.rows).flatten
      uniform := by
        intro row hrow
        obtain ⟨rows, hrows, hrow⟩ := List.mem_flatten.mp hrow
        exact prompts.uniform row (List.eq_of_mem_replicate hrows ▸ hrow) }
  else prompts

def columns (prompts : PromptBatch Hidden) {height : Nat} (h : prompts.rows.length = height) :
    List (List (Fin height → Hidden)) :=
  List.ofFn fun block : Fin prompts.numBlocks =>
    Library.columns
      (fun row =>
        (prompts.rows.get ⟨row.val, h.symm ▸ row.isLt⟩).get
          ⟨block.val, (prompts.uniform _ (List.get_mem _ _)).1.symm ▸ block.isLt⟩)
      prompts.length fun _ => (prompts.uniform _ (List.get_mem _ _)).2 _ (List.get_mem _ _)

end PromptBatch

/-- The prompts of one micro-batch, or dummy ones; another number of rows does not fit. -/
def promptColumns? (prompts : Option (PromptBatch Hidden)) (height : Nat) :
    Option (List (List (Fin height → Hidden))) :=
  match prompts with
  | none => some []
  | some prompts =>
      if h : (prompts.broadcast height).rows.length = height then
        some ((prompts.broadcast height).columns h)
      else none

structure SavedBatch (PeerID Hidden : Type) where
  height : Nat
  prompts : List (List (Fin height → Hidden))
  intermediateInputs : List (List (Fin height → Hidden))
  sequences : List (RemoteSpanInfo PeerID)

namespace PassOutcome

def map {α β : Type} (f : α → β) : PassOutcome α → PassOutcome β
  | .returned result => .returned (f result)
  | .raised => .raised
  | .pending => .pending

/-- `asyncio.gather`, which raises as soon as one of the passes does. -/
def gather {α : Type} : List (PassOutcome α) → PassOutcome (List α)
  | [] => .returned []
  | first :: rest =>
      match first with
      | .raised => .raised
      | .pending =>
          match gather rest with
          | .raised => .raised
          | _ => .pending
      | .returned result => (gather rest).map (result :: ·)

def failing {α : Type} (config : ClientConfig) (attempts : Nat) : PassOutcome α :=
  match config.maxRetries with
  | some (retries + 1) => if retries + 1 ≤ attempts then .raised else .pending
  | _ => .pending

theorem map_eq_returned {α β : Type} {f : α → β} {outcome : PassOutcome α} {result : β}
    (h : outcome.map f = .returned result) :
    ∃ before, outcome = .returned before ∧ result = f before := by
  cases outcome with
  | returned before =>
      cases h
      exact ⟨before, rfl, rfl⟩
  | raised | pending => cases h

theorem not_failing_returned {α : Type} {config : ClientConfig} {attempts : Nat} {result : α} :
    (failing config attempts : PassOutcome α) ≠ .returned result := by
  unfold failing
  split
  · split <;> nofun
  · nofun

theorem gather_eq_returned {α : Type} {outcomes : List (PassOutcome α)} {results : List α}
    (h : gather outcomes = .returned results) :
    List.Forall₂ (fun outcome result => outcome = .returned result) outcomes results := by
  induction outcomes generalizing results with
  | nil =>
      cases h
      exact .nil
  | cons first rest ih =>
      cases first with
      | raised => cases h
      | pending =>
          rw [gather] at h
          split at h <;> cases h
      | returned result =>
          obtain ⟨rest, hrest, rfl⟩ := map_eq_returned h
          exact .cons rfl (ih hrest)

end PassOutcome

def givenPrompts (prompts : Option (PromptBatch Hidden)) : Option (PromptBatch Hidden) :=
  prompts.filter (!·.IsDummy)

def promptBatches (prompts : Option (PromptBatch Hidden)) (batchSize : Nat)
    (inputBatches : List (HiddenBatch Hidden)) : List (Option (PromptBatch Hidden)) :=
  match givenPrompts prompts with
  | none => inputBatches.map fun _ => none
  | some prompts => (prompts.split batchSize).map some

variable [Add Hidden]

def forwardBatch (config : ClientConfig) (model : RemoteModel Hidden) (batch : HiddenBatch Hidden)
    (prompts : Option (PromptBatch Hidden)) (attempts : List (ForwardAttempt PeerID)) :
    PassOutcome (HiddenBatch Hidden × SavedBatch PeerID Hidden) :=
  match promptColumns? prompts batch.rows.length with
  | none => .failing config attempts.length
  | some prompts =>
      (sequentialForward config (model.batched batch.rows.length) (batch.columns rfl) prompts 0 none
        attempts).map fun result =>
          (.ofColumns result.1, ⟨batch.rows.length, prompts, result.2.1, result.2.2⟩)

def microBatchSize (seqLen : Nat) : Nat := max (maxTokensInBatch / seqLen) 1

/-- `_RemoteSequentialAutogradFunction.forward`; hidden states without positions divide by zero. -/
def autogradForward (config : ClientConfig) (model : RemoteModel Hidden)
    (inputs : HiddenBatch Hidden) (prompts : Option (PromptBatch Hidden))
    (attempts : Nat → List (ForwardAttempt PeerID)) :
    PassOutcome (HiddenBatch Hidden × List (SavedBatch PeerID Hidden)) :=
  if inputs.seqLen = 0 then .raised
  else
    let batchSize := microBatchSize inputs.seqLen
    let inputBatches := inputs.split batchSize
    let batches := inputBatches.zip (promptBatches prompts batchSize inputBatches)
    let outputs := PassOutcome.gather <| batches.zipIdx.map fun part =>
      forwardBatch config model part.1.1 part.1.2 (attempts part.2)
    match outputs with
    | .raised => .raised
    | .pending => .pending
    | .returned outputs =>
        if outputs.length = inputBatches.length then
          match HiddenBatch.cat (outputs.map Prod.fst) with
          | none => .raised
          | some batch => .returned (batch, outputs.map Prod.snd)
        else .raised

/-- `sequential_backward` of one micro-batch; there are no gradients of dummy prompts. -/
def backwardBatch (config : ClientConfig) (model : RemoteModel Hidden)
    (gradOutputs : HiddenBatch Hidden) (saved : SavedBatch PeerID Hidden)
    (attempts : List (BackwardAttempt PeerID)) :
    PassOutcome (HiddenBatch Hidden × Option (List (List (List Hidden)))) :=
  if h : gradOutputs.rows.length = saved.height then
    (sequentialBackward config (model.batched saved.height) (gradOutputs.columns h)
      saved.intermediateInputs saved.prompts saved.sequences attempts).map fun grads =>
        (.ofColumns grads.1,
          if grads.2.isEmpty then none
          else some (List.ofFn fun row => grads.2.map (batchRow row)))
  else .failing config attempts.length

def autogradBackward (config : ClientConfig) (model : RemoteModel Hidden)
    (gradOutputs : HiddenBatch Hidden) (saved : List (SavedBatch PeerID Hidden))
    (attempts : Nat → List (BackwardAttempt PeerID)) :
    PassOutcome (HiddenBatch Hidden × Option (List (List (List Hidden)))) :=
  if gradOutputs.seqLen = 0 then .raised
  else
    let gradOutputBatches := gradOutputs.split (microBatchSize gradOutputs.seqLen)
    if saved.length = gradOutputBatches.length then
      let outputs := PassOutcome.gather <| (gradOutputBatches.zip saved).zipIdx.map fun part =>
        backwardBatch config model part.1.1 part.1.2 (attempts part.2)
      match outputs with
      | .raised => .raised
      | .pending => .pending
      | .returned outputs =>
          match HiddenBatch.cat (outputs.map Prod.fst) with
          | none => .raised
          | some batch =>
              let gradPrompts := outputs.map Prod.snd
              .returned (batch,
                if gradPrompts.any Option.isNone then none
                else some gradPrompts.reduceOption.flatten)
    else .raised

end Peerz.Client
