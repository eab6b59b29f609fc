import Mathlib.Data.List.FinRange
import Mathlib.Logic.Function.Basic
import Peerz.DataStructures
import Peerz.Library.Transducer
import Peerz.Server.Inference

/-! A block's inference step over the cache tensors of one session. A tensor has a slot for each
position up to the session's maximal length; the slots of the tokens processed so far come first,
and what the later ones hold does not matter. -/
namespace Peerz.Server
open Library

/-- Keys and values of the earlier tokens, one list for each cache tensor of a block. -/
abbrev Past (Slot : Type) (width : Nat) := Fin width → List Slot

def extendPast {Token Slot : Type} {width : Nat}
    (decode : Past Slot width → Token → Token × (Fin width → Slot)) (past : Past Slot width)
    (token : Token) : Token × Past Slot width :=
  let (output, row) := decode past token
  (output, fun i => past i ++ [row i])

/-- A block with its attention: `module.forward` is causal, and it returns the past with the keys
and values of the new tokens. It is never called without tokens. -/
structure AttentionBlock (Token Slot : Type) (width : Nat) where
  forward : Past Slot width → List Token → List Token × Past Slot width
  decode : Past Slot width → Token → Token × (Fin width → Slot)
  forward_eq : ∀ past tokens, tokens ≠ [] →
    forward past tokens = transduce (extendPast decode) past tokens
  /-- the sequences of the batch in the given order -/
  reorderSlot : List Nat → Slot → Slot
  maxChunkSizeBytes : Nat
  maxShardNumHeads : Nat
  dtypeBytes : Nat

structure InferenceMetadata (Handle : Type) (width : Nat) where
  uid : ModuleUID
  prefixLength : Nat
  cacheHandles : Fin width → Handle

abbrev Tensors (Handle Slot : Type) := Handle → List Slot

variable {Token Slot Handle : Type} {width : Nat}

def estimateMaxChunkLength (block : AttentionBlock Token Slot width) (batchSize seqLength : Nat)
    (prefixLength : Nat) : Nat :=
  let worstCaseLength := prefixLength + seqLength
  let attnBytesPerToken :=
    block.maxShardNumHeads * batchSize * block.dtypeBytes * worstCaseLength
  max 1 (block.maxChunkSizeBytes / attnBytesPerToken)

def reorderCache (block : AttentionBlock Token Slot width) (hypoIds : List Nat)
    (cacheTensors : Past Slot width) : Past Slot width :=
  if hypoIds = [] then cacheTensors
  else fun i => (cacheTensors i).map (block.reorderSlot hypoIds)

def selectLayerPast (cacheTensors : Past Slot width) (prefixLength : Nat) : Past Slot width :=
  fun i => (cacheTensors i).take prefixLength

def updateSlots (cache new : List Slot) (prefixLength newLength : Nat) : List Slot :=
  cache.take prefixLength ++ (new.take newLength).drop prefixLength ++ cache.drop newLength

section writing
variable [DecidableEq Handle]

def writeTensors (tensors : Tensors Handle Slot) (handles : Fin width → Handle)
    (values : Past Slot width) : Tensors Handle Slot :=
  (List.finRange width).foldl (fun tensors i => Function.update tensors (handles i) (values i))
    tensors

def inferenceStep (block : AttentionBlock Token Slot width) (batchSize : Nat)
    (hiddenStates : List Token) (hypoIds : List Nat) (info : InferenceMetadata Handle width)
    (tensors : Tensors Handle Slot) : List Token × Tensors Handle Slot :=
  let cacheTensors := reorderCache block hypoIds fun i => tensors (info.cacheHandles i)
  let maxChunkLength :=
    estimateMaxChunkLength block batchSize hiddenStates.length info.prefixLength
  let layerPast := selectLayerPast cacheTensors info.prefixLength
  let (outputs, newKvs) := runChunks block.forward maxChunkLength layerPast hiddenStates
  (outputs, writeTensors tensors info.cacheHandles fun i =>
    updateSlots (cacheTensors i) (newKvs i) info.prefixLength (newKvs i).length)

/-- `_MergedInferenceStep`: the blocks of a task in order. A prompt that is longer than the hidden
states raises, and the blocks before it have written their caches. -/
def mergedInferenceStep [Add Token] (backends : ModuleUID → AttentionBlock Token Slot width)
    (batchSize : Nat) (hypoIds : List Nat) :
    List (InferenceMetadata Handle width × List Token) → List Token → Tensors Handle Slot →
      Option (List Token) × Tensors Handle Slot
  | [], hiddenStates, tensors => (some hiddenStates, tensors)
  | (info, prompt) :: rest, hiddenStates, tensors =>
      if prompt.length ≤ hiddenStates.length then
        let (hiddenStates, tensors) := inferenceStep (backends info.uid) batchSize
          (addPrompt prompt hiddenStates) hypoIds info tensors
        mergedInferenceStep backends batchSize hypoIds rest hiddenStates tensors
      else (none, tensors)

end writing

def AttentionBlock.run (block : AttentionBlock Token Slot width) (past : Past Slot width)
    (tokens : List Token) : List Token × Past Slot width :=
  if tokens = [] then ([], past) else block.forward past tokens

theorem AttentionBlock.run_eq (block : AttentionBlock Token Slot width) :
    block.run = transduce (extendPast block.decode) := by
  funext past tokens
  unfold run
  split
  · rename_i hempty
    rw [hempty]
    rfl
  · rename_i htokens
    exact block.forward_eq past tokens htokens

/-- The block as the sessions see it: its cache is the past alone. -/
def AttentionBlock.toBlock (block : AttentionBlock Token Slot width) :
    Block Token (Past Slot width) where
  emptyCache := fun _ => []
  forward := block.run
  reorderCache past hypoIds := fun i => (past i).map (block.reorderSlot hypoIds)
  length_forward := by
    intro past tokens
    rw [block.run_eq, transduce_length]

theorem AttentionBlock.toBlock_resumes (block : AttentionBlock Token Slot width) :
    Resumes block.toBlock.forward := by
  change Resumes block.run
  rw [block.run_eq]
  exact transduce_resumes _

/-- `count` tokens have been processed: their keys and values come first in the cache tensors. -/
structure Holds (cacheTensors past : Past Slot width) (count maxLength : Nat) : Prop where
  pastLength : ∀ i, (past i).length = count
  starts : ∀ i, past i <+: cacheTensors i
  tensorLength : ∀ i, (cacheTensors i).length = maxLength

theorem estimateMaxChunkLength_pos (block : AttentionBlock Token Slot width)
    (batchSize seqLength prefixLength : Nat) :
    0 < estimateMaxChunkLength block batchSize seqLength prefixLength :=
  Nat.lt_of_lt_of_le Nat.zero_lt_one (Nat.le_max_left _ _)

theorem updateSlots_eq {cache new past : List Slot} (hcache : past <+: cache) (hnew : past <+: new) :
    updateSlots cache new past.length new.length = new ++ cache.drop new.length := by
  obtain ⟨added, rfl⟩ := hnew
  rw [updateSlots, ← List.prefix_iff_eq_take.mp hcache, List.take_length, List.drop_left]

theorem transduce_extendPast (decode : Past Slot width → Token → Token × (Fin width → Slot))
    (past : Past Slot width) (tokens : List Token) (i : Fin width) :
    past i <+: (transduce (extendPast decode) past tokens).2 i ∧
      ((transduce (extendPast decode) past tokens).2 i).length =
        (past i).length + tokens.length := by
  induction tokens generalizing past with
  | nil => exact ⟨List.prefix_rfl, rfl⟩
  | cons token rest ih =>
      obtain ⟨hstarts, hlength⟩ := ih (extendPast decode past token).2
      refine ⟨(List.prefix_append _ _).trans hstarts, hlength.trans ?_⟩
      simp only [extendPast, List.length_append, List.length_cons, List.length_nil]
      omega

theorem Holds.selectLayerPast {cacheTensors past : Past Slot width} {count maxLength : Nat}
    (h : Holds cacheTensors past count maxLength) : selectLayerPast cacheTensors count = past := by
  funext i
  rw [Server.selectLayerPast, ← h.pastLength i]
  exact (List.prefix_iff_eq_take.mp (h.starts i)).symm

theorem Holds.reorderCache {cacheTensors past : Past Slot width} {count maxLength : Nat}
    (h : Holds cacheTensors past count maxLength) (block : AttentionBlock Token Slot width)
    (hypoIds : List Nat) :
    Holds (reorderCache block hypoIds cacheTensors)
      (if hypoIds = [] then past else block.toBlock.reorderCache past hypoIds) count maxLength := by
  unfold Server.reorderCache
  split
  · exact h
  · constructor
    · intro i
      exact (List.length_map _).trans (h.pastLength i)
    · intro i
      exact (h.starts i).map _
    · intro i
      exact (List.length_map _).trans (h.tensorLength i)

theorem Holds.updateSlots {cacheTensors past : Past Slot width} {count maxLength : Nat}
    (h : Holds cacheTensors past count maxLength)
    (decode : Past Slot width → Token → Token × (Fin width → Slot)) {tokens : List Token}
    (hlength : count + tokens.length ≤ maxLength) :
    Holds (fun i => updateSlots (cacheTensors i) ((transduce (extendPast decode) past tokens).2 i)
        count ((transduce (extendPast decode) past tokens).2 i).length)
      (transduce (extendPast decode) past tokens).2 (count + tokens.length) maxLength := by
  have hnew (i : Fin width) := transduce_extendPast decode past tokens i
  have hupdate (i : Fin width) := updateSlots_eq (h.starts i) (hnew i).1
  constructor
  · intro i
    rw [(hnew i).2, h.pastLength i]
  · intro i
    rw [← h.pastLength i, hupdate]
    exact List.prefix_append _ _
  · intro i
    rw [← h.pastLength i, hupdate, List.length_append, List.length_drop, h.tensorLength i,
      (hnew i).2, h.pastLength i]
    omega

variable [DecidableEq Handle]

private theorem foldl_update_apply {handles : Fin width → Handle}
    (hdistinct : Function.Injective handles) (values : Past Slot width) (indices : List (Fin width))
    (tensors : Tensors Handle Slot) (i : Fin width) :
    indices.foldl (fun tensors i => Function.update tensors (handles i) (values i)) tensors
      (handles i) = if i ∈ indices then values i else tensors (handles i) := by
  induction indices generalizing tensors with
  | nil => simp
  | cons first rest ih =>
      rw [List.foldl_cons, ih]
      by_cases hrest : i ∈ rest
      · simp [hrest]
      · by_cases hfirst : i = first
        · subst hfirst
          simp
        · rw [Function.update_of_ne (hdistinct.ne hfirst)]
          simp [hrest, hfirst]

theorem writeTensors_self {handles : Fin width → Handle} (hdistinct : Function.Injective handles)
    (tensors : Tensors Handle Slot) (values : Past Slot width) (i : Fin width) :
    writeTensors tensors handles values (handles i) = values i := by
  rw [writeTensors, foldl_update_apply hdistinct, if_pos (List.mem_finRange i)]

theorem writeTensors_other {handles : Fin width → Handle} (tensors : Tensors Handle Slot)
    (values : Past Slot width) {handle : Handle} (hother : ∀ i, handles i ≠ handle) :
    writeTensors tensors handles values handle = tensors handle := by
  unfold writeTensors
  generalize List.finRange width = indices
  induction indices generalizing tensors with
  | nil => rfl
  | cons first rest ih => rw [List.foldl_cons, ih, Function.update_of_ne (hother first).symm]

theorem inferenceStep_other (block : AttentionBlock Token Slot width) (batchSize : Nat)
    (hiddenStates : List Token) (hypoIds : List Nat) (info : InferenceMetadata Handle width)
    (tensors : Tensors Handle Slot) {handle : Handle}
    (hother : ∀ i, info.cacheHandles i ≠ handle) :
    (inferenceStep block batchSize hiddenStates hypoIds info tensors).2 handle = tensors handle :=
  writeTensors_other tensors _ hother

theorem inferenceStep_eq (block : AttentionBlock Token Slot width) (batchSize : Nat)
    (hiddenStates : List Token) (hypoIds : List Nat) (info : InferenceMetadata Handle width)
    (tensors : Tensors Handle Slot) :
    let cacheTensors := reorderCache block hypoIds fun i => tensors (info.cacheHandles i)
    let run := block.run (selectLayerPast cacheTensors info.prefixLength) hiddenStates
    inferenceStep block batchSize hiddenStates hypoIds info tensors =
      (run.1, writeTensors tensors info.cacheHandles fun i =>
        updateSlots (cacheTensors i) (run.2 i) info.prefixLength (run.2 i).length) := by
  intro cacheTensors run
  have hpositive := estimateMaxChunkLength_pos block batchSize hiddenStates.length info.prefixLength
  have hchunks : runChunks block.forward
      (estimateMaxChunkLength block batchSize hiddenStates.length info.prefixLength)
      (selectLayerPast cacheTensors info.prefixLength) hiddenStates = run := by
    rw [runChunks_congr hpositive block.forward_eq, (transduce_resumes _).runChunks_eq hpositive,
      ← block.run_eq]
  rw [← hchunks]
  rfl

/-- Whatever the contents of the free slots, a step over the cache tensors is one run of the block
over the past, and leaves the extended past in them. -/
theorem inferenceStep_spec (block : AttentionBlock Token Slot width) (batchSize : Nat)
    {hiddenStates : List Token} (hypoIds : List Nat) {info : InferenceMetadata Handle width}
    {tensors : Tensors Handle Slot} {past : Past Slot width} {maxLength : Nat}
    (hdistinct : Function.Injective info.cacheHandles)
    (hholds : Holds (fun i => tensors (info.cacheHandles i)) past info.prefixLength maxLength)
    (hlength : info.prefixLength + hiddenStates.length ≤ maxLength) :
    let run := block.toBlock.forward
      (if hypoIds = [] then past else block.toBlock.reorderCache past hypoIds) hiddenStates
    let stepped := inferenceStep block batchSize hiddenStates hypoIds info tensors
    stepped.1 = run.1 ∧ Holds (fun i => stepped.2 (info.cacheHandles i)) run.2
      (info.prefixLength + hiddenStates.length) maxLength := by
  intro run stepped
  have hreordered := hholds.reorderCache block hypoIds
  have hrun : run = transduce (extendPast block.decode)
      (if hypoIds = [] then past else block.toBlock.reorderCache past hypoIds) hiddenStates :=
    congrFun (congrFun block.run_eq _) _
  have hstepped : stepped = (run.1, writeTensors tensors info.cacheHandles fun i =>
      updateSlots (reorderCache block hypoIds (fun i => tensors (info.cacheHandles i)) i) (run.2 i)
        info.prefixLength (run.2 i).length) := by
    refine (inferenceStep_eq block batchSize hiddenStates hypoIds info tensors).trans ?_
    rw [hreordered.selectLayerPast]
    rfl
  rw [hstepped]
  refine ⟨rfl, ?_⟩
  simp only [writeTensors_self hdistinct, hrun]
  exact hreordered.updateSlots block.decode hlength

end Peerz.Server
