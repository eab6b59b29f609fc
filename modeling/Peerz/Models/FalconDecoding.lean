import Peerz.Models.FalconBlock
import Peerz.Server.CausalBackend

/-! A Falcon block decodes token by token, over the compressed cache that the server keeps: what the
attention adds to the cache survives the compression, so each step sees the keys and values that the
steps before it have made. -/
namespace Peerz.Models
open Library Server

namespace FalconBlock

variable {config : FalconConfig} {F : Type} [Field F] {batch : Nat} (block : FalconBlock config F)

section heads

omit [Field F] in
theorem storedHead_eq (head : Fin config.numAttentionHeads) :
    block.storedHead head = config.kvHead head := by
  unfold storedHead
  split
  · rfl
  · rename_i hold
    have hgroup : config.groupSize = 1 := by
      unfold FalconConfig.groupSize
      rw [block.ownHeads.resolve_left hold]
      exact Nat.div_self config.heads_pos
    apply Fin.ext
    change head.val = head.val / config.groupSize
    rw [hgroup, Nat.div_one]

omit [Field F] in
theorem storedHead_keptHead (kvHead : Fin config.numKvHeads) :
    block.storedHead (block.keptHead kvHead) = kvHead := by
  unfold storedHead keptHead
  split
  · exact config.kvHead_headOf _ _
  · rfl

omit [Field F] in
theorem collapseState_expandState (state : State config batch F) :
    block.collapseState (block.expandState state) = state := by
  unfold collapseState expandState
  simp only [storedHead_keptHead]
  obtain ⟨keys, values⟩ := state
  congr 1
  · funext i
    rw [Subsingleton.elim i (Fin.last 0)]
  · funext i
    rw [Subsingleton.elim i (Fin.last 0)]

end heads

abbrev KeyValue (config : FalconConfig) (F : Type) :=
  (Fin config.numKvHeads → Fin config.headDim → F) ×
    (Fin config.numKvHeads → Fin config.headDim → F)

def rowState (row : Fin batch) (state : State config batch F) : KeyValue config F :=
  (state.keys (Fin.last 0) row, state.values (Fin.last 0) row)

/-- What the attention heads read of the keys and values of a token. -/
def headKeyValue (keyValue : KeyValue config F) :
    (Fin config.numAttentionHeads → Fin config.headDim → F) ×
      (Fin config.numAttentionHeads → Fin config.headDim → F) :=
  (fun head => keyValue.1 (config.kvHead head), fun head => keyValue.2 (config.kvHead head))

theorem attnOutput_append (query : Fin config.numAttentionHeads → Fin config.headDim → F)
    {visible : Nat} {keyValues : List ((Fin config.numAttentionHeads → Fin config.headDim → F) ×
      (Fin config.numAttentionHeads → Fin config.headDim → F))} (h : visible ≤ keyValues.length)
    (later : List ((Fin config.numAttentionHeads → Fin config.headDim → F) ×
      (Fin config.numAttentionHeads → Fin config.headDim → F))) :
    block.attnOutput query visible (keyValues ++ later) =
      block.attnOutput query visible keyValues := by
  unfold attnOutput
  apply congrArg block.dense.forward
  funext column
  dsimp only
  rw [List.map_append, List.mapIdx_append]
  exact attend_append block.exp (by rwa [List.length_mapIdx])
    (by rw [List.length_map, List.length_mapIdx]) _ _

def rowLayer : CausalLayer (Fin config.hiddenSize → F) (KeyValue config F)
    (Fin config.hiddenSize → F) where
  newState position token :=
    let hiddenStates := block.attentionLayernorm token
    (fun kvHead => block.maybeRotary position
        (block.fusedQkv hiddenStates kvHead config.keySlot),
      fun kvHead => block.fusedQkv hiddenStates kvHead config.valueSlot)
  output position token keyValues :=
    block.feedForward token (block.attnOutput
      (block.queryLayer (block.attentionLayernorm token) position) (position + 1)
      (keyValues.map headKeyValue))
  causal position token keyValues later h := by
    rw [List.map_append, block.attnOutput_append _ (by rwa [List.length_map])]

/-- What it makes of a token of each sequence, with the keys and values of the stored heads. -/
def layer : CausalLayer (Fin batch → Fin config.hiddenSize → F) (State config batch F)
    (Fin batch → Fin config.hiddenSize → F) where
  newState position token :=
    ⟨fun _ row => (block.rowLayer.newState position (token row)).1,
      fun _ row => (block.rowLayer.newState position (token row)).2⟩
  output position token states :=
    fun row => block.rowLayer.output position (token row) (states.map (rowState row))
  causal position token states later h := by
    funext row
    rw [List.map_append]
    exact block.rowLayer.causal _ _ _ _ (by rwa [List.length_map])

/-- The same with the keys and values of the attention heads. -/
def headLayer : CausalLayer (Fin batch → Fin config.hiddenSize → F) (HeadState config batch F)
    (Fin batch → Fin config.hiddenSize → F) where
  newState position token :=
    ⟨fun _ row => block.keyLayer (block.attentionLayernorm (token row)) position,
      fun _ row => block.valueLayer (block.attentionLayernorm (token row))⟩
  output position token states := fun row =>
    block.feedForward (token row) (block.attnOutput
      (block.queryLayer (block.attentionLayernorm (token row)) position) (position + 1)
      (states.map fun state => (state.keys (Fin.last 0) row, state.values (Fin.last 0) row)))
  causal position token states later h := by
    funext row
    rw [List.map_append, block.attnOutput_append _ (by rwa [List.length_map])]

theorem layer_maps (row : Fin batch) :
    block.layer.Maps block.rowLayer (fun token => token row) (rowState row)
      (fun output => output row) where
  newState _ _ := rfl
  output _ _ _ := rfl

/-- The copies of the stored heads are what the attention itself makes for its heads. -/
theorem headLayer_maps :
    CausalLayer.Maps block.layer block.headLayer (fun token => token)
      (block.expandState : State config batch F → HeadState config batch F)
      (fun output => output) where
  newState position token := by
    unfold expandState
    simp only [storedHead_eq]
    rfl
  output position token states := by
    have hexpanded (row : Fin batch) : (fun state : HeadState config batch F =>
        (state.keys (Fin.last 0) row, state.values (Fin.last 0) row)) ∘ block.expandState =
        headKeyValue ∘ rowState row := by
      funext state
      unfold expandState
      simp only [Function.comp_apply, storedHead_eq]
      rfl
    unfold headLayer layer rowLayer
    funext row
    dsimp only
    rw [List.map_map, List.map_map, hexpanded]

theorem decoderLayer_eq (past : List (HeadState config batch F))
    (hiddenStates : List (Fin batch → Fin config.hiddenSize → F)) :
    block.decoderLayer (some past) hiddenStates = block.headLayer.run past hiddenStates := by
  have hstates : (block.selfAttention (some past) (hiddenStates.map fun token row =>
      block.attentionLayernorm (token row))).2 = block.headLayer.states past hiddenStates := by
    unfold selfAttention CausalLayer.states
    dsimp only [Option.getD_some]
    rw [mapIdx_map]
    rfl
  unfold decoderLayer CausalLayer.run
  refine Prod.ext ?_ hstates
  rw [← hstates]
  unfold selfAttention
  dsimp only [Option.getD_some]
  rw [zipWith_mapIdx_map]
  rfl

theorem forward_eq (layerPast : Option (LayerPast config.kvHeads batch config.headDim F))
    (hiddenStates : List (Fin batch → Fin config.hiddenSize → F)) :
    block.forward layerPast hiddenStates =
      ((block.layer.run (layerPast.elim [] LayerPast.slots) hiddenStates).1,
        .ofSlots (block.layer.run (layerPast.elim [] LayerPast.slots) hiddenStates).2) := by
  have hrun (past : List (State config batch F)) :
      block.decoderLayer (some (past.map block.expandState)) hiddenStates =
        ((block.layer.run past hiddenStates).1,
          (block.layer.run past hiddenStates).2.map block.expandState) := by
    have hmaps := block.headLayer_maps.run past hiddenStates
    rw [List.map_id', List.map_id'] at hmaps
    rw [decoderLayer_eq, hmaps]
  have hcollapse (states : List (State config batch F)) :
      (states.map block.expandState).map block.collapseState = states := by
    rw [List.map_map]
    exact (List.map_congr_left fun state _ => block.collapseState_expandState state).trans
      (List.map_id _)
  have hforward (past : List (State config batch F)) :
      ((block.decoderLayer (some (past.map block.expandState)) hiddenStates).1,
        LayerPast.ofSlots ((block.decoderLayer (some (past.map block.expandState))
          hiddenStates).2.map block.collapseState)) =
        ((block.layer.run past hiddenStates).1,
          .ofSlots (block.layer.run past hiddenStates).2) := by
    rw [hrun]
    dsimp only
    rw [hcollapse]
  cases layerPast with
  | none => exact hforward []
  | some layerPast => exact hforward layerPast.slots

section tensors

def cacheTensors (past : LayerPast config.kvHeads batch config.headDim F) : KVCache F :=
  (⟨[batch * config.numKvHeads, config.headDim, past.kvLength],
      fun (row, dim, position, _) => past.keys (Fin.last 0) row dim position⟩,
    ⟨[batch * config.numKvHeads, past.kvLength, config.headDim],
      fun (row, position, dim, _) => past.values (Fin.last 0) row position dim⟩)

def headTensors (past : LayerPast config.kvHeads batch config.headDim F) : KVCache F :=
  (⟨[batch * config.numAttentionHeads, past.kvLength, config.headDim],
      fun (row, position, dim, _) => (block.expandState (past.slotAt position)).keys (Fin.last 0)
        row.divNat row.modNat dim⟩,
    ⟨[batch * config.numAttentionHeads, past.kvLength, config.headDim],
      fun (row, position, dim, _) => (block.expandState (past.slotAt position)).values (Fin.last 0)
        row.divNat row.modNat dim⟩)

omit [Field F] in
theorem reorderCache_slots (hnew : config.newDecoderArchitecture = true)
    (past : LayerPast config.kvHeads batch config.headDim F) :
    config.reorderCacheFromBloomToFalcon (cacheTensors past) = some (block.headTensors past) ∧
      config.reorderCacheFromFalconToBloom (block.headTensors past) = some (cacheTensors past) := by
  let keyHeads (sequence : Fin batch) (kvHead : Fin config.numKvHeads) :
      Index [past.kvLength, config.headDim] → F :=
    fun (position, dim, _) => past.keys (Fin.last 0) (Fin.mkDivMod sequence kvHead) dim position
  let valueHeads (sequence : Fin batch) (kvHead : Fin config.numKvHeads) :
      Index [past.kvLength, config.headDim] → F :=
    fun (position, dim, _) => past.values (Fin.last 0) (Fin.mkDivMod sequence kvHead) position dim
  have hstored : cacheTensors past = FalconConfig.bloomCache keyHeads valueHeads := by
    unfold cacheTensors FalconConfig.bloomCache FalconConfig.storedHeads
    simp only [keyHeads, valueHeads, Fin.divNat_mkDivMod_modNat]
  have hheads : block.headTensors past =
      (config.repeatedHeads keyHeads, config.repeatedHeads valueHeads) := by
    unfold headTensors expandState
    simp only [storedHead_eq]
    rfl
  rw [hstored, hheads]
  exact ⟨FalconConfig.reorderCacheFromBloomToFalcon_eq hnew _ _,
    FalconConfig.reorderCacheFromFalconToBloom_eq hnew _ _⟩

end tensors

def toBackend (dtype : DType) (maxChunkSizeBytes : Nat) :
    ShardedBackend config.kvHeads batch config.headDim (Fin config.hiddenSize → F) F where
  shardNumHeads := [config.numAttentionHeads]
  numAttentionHeads := config.numAttentionHeads
  heads_length := rfl
  heads_sum := List.sum_singleton
  heads_pos := config.heads_pos
  dtype := dtype
  maxChunkSizeBytes := maxChunkSizeBytes
  forward layerPast hiddenStates := block.forward (some layerPast) hiddenStates

def rowBlock (dtype : DType) (maxChunkSizeBytes : Nat) :
    AttentionBlock (Fin config.hiddenSize → F) (KeyValue config F) 1 :=
  layerBlock block.rowLayer (fun _ keyValue => keyValue) maxChunkSizeBytes config.numAttentionHeads
    (getSizeInBytes dtype)

end FalconBlock
end Peerz.Models
