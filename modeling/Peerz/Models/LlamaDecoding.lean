import Mathlib.Algebra.BigOperators.Ring.Finset
import Mathlib.Logic.Equiv.Fin.Basic
import Peerz.Models.Llama
import Peerz.Server.CausalBackend

/-! A Llama block decodes token by token: what it makes of a token depends on the earlier tokens of
the same sequence alone, and on those only by their keys and values. -/
namespace Peerz.Models
open Library Server

section linear
variable {F : Type} [Field F] {inFeatures outFeatures slices : Nat}

theorem slicePosition_divNat_modNat {size : Nat} (h : slices ∣ size) (position : Fin size) :
    let sliced := Fin.cast (Nat.mul_div_cancel' h).symm position
    slicePosition h sliced.divNat sliced.modNat = position := by
  intro sliced
  unfold slicePosition
  rw [Fin.divNat_mkDivMod_modNat]
  rfl

namespace Linear

theorem slicedRows_eq (h : slices ∣ outFeatures) (layer : Linear F inFeatures outFeatures)
    (input : Fin inFeatures → F) : layer.slicedRows h input = linear layer.weight input := by
  funext row
  unfold slicedRows linear
  dsimp only
  rw [slicePosition_divNat_modNat h row]

theorem slicedColumns_eq (h : slices ∣ inFeatures) (layer : Linear F inFeatures outFeatures)
    (input : Fin inFeatures → F) : layer.slicedColumns h input = linear layer.weight input := by
  funext row
  unfold slicedColumns linear
  rw [← Fintype.sum_prod_type']
  apply Fintype.sum_equiv (finProdFinEquiv.trans (finCongr (Nat.mul_div_cancel' h)))
  rintro ⟨slice, position⟩
  have hposition : slicePosition h slice position =
      finProdFinEquiv.trans (finCongr (Nat.mul_div_cancel' h)) (slice, position) := by
    apply Fin.ext
    simp [slicePosition, Nat.add_comm]
  dsimp only
  rw [hposition]

end Linear
end linear

namespace LlamaBlock

variable {config : LlamaConfig} {F : Type} [Field F] {batch : Nat}

/-- Without biases the slices compute what the whole layer does. -/
theorem project_eq {outFeatures : Nat} (h : config.pretrainingTp ∣ outFeatures)
    (layer : Linear F config.hiddenSize outFeatures) (hbias : layer.bias = 0) :
    project h layer = layer.forward := by
  funext hiddenStates row
  unfold project Linear.forward
  split
  · rw [layer.slicedRows_eq h, hbias]
    exact (add_zero _).symm
  · rfl

theorem projectOutput_eq (block : LlamaBlock config F) (hbias : block.oProj.bias = 0) :
    block.projectOutput = block.oProj.forward := by
  funext attnOutput row
  unfold projectOutput Linear.forward
  split
  · rw [block.oProj.slicedColumns_eq, hbias]
    exact (add_zero _).symm
  · rfl

abbrev KeyValue (config : LlamaConfig) (F : Type) :=
  (Fin config.numKeyValueHeads → Fin config.headDim → F) ×
    (Fin config.numKeyValueHeads → Fin config.headDim → F)

def rowState (row : Fin batch) (state : State config batch F) : KeyValue config F :=
  (state.keys (Fin.last 0) row, state.values (Fin.last 0) row)

variable (block : LlamaBlock config F)

theorem attnOutput_append (query : Fin config.numHeads → Fin config.headDim → F) {visible : Nat}
    {keyValues : List (KeyValue config F)} (h : visible ≤ keyValues.length)
    (later : List (KeyValue config F)) :
    block.attnOutput query visible (keyValues ++ later) =
      block.attnOutput query visible keyValues := by
  unfold attnOutput
  apply congrArg block.projectOutput
  funext column
  dsimp only
  rw [List.map_append, List.map_append]
  exact attend_append block.exp (by rwa [List.length_map]) (by rw [List.length_map, List.length_map])
    _ _

def rowLayer : CausalLayer (Fin config.hiddenSize → F) (KeyValue config F)
    (Fin config.hiddenSize → F) where
  newState position token :=
    let hiddenStates := block.inputLayernorm token
    (block.keyStates hiddenStates position, block.valueStates hiddenStates)
  output position token keyValues :=
    let hiddenStates := block.inputLayernorm token
    let residual := token + block.attnOutput (block.queryStates hiddenStates position)
      (position + 1) keyValues
    residual + block.mlp (block.postAttentionLayernorm residual)
  causal position token keyValues later h := by
    dsimp only
    rw [block.attnOutput_append _ h]

def layer : CausalLayer (Fin batch → Fin config.hiddenSize → F) (State config batch F)
    (Fin batch → Fin config.hiddenSize → F) where
  newState position token :=
    ⟨fun _ row => (block.rowLayer.newState position (token row)).1,
      fun _ row => (block.rowLayer.newState position (token row)).2⟩
  output position token states :=
    fun row => block.rowLayer.output position (token row) (states.map (rowState row))
  causal position token states later h := by
    funext row
    rw [List.map_append]
    exact block.rowLayer.causal _ _ _ _ (by rwa [List.length_map])

theorem layer_maps (row : Fin batch) :
    block.layer.Maps block.rowLayer (fun token => token row) (rowState row)
      (fun output => output row) where
  newState _ _ := rfl
  output _ _ _ := rfl

theorem decoderLayer_eq (past : List (State config batch F))
    (hiddenStates : List (Fin batch → Fin config.hiddenSize → F)) :
    block.decoderLayer (some past) hiddenStates = block.layer.run past hiddenStates := by
  have hstates : (block.attention (some past) (hiddenStates.map fun token row =>
      block.inputLayernorm (token row))).2 = block.layer.states past hiddenStates := by
    unfold attention CausalLayer.states
    dsimp only [Option.getD_some]
    rw [mapIdx_map]
    rfl
  unfold decoderLayer CausalLayer.run
  refine Prod.ext ?_ hstates
  rw [← hstates]
  unfold attention
  dsimp only [Option.getD_some]
  rw [zipWith_mapIdx_map]
  rfl

theorem forward_eq (layerPast : Option (LayerPast config.kvHeads batch config.headDim F))
    (hiddenStates : List (Fin batch → Fin config.hiddenSize → F)) :
    block.forward layerPast hiddenStates =
      ((block.layer.run (layerPast.elim [] LayerPast.slots) hiddenStates).1,
        .ofSlots (block.layer.run (layerPast.elim [] LayerPast.slots) hiddenStates).2) := by
  rw [← decoderLayer_eq]
  cases layerPast with
  | none => rfl
  | some layerPast => rfl

def decodeRow (past : List (KeyValue config F)) (token : Fin config.hiddenSize → F) :
    (Fin config.hiddenSize → F) × KeyValue config F :=
  let hiddenStates := block.inputLayernorm token
  let keyValue := (block.keyStates hiddenStates past.length, block.valueStates hiddenStates)
  let residual := token + block.attnOutput (block.queryStates hiddenStates past.length)
    (past.length + 1) (past ++ [keyValue])
  (residual + block.mlp (block.postAttentionLayernorm residual), keyValue)

def extendRow (past : List (KeyValue config F)) (token : Fin config.hiddenSize → F) :
    (Fin config.hiddenSize → F) × List (KeyValue config F) :=
  let (output, keyValue) := block.decodeRow past token
  (output, past ++ [keyValue])

def toBackend (dtype : DType) (maxChunkSizeBytes : Nat) :
    ShardedBackend config.kvHeads batch config.headDim (Fin config.hiddenSize → F) F where
  shardNumHeads := [config.numHeads]
  numAttentionHeads := config.numHeads
  heads_length := rfl
  heads_sum := List.sum_singleton
  heads_pos := config.heads_pos
  dtype := dtype
  maxChunkSizeBytes := maxChunkSizeBytes
  forward layerPast hiddenStates := block.forward (some layerPast) hiddenStates

def rowBlock (dtype : DType) (maxChunkSizeBytes : Nat) :
    AttentionBlock (Fin config.hiddenSize → F) (KeyValue config F) 1 where
  forward := transduce (extendPast fun past token =>
    let (output, keyValue) := block.decodeRow (past (Fin.last 0)) token
    (output, fun _ => keyValue))
  decode past token :=
    let (output, keyValue) := block.decodeRow (past (Fin.last 0)) token
    (output, fun _ => keyValue)
  forward_eq _ _ _ := rfl
  reorderSlot _ slot := slot
  maxChunkSizeBytes := maxChunkSizeBytes
  maxShardNumHeads := config.numHeads
  dtypeBytes := getSizeInBytes dtype

end LlamaBlock
end Peerz.Models
