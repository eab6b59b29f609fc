import Peerz.Library.Attention
import Peerz.Models.Linear
import Peerz.Server.CacheSlots

/-! A block of a Llama model as a server runs it on a device other than CUDA. The norms, the
feed-forward layer and the rotary embedding are those of the library that it builds on. -/
namespace Peerz.Models
open Library Server

/-- The layers can be split into as many slices as the model was trained with. -/
structure LlamaConfig where
  numKeyValueHeads : Nat
  /-- the number of attention heads of one key/value head -/
  numKeyValueGroups : Nat
  headDim : Nat
  pretrainingTp : Nat
  heads_pos : 0 < numKeyValueHeads * numKeyValueGroups
  tp_dvd : pretrainingTp ∣ numKeyValueHeads * headDim

namespace LlamaConfig

abbrev numHeads (config : LlamaConfig) : Nat := config.numKeyValueHeads * config.numKeyValueGroups

abbrev hiddenSize (config : LlamaConfig) : Nat := config.numHeads * config.headDim

abbrev keyValueSize (config : LlamaConfig) : Nat := config.numKeyValueHeads * config.headDim

theorem tp_dvd_hiddenSize (config : LlamaConfig) : config.pretrainingTp ∣ config.hiddenSize := by
  have hsize : config.hiddenSize = config.keyValueSize * config.numKeyValueGroups :=
    Nat.mul_right_comm ..
  rw [hsize]
  exact config.tp_dvd.mul_right _

abbrev kvHeads (config : LlamaConfig) : Fin 1 → Nat := fun _ => config.numKeyValueHeads

end LlamaConfig

section linear
variable {F : Type} [Field F] {inFeatures outFeatures slices : Nat}

def slicePosition {size : Nat} (h : slices ∣ size) (slice : Fin slices)
    (position : Fin (size / slices)) : Fin size :=
  Fin.cast (Nat.mul_div_cancel' h) (Fin.mkDivMod slice position)

namespace Linear

def slicedRows (h : slices ∣ outFeatures) (layer : Linear F inFeatures outFeatures)
    (input : Fin inFeatures → F) : Fin outFeatures → F :=
  fun row =>
    let row := Fin.cast (Nat.mul_div_cancel' h).symm row
    linear (fun position => layer.weight (slicePosition h row.divNat position)) input row.modNat

def slicedColumns (h : slices ∣ inFeatures) (layer : Linear F inFeatures outFeatures)
    (input : Fin inFeatures → F) : Fin outFeatures → F :=
  fun row => ∑ slice,
    linear (fun row position => layer.weight row (slicePosition h slice position))
      (fun position => input (slicePosition h slice position)) row

end Linear
end linear

structure LlamaBlock (config : LlamaConfig) (F : Type) where
  device : Device
  /-- on CUDA steps of one token go through captured graphs instead, which have a fixed batch size -/
  notCuda : device ≠ .cuda
  qProj : Linear F config.hiddenSize config.hiddenSize
  kProj : Linear F config.hiddenSize config.keyValueSize
  vProj : Linear F config.hiddenSize config.keyValueSize
  oProj : Linear F config.hiddenSize config.hiddenSize
  inputLayernorm : (Fin config.hiddenSize → F) → Fin config.hiddenSize → F
  postAttentionLayernorm : (Fin config.hiddenSize → F) → Fin config.hiddenSize → F
  mlp : (Fin config.hiddenSize → F) → Fin config.hiddenSize → F
  /-- `rotary_emb`, for each position -/
  cos : Nat → Fin config.headDim → F
  sin : Nat → Fin config.headDim → F
  rotateHalf : (Fin config.headDim → F) → Fin config.headDim → F
  exp : F → F
  sqrtHeadDim : F

namespace LlamaBlock

variable {config : LlamaConfig} {F : Type} [Field F] {batch : Nat}

abbrev State (config : LlamaConfig) (batch : Nat) (F : Type) :=
  CacheSlot config.kvHeads batch config.headDim F

variable (block : LlamaBlock config F)

def project {outFeatures : Nat} (h : config.pretrainingTp ∣ outFeatures)
    (layer : Linear F config.hiddenSize outFeatures) (hiddenStates : Fin config.hiddenSize → F) :
    Fin outFeatures → F :=
  if 1 < config.pretrainingTp then layer.slicedRows h hiddenStates else layer.forward hiddenStates

def projectOutput (attnOutput : Fin config.hiddenSize → F) : Fin config.hiddenSize → F :=
  if 1 < config.pretrainingTp then block.oProj.slicedColumns config.tp_dvd_hiddenSize attnOutput
  else block.oProj.forward attnOutput

def applyRotaryPosEmb (states : Fin config.headDim → F) (position : Nat) :
    Fin config.headDim → F :=
  fun dim =>
    states dim * block.cos position dim + block.rotateHalf states dim * block.sin position dim

def queryStates (hiddenStates : Fin config.hiddenSize → F) (position : Nat)
    (head : Fin config.numHeads) : Fin config.headDim → F :=
  block.applyRotaryPosEmb
    (fun dim => project config.tp_dvd_hiddenSize block.qProj hiddenStates (Fin.mkDivMod head dim))
    position

def keyStates (hiddenStates : Fin config.hiddenSize → F) (position : Nat)
    (head : Fin config.numKeyValueHeads) : Fin config.headDim → F :=
  block.applyRotaryPosEmb
    (fun dim => project config.tp_dvd block.kProj hiddenStates (Fin.mkDivMod head dim)) position

def valueStates (hiddenStates : Fin config.hiddenSize → F) (head : Fin config.numKeyValueHeads)
    (dim : Fin config.headDim) : F :=
  project config.tp_dvd block.vProj hiddenStates (Fin.mkDivMod head dim)

/-- The attention of a query. With `repeat_kv` each of its heads has the key/value head of its
group. -/
def attnOutput (query : Fin config.numHeads → Fin config.headDim → F) (visible : Nat)
    (keyValues : List ((Fin config.numKeyValueHeads → Fin config.headDim → F) ×
      (Fin config.numKeyValueHeads → Fin config.headDim → F))) : Fin config.hiddenSize → F :=
  block.projectOutput fun column =>
    let head := column.divNat
    attend block.exp visible
      (keyValues.map fun keyValue =>
        (∑ dim, query head dim * keyValue.1 head.divNat dim) / block.sqrtHeadDim)
      (keyValues.map fun keyValue => keyValue.2 head.divNat column.modNat)

/-- `OptimizedLlamaAttention.forward`, on positions that continue those of the past. -/
def attention (pastKeyValue : Option (List (State config batch F)))
    (hiddenStates : List (Fin batch → Fin config.hiddenSize → F)) :
    List (Fin batch → Fin config.hiddenSize → F) × List (State config batch F) :=
  let pastSeenTokens := (pastKeyValue.getD []).length
  let newStates : List (State config batch F) := hiddenStates.mapIdx fun index token =>
    { keys := fun _ row => block.keyStates (token row) (pastSeenTokens + index)
      values := fun _ row => block.valueStates (token row) }
  let states := pastKeyValue.getD [] ++ newStates
  let outputs := hiddenStates.mapIdx fun index token row =>
    block.attnOutput (block.queryStates (token row) (pastSeenTokens + index))
      (pastSeenTokens + index + 1)
      (states.map fun state => (state.keys (Fin.last 0) row, state.values (Fin.last 0) row))
  (outputs, states)

/-- `OptimizedLlamaDecoderLayer.forward`. -/
def decoderLayer (pastKeyValue : Option (List (State config batch F)))
    (hiddenStates : List (Fin batch → Fin config.hiddenSize → F)) :
    List (Fin batch → Fin config.hiddenSize → F) × List (State config batch F) :=
  let (attnOutputs, present) := block.attention pastKeyValue
    (hiddenStates.map fun token row => block.inputLayernorm (token row))
  let outputs := List.zipWith (fun token attnOutput row =>
    let residual := token row + attnOutput row
    residual + block.mlp (block.postAttentionLayernorm residual)) hiddenStates attnOutputs
  (outputs, present)

/-- The cache by positions, with a dimension for the heads. -/
def reorderCacheFromBloomToLlama (keyValue : LayerPast config.kvHeads batch config.headDim F) :
    List (State config batch F) :=
  keyValue.slots

def reorderCacheFromLlamaToBloom (keyValue : List (State config batch F)) :
    LayerPast config.kvHeads batch config.headDim F :=
  .ofSlots keyValue

/-- `WrappedLlamaBlock.forward` with `use_cache`, where no graphs are captured. -/
def forward (layerPast : Option (LayerPast config.kvHeads batch config.headDim F))
    (hiddenStates : List (Fin batch → Fin config.hiddenSize → F)) :
    List (Fin batch → Fin config.hiddenSize → F) ×
      LayerPast config.kvHeads batch config.headDim F :=
  let (outputs, present) :=
    block.decoderLayer (layerPast.map reorderCacheFromBloomToLlama) hiddenStates
  (outputs, reorderCacheFromLlamaToBloom present)

end LlamaBlock
end Peerz.Models
