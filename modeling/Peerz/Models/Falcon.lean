import Peerz.Library.Tensors

/-! The attention cache of a Falcon block. The server keeps one entry for each key/value head, the
attention one for each of its heads, so a block repeats the stored heads before a step and drops
the copies after it. -/
namespace Peerz.Models
open Library

/-- The attention heads are a multiple of the key/value heads. -/
structure FalconConfig where
  numAttentionHeads : Nat
  numKvHeads : Nat
  headDim : Nat
  newDecoderArchitecture : Bool
  multiQuery : Bool
  heads_pos : 0 < numAttentionHeads
  kvHeads_dvd : numKvHeads ∣ numAttentionHeads

abbrev KVCache (α : Type) := Tensor α × Tensor α

variable {α : Type}

namespace FalconConfig
variable (config : FalconConfig)

def numKeyValueGroups : Nat :=
  if config.newDecoderArchitecture then config.numAttentionHeads / config.numKvHeads
  else if config.multiQuery then config.numAttentionHeads
  else 1

def qkvOutDim : Nat := (config.numKvHeads * 2 + config.numAttentionHeads) * config.headDim

def expandStates (state : Tensor α) : Option (Tensor α) :=
  match state.shape with
  | [rows, seqLen, headDim] => do
      let batchSize := rows / config.numKvHeads
      let state ← state.view? [batchSize, config.numKvHeads, 1, seqLen, headDim]
      let state ← state.broadcastTo? (state.shape.set 2 config.numKeyValueGroups)
      state.view? [batchSize * config.numAttentionHeads, seqLen, headDim]
  | _ => none

def collapseStates (state : Tensor α) : Option (Tensor α) :=
  match state.shape with
  | [rows, seqLen, headDim] => do
      let batchSize := rows / config.numAttentionHeads
      let state ← state.view?
        [batchSize, config.numKvHeads, config.numKeyValueGroups, seqLen, headDim]
      let state ← state.select? 0
      state.view? [batchSize * config.numKvHeads, seqLen, headDim]
  | _ => none

/-- `none` is a failed view or the assertion on the shapes. -/
def reorderCacheFromBloomToFalcon (keyValue : KVCache α) : Option (KVCache α) := do
  let keyStates ← keyValue.1.transpose?
  if keyStates.shape = keyValue.2.shape then
    if config.newDecoderArchitecture then
      let keyStates ← config.expandStates keyStates
      let valueStates ← config.expandStates keyValue.2
      pure (keyStates, valueStates)
    else pure (keyStates, keyValue.2)
  else none

def reorderCacheFromFalconToBloom (keyValue : KVCache α) : Option (KVCache α) := do
  let (keyStates, valueStates) ←
    if config.newDecoderArchitecture then do
      let keyStates ← config.collapseStates keyValue.1
      let valueStates ← config.collapseStates keyValue.2
      pure (keyStates, valueStates)
    else some keyValue
  if keyStates.shape = valueStates.shape then
    let keyStates ← keyStates.transpose?
    pure (keyStates, valueStates)
  else none

/-- Each key/value head has its query heads, then its key and its value. -/
def splitHeads (fusedQkv : Tensor α) : Option (Tensor α × Tensor α × Tensor α) :=
  match fusedQkv.shape with
  | [batch, seqLen, _] => do
      let groups := config.numAttentionHeads / config.numKvHeads
      let kvHeads ← fusedQkv.inferSize? [batch, seqLen, groups + 2, config.headDim]
      let qkv ← fusedQkv.view? [batch, seqLen, kvHeads, groups + 2, config.headDim]
      let query ← qkv.narrow? 0 groups
      let key ← qkv.narrow? groups 1
      let value ← qkv.narrow? (groups + 1) 1
      let key ← key.broadcastTo? query.shape
      let value ← value.broadcastTo? query.shape
      let query ← query.flatten?
      let key ← key.flatten?
      let value ← value.flatten?
      pure (query, key, value)
  | _ => none

/-- `layer.transpose(1, 2).reshape(batch_size * num_heads, query_length, head_dim)`. -/
def flattenHeads (layer : Tensor α) : Option (Tensor α) :=
  match layer.shape with
  | [batchSize, queryLength, _, _] => do
      let layer ← layer.transpose?
      layer.view? [batchSize * config.numAttentionHeads, queryLength, config.headDim]
  | _ => none

/-- The keys and values of new tokens, as the attention takes them. -/
def keyValueLayers (fusedQkv : Tensor α) : Option (KVCache α) := do
  let (_, keyLayer, valueLayer) ← config.splitHeads fusedQkv
  let keyLayer ← config.flattenHeads keyLayer
  let valueLayer ← config.flattenHeads valueLayer
  pure (keyLayer, valueLayer)

/-- `apply_rotary` of the keys, with the cosines and sines of the positions; `rotateHalf` acts on
the last dimension. -/
def applyRotary [Add α] [Mul α] (rotateHalf : (dims : Nat) → (Fin dims → α) → Fin dims → α)
    (cos sin : Nat → Nat → α) : Tensor α → Tensor α
  | ⟨[rows, seqLen, dims], key⟩ => ⟨[rows, seqLen, dims], fun (row, position, dim, _) =>
      key (row, position, dim, ()) * cos position dim +
        rotateHalf dims (fun dim => key (row, position, dim, ())) dim * sin position dim⟩
  | tensor => tensor

/-- The `present` of the attention, with the embedding `rotary` of the keys after a number of
past tokens. -/
def present (rotary : Nat → Tensor α → Tensor α) (fusedQkv : Tensor α)
    (layerPast : Option (KVCache α)) : Option (KVCache α) := do
  let (keyLayer, valueLayer) ← config.keyValueLayers fusedQkv
  let pastKvLength := layerPast.elim 0 fun past => past.1.shape.getD 1 0
  let keyLayer := rotary pastKvLength keyLayer
  match layerPast with
  | none => pure (keyLayer, valueLayer)
  | some (pastKey, pastValue) => do
      let keyLayer ← pastKey.cat? keyLayer
      let valueLayer ← pastValue.cat? valueLayer
      pure (keyLayer, valueLayer)

/-- A map that treats all heads of a group alike: one function for each key/value head of each
sequence of the batch, applied to the tokens of a head. -/
def mapHeads (f : Nat → (rest : List Nat) → (Index rest → α) → Index rest → α) :
    Tensor α → Tensor α
  | ⟨rows :: rest, entry⟩ => ⟨rows :: rest, fun (row, index) =>
      f (row / config.numKeyValueGroups) rest (fun index => entry (row, index)) index⟩
  | tensor => tensor

end FalconConfig
end Peerz.Models
