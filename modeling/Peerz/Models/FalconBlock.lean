import Peerz.Library.Attention
import Peerz.Models.FalconCache
import Peerz.Models.Linear
import Peerz.Server.CacheSlots

/-! A block of a Falcon model as a server runs it on a device other than CUDA. The norms, the
feed-forward layer, the rotary embedding and the biases of ALiBi are those of the library that it
builds on. -/
namespace Peerz.Models
open Library Server

namespace FalconConfig

abbrev hiddenSize (config : FalconConfig) : Nat := config.numAttentionHeads * config.headDim

abbrev kvHeads (config : FalconConfig) : Fin 1 → Nat := fun _ => config.numKvHeads

abbrev heads (config : FalconConfig) : Fin 1 → Nat := fun _ => config.numAttentionHeads

end FalconConfig

/-- A model has either a rotary embedding or the biases of ALiBi, by positions. -/
inductive FalconPositions (config : FalconConfig) (F : Type) where
  | rotary (cos sin : Nat → Fin config.headDim → F)
      (rotateHalf : (Fin config.headDim → F) → Fin config.headDim → F)
  | alibi (bias : Fin config.numAttentionHeads → Nat → F)

structure FalconBlock (config : FalconConfig) (F : Type) where
  device : Device
  /-- on CUDA steps of one token go through captured graphs instead, which have a fixed batch size,
  and one of which writes to the cached cosines and sines -/
  notCuda : device ≠ .cuda
  /-- without the new decoder architecture each head has keys and values of its own -/
  ownHeads : config.newDecoderArchitecture = true ∨ config.numKvHeads = config.numAttentionHeads
  parallelAttn : Bool
  queryKeyValue : Linear F config.hiddenSize config.qkvOutDim
  dense : Linear F config.hiddenSize config.hiddenSize
  lnAttn : (Fin config.hiddenSize → F) → Fin config.hiddenSize → F
  lnMlp : (Fin config.hiddenSize → F) → Fin config.hiddenSize → F
  inputLayernorm : (Fin config.hiddenSize → F) → Fin config.hiddenSize → F
  postAttentionLayernorm : (Fin config.hiddenSize → F) → Fin config.hiddenSize → F
  mlp : (Fin config.hiddenSize → F) → Fin config.hiddenSize → F
  positions : FalconPositions config F
  exp : F → F
  invNormFactor : F

namespace FalconBlock

variable {config : FalconConfig} {F : Type} [Field F] {batch : Nat}

/-- Keys and values of the sequences of a batch at one position, as the server stores them. -/
abbrev State (config : FalconConfig) (batch : Nat) (F : Type) :=
  CacheSlot config.kvHeads batch config.headDim F

abbrev HeadState (config : FalconConfig) (batch : Nat) (F : Type) :=
  CacheSlot config.heads batch config.headDim F

variable (block : FalconBlock config F)

section projection
variable (hiddenStates : Fin config.hiddenSize → F)

/-- The part of the fused projection for a query, the key or the value of a key/value head. The old
architecture splits it in the same way, with one query for each head. -/
def fusedQkv (kvHead : Fin config.numKvHeads) (slot : Fin (config.groupSize + 2)) :
    Fin config.headDim → F :=
  fun dim => block.queryKeyValue.forward hiddenStates (FalconConfig.column kvHead slot dim)

def maybeRotary (position : Nat) (states : Fin config.headDim → F) : Fin config.headDim → F :=
  match block.positions with
  | .rotary cos sin rotateHalf => fun dim =>
      states dim * cos position dim + rotateHalf states dim * sin position dim
  | .alibi _ => states

def queryLayer (position : Nat) (head : Fin config.numAttentionHeads) : Fin config.headDim → F :=
  block.maybeRotary position (block.fusedQkv hiddenStates (config.kvHead head)
    (Fin.castAdd 2 (config.member head)))

def keyLayer (position : Nat) (head : Fin config.numAttentionHeads) : Fin config.headDim → F :=
  block.maybeRotary position (block.fusedQkv hiddenStates (config.kvHead head) config.keySlot)

def valueLayer (head : Fin config.numAttentionHeads) : Fin config.headDim → F :=
  block.fusedQkv hiddenStates (config.kvHead head) config.valueSlot

end projection

def attentionLogit (head : Fin config.numAttentionHeads) (position : Nat) (score : F) : F :=
  match block.positions with
  | .rotary _ _ _ => score * block.invNormFactor
  | .alibi bias => (score + bias head position) * block.invNormFactor

def attnOutput (query : Fin config.numAttentionHeads → Fin config.headDim → F) (visible : Nat)
    (keyValues : List ((Fin config.numAttentionHeads → Fin config.headDim → F) ×
      (Fin config.numAttentionHeads → Fin config.headDim → F))) : Fin config.hiddenSize → F :=
  block.dense.forward fun column =>
    let head := column.divNat
    attend block.exp visible
      (keyValues.mapIdx fun position keyValue =>
        block.attentionLogit head position (∑ dim, query head dim * keyValue.1 head dim))
      (keyValues.map fun keyValue => keyValue.2 head column.modNat)

/-- `OptimizedFalconAttention.forward`, with the cache of each attention head. -/
def selfAttention (layerPast : Option (List (HeadState config batch F)))
    (hiddenStates : List (Fin batch → Fin config.hiddenSize → F)) :
    List (Fin batch → Fin config.hiddenSize → F) × List (HeadState config batch F) :=
  let pastKvLength := (layerPast.getD []).length
  let newStates : List (HeadState config batch F) := hiddenStates.mapIdx fun index token =>
    { keys := fun _ row => block.keyLayer (token row) (pastKvLength + index)
      values := fun _ row => block.valueLayer (token row) }
  let present := layerPast.getD [] ++ newStates
  let outputs := hiddenStates.mapIdx fun index token row =>
    block.attnOutput (block.queryLayer (token row) (pastKvLength + index))
      (pastKvLength + index + 1)
      (present.map fun state => (state.keys (Fin.last 0) row, state.values (Fin.last 0) row))
  (outputs, present)

def attentionLayernorm (hiddenStates : Fin config.hiddenSize → F) : Fin config.hiddenSize → F :=
  if config.newDecoderArchitecture then block.lnAttn hiddenStates
  else block.inputLayernorm hiddenStates

def feedForward (hiddenStates attentionOutput : Fin config.hiddenSize → F) :
    Fin config.hiddenSize → F :=
  if config.newDecoderArchitecture then
    block.mlp (block.lnMlp hiddenStates) + attentionOutput + hiddenStates
  else if block.parallelAttn then
    block.mlp (block.inputLayernorm hiddenStates) + attentionOutput + hiddenStates
  else
    let residual := attentionOutput + hiddenStates
    block.mlp (block.postAttentionLayernorm residual) + residual

/-- `OptimizedFalconDecoderLayer.forward`. -/
def decoderLayer (layerPast : Option (List (HeadState config batch F)))
    (hiddenStates : List (Fin batch → Fin config.hiddenSize → F)) :
    List (Fin batch → Fin config.hiddenSize → F) × List (HeadState config batch F) :=
  let (attnOutputs, present) := block.selfAttention layerPast
    (hiddenStates.map fun token row => block.attentionLayernorm (token row))
  let outputs := List.zipWith (fun token attnOutput row =>
    block.feedForward (token row) (attnOutput row)) hiddenStates attnOutputs
  (outputs, present)

/-- The stored head whose copies an attention head reads. -/
def storedHead (head : Fin config.numAttentionHeads) : Fin config.numKvHeads :=
  if h : config.newDecoderArchitecture = true then config.kvHead head
  else Fin.cast (block.ownHeads.resolve_left h).symm head

/-- The attention head that is kept for a stored head. -/
def keptHead (kvHead : Fin config.numKvHeads) : Fin config.numAttentionHeads :=
  if h : config.newDecoderArchitecture = true then config.headOf kvHead ⟨0, config.groupSize_pos⟩
  else Fin.cast (block.ownHeads.resolve_left h) kvHead

/-- `_expand_states`, at one position. -/
def expandState (state : State config batch F) : HeadState config batch F where
  keys _ row head := state.keys (Fin.last 0) row (block.storedHead head)
  values _ row head := state.values (Fin.last 0) row (block.storedHead head)

/-- `_collapse_states`, at one position. -/
def collapseState (state : HeadState config batch F) : State config batch F where
  keys _ row kvHead := state.keys (Fin.last 0) row (block.keptHead kvHead)
  values _ row kvHead := state.values (Fin.last 0) row (block.keptHead kvHead)

/-- `WrappedFalconBlock.forward` with `use_cache`, where no graphs are captured. -/
def forward (layerPast : Option (LayerPast config.kvHeads batch config.headDim F))
    (hiddenStates : List (Fin batch → Fin config.hiddenSize → F)) :
    List (Fin batch → Fin config.hiddenSize → F) ×
      LayerPast config.kvHeads batch config.headDim F :=
  let (outputs, present) := block.decoderLayer
    (layerPast.map fun past => past.slots.map block.expandState) hiddenStates
  (outputs, .ofSlots (present.map block.collapseState))

end FalconBlock
end Peerz.Models
