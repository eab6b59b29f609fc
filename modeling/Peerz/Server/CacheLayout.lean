import Mathlib.Data.Fin.Tuple.Basic
import Peerz.Library.PySequence
import Peerz.Library.Transducer
import Peerz.Server.CacheDescriptors

/-! An inference step of a block over the cache tensors as they lie in memory, on one device or
several. Keys and values have their positions in different dimensions, and the module sees the
sequences of the batch and their heads as one dimension. -/
namespace Peerz.Server
open Library

variable {shards batch headDim maxLength : Nat} {kvHeads : Fin shards → Nat} {Hidden Value : Type}

/-- Keys `[batch_size, num_heads, head_dim, max_length]` and values
`[batch_size, num_heads, max_length, head_dim]` on each device. -/
structure CacheTensors (kvHeads : Fin shards → Nat) (batch headDim maxLength : Nat)
    (Value : Type) where
  keys : ∀ i, Fin batch → Fin (kvHeads i) → Fin headDim → Fin maxLength → Value
  values : ∀ i, Fin batch → Fin (kvHeads i) → Fin maxLength → Fin headDim → Value

/-- Keys `[batch_size * num_heads, head_dim, kv_length]` and values
`[batch_size * num_heads, kv_length, head_dim]` on each device. -/
structure LayerPast (kvHeads : Fin shards → Nat) (batch headDim : Nat) (Value : Type) where
  kvLength : Nat
  keys : ∀ i, Fin (batch * kvHeads i) → Fin headDim → Fin kvLength → Value
  values : ∀ i, Fin (batch * kvHeads i) → Fin kvLength → Fin headDim → Value

namespace CacheTensors

def reorderCacheInplace (cache : CacheTensors kvHeads batch headDim maxLength Value)
    (hypoIds : Option (Fin batch → Fin batch)) :
    CacheTensors kvHeads batch headDim maxLength Value :=
  match hypoIds with
  | none => cache
  | some hypoIds =>
      { keys := fun i sequence => cache.keys i (hypoIds sequence)
        values := fun i sequence => cache.values i (hypoIds sequence) }

def selectLayerPast (cache : CacheTensors kvHeads batch headDim maxLength Value)
    (prefixLength : Nat) : LayerPast kvHeads batch headDim Value where
  kvLength := min prefixLength maxLength
  keys := fun i row dim position =>
    cache.keys i row.divNat row.modNat dim (position.castLE (Nat.min_le_right _ _))
  values := fun i row position dim =>
    cache.values i row.divNat row.modNat (position.castLE (Nat.min_le_right _ _)) dim

/-- The rows of the new keys and values are viewed as those of the cache. A slice that ends past
the cache does not fit. -/
def updateCacheInplace (cache : CacheTensors kvHeads batch headDim maxLength Value)
    (newKvs : LayerPast kvHeads batch headDim Value) (prefixLength : Nat) :
    Option (CacheTensors kvHeads batch headDim maxLength Value) :=
  if newKvs.kvLength ≤ maxLength then
    some
      { keys := fun i sequence head dim position =>
          if h : prefixLength ≤ position.val ∧ position.val < newKvs.kvLength then
            newKvs.keys i (Fin.mkDivMod sequence head) dim ⟨position, h.2⟩
          else cache.keys i sequence head dim position
        values := fun i sequence head position dim =>
          if h : prefixLength ≤ position.val ∧ position.val < newKvs.kvLength then
            newKvs.values i (Fin.mkDivMod sequence head) ⟨position, h.2⟩ dim
          else cache.values i sequence head position dim }
  else none

end CacheTensors

/-- A backend with the attention heads of each device. The constructor asserts that they are all
the heads of the model, and divides by their number. The module is called on the hidden states of
a whole batch. -/
structure ShardedBackend (kvHeads : Fin shards → Nat) (batch headDim : Nat)
    (Hidden Value : Type) where
  shardNumHeads : List Nat
  numAttentionHeads : Nat
  heads_length : shardNumHeads.length = shards
  heads_sum : shardNumHeads.sum = numAttentionHeads
  heads_pos : 0 < numAttentionHeads
  dtype : DType
  maxChunkSizeBytes : Nat
  forward : LayerPast kvHeads batch headDim Value → List (Fin batch → Hidden) →
    List (Fin batch → Hidden) × LayerPast kvHeads batch headDim Value

namespace ShardedBackend

variable (backend : ShardedBackend kvHeads batch headDim Hidden Value)

/-- `none` where it divides by zero. -/
def estimateMaxChunkLength (seqLength prefixLength : Nat) : Option Nat := do
  let worstCaseLength := prefixLength + seqLength
  let maxHeads ← backend.shardNumHeads.max?
  let attnBytesPerToken := maxHeads * batch * getSizeInBytes backend.dtype * worstCaseLength
  if attnBytesPerToken = 0 then none
  else some (max 1 (backend.maxChunkSizeBytes / attnBytesPerToken))

structure ChunkLoop (kvHeads : Fin shards → Nat) (batch headDim : Nat)
    (Hidden Value : Type) where
  outputHiddenStates : Option (List (Fin batch → Hidden))
  layerPast : LayerPast kvHeads batch headDim Value
  /-- unbound before the first chunk -/
  newKvs : Option (LayerPast kvHeads batch headDim Value)

def chunkStep (hiddenStates : List (Fin batch → Hidden)) (maxChunkLength : Nat)
    (loop : ChunkLoop kvHeads batch headDim Hidden Value) (offset : Nat) :
    ChunkLoop kvHeads batch headDim Hidden Value :=
  let hiddenStatesChunk := (hiddenStates.drop offset).take maxChunkLength
  let (outputs, newKvs) := backend.forward loop.layerPast hiddenStatesChunk
  { outputHiddenStates :=
      if maxChunkLength < hiddenStates.length then
        loop.outputHiddenStates.map fun buffer => writeSlice buffer offset outputs
      else some outputs
    layerPast := newKvs
    newKvs := some newKvs }

/-- `emptyLike` is what the uninitialized output tensor holds. -/
def inferenceStep (emptyLike : Nat → Fin batch → Hidden) (hiddenStates : List (Fin batch → Hidden))
    (hypoIds : Option (Fin batch → Fin batch)) (prefixLength : Nat)
    (cacheTensors : CacheTensors kvHeads batch headDim maxLength Value) :
    Option (List (Fin batch → Hidden) × CacheTensors kvHeads batch headDim maxLength Value) := do
  let seqLen := hiddenStates.length
  let cacheTensors := cacheTensors.reorderCacheInplace hypoIds
  let maxChunkLength ← backend.estimateMaxChunkLength seqLen prefixLength
  let loop := (rangeBy seqLen maxChunkLength).foldl
    (backend.chunkStep hiddenStates maxChunkLength)
    { outputHiddenStates :=
        if maxChunkLength < seqLen then some ((List.range seqLen).map emptyLike) else none
      layerPast := cacheTensors.selectLayerPast prefixLength
      newKvs := none }
  let newKvs ← loop.newKvs
  let cacheTensors ← cacheTensors.updateCacheInplace newKvs prefixLength
  let outputHiddenStates ← loop.outputHiddenStates
  return (outputHiddenStates, cacheTensors)

end ShardedBackend

/-- The new tensors hold the past in their first positions, and `count` positions more. -/
structure LayerPast.Extends (past new : LayerPast kvHeads batch headDim Value) (count : Nat) :
    Prop where
  kvLength : new.kvLength = past.kvLength + count
  keys : ∀ i row dim (position : Fin past.kvLength) (h : position.val < new.kvLength),
    new.keys i row dim ⟨position, h⟩ = past.keys i row dim position
  values : ∀ i row (position : Fin past.kvLength) dim (h : position.val < new.kvLength),
    new.values i row ⟨position, h⟩ dim = past.values i row position dim

/-- What a module with causal attention does: running over two parts in turn is running over both
at once, and each token gets an output, keys and values. It is never called without tokens. -/
structure Causal (forward : LayerPast kvHeads batch headDim Value → List (Fin batch → Hidden) →
    List (Fin batch → Hidden) × LayerPast kvHeads batch headDim Value) : Prop where
  append : ∀ past left right, left ≠ [] → right ≠ [] → forward past (left ++ right) =
    ((forward past left).1 ++ (forward (forward past left).2 right).1,
      (forward (forward past left).2 right).2)
  outputs : ∀ past tokens, tokens ≠ [] → (forward past tokens).1.length = tokens.length
  extended : ∀ past tokens, tokens ≠ [] →
    LayerPast.Extends past (forward past tokens).2 tokens.length

structure CacheTensors.Holds (cache : CacheTensors kvHeads batch headDim maxLength Value)
    (past : LayerPast kvHeads batch headDim Value) : Prop where
  fits : past.kvLength ≤ maxLength
  keys : ∀ i sequence head dim (position : Fin past.kvLength),
    cache.keys i sequence head dim (position.castLE fits) =
      past.keys i (Fin.mkDivMod sequence head) dim position
  values : ∀ i sequence head (position : Fin past.kvLength) dim,
    cache.values i sequence head (position.castLE fits) dim =
      past.values i (Fin.mkDivMod sequence head) position dim

/-- The positions from `prefixLength` on, `count` of them, are those of the new keys and values,
and no other position differs. -/
structure CacheTensors.Written (before after : CacheTensors kvHeads batch headDim maxLength Value)
    (new : LayerPast kvHeads batch headDim Value) (prefixLength count : Nat) : Prop where
  kvLength : new.kvLength = prefixLength + count
  fits : new.kvLength ≤ maxLength
  keys : ∀ i sequence head dim (position : Fin new.kvLength), prefixLength ≤ position.val →
    after.keys i sequence head dim (position.castLE fits) =
      new.keys i (Fin.mkDivMod sequence head) dim position
  values : ∀ i sequence head (position : Fin new.kvLength) dim, prefixLength ≤ position.val →
    after.values i sequence head (position.castLE fits) dim =
      new.values i (Fin.mkDivMod sequence head) position dim
  otherKeys : ∀ i sequence head dim (position : Fin maxLength),
    position.val < prefixLength ∨ prefixLength + count ≤ position.val →
    after.keys i sequence head dim position = before.keys i sequence head dim position
  otherValues : ∀ i sequence head (position : Fin maxLength) dim,
    position.val < prefixLength ∨ prefixLength + count ≤ position.val →
    after.values i sequence head position dim = before.values i sequence head position dim

theorem LayerPast.ext_of_cast {left right : LayerPast kvHeads batch headDim Value}
    (hlength : left.kvLength = right.kvLength)
    (hkeys : ∀ i row dim position,
      left.keys i row dim position = right.keys i row dim (position.cast hlength))
    (hvalues : ∀ i row position dim,
      left.values i row position dim = right.values i row (position.cast hlength) dim) :
    left = right := by
  obtain ⟨length, leftKeys, leftValues⟩ := left
  obtain ⟨_, rightKeys, rightValues⟩ := right
  dsimp only at hlength
  subst hlength
  have hsameKeys : leftKeys = rightKeys := by
    funext i row dim position
    exact hkeys i row dim position
  have hsameValues : leftValues = rightValues := by
    funext i row position dim
    exact hvalues i row position dim
  rw [hsameKeys, hsameValues]

theorem CacheTensors.Holds.selectLayerPast
    {cache : CacheTensors kvHeads batch headDim maxLength Value}
    {past : LayerPast kvHeads batch headDim Value} (h : cache.Holds past) :
    cache.selectLayerPast past.kvLength = past := by
  apply LayerPast.ext_of_cast (Nat.min_eq_left h.fits)
  · intro i row dim position
    refine (h.keys i row.divNat row.modNat dim (position.cast (Nat.min_eq_left h.fits))).trans ?_
    rw [Fin.divNat_mkDivMod_modNat]
    rfl
  · intro i row position dim
    refine (h.values i row.divNat row.modNat (position.cast (Nat.min_eq_left h.fits)) dim).trans ?_
    rw [Fin.divNat_mkDivMod_modNat]
    rfl

theorem CacheTensors.holds_selectLayerPast
    (cache : CacheTensors kvHeads batch headDim maxLength Value) (prefixLength : Nat) :
    cache.Holds (cache.selectLayerPast prefixLength) := by
  refine ⟨Nat.min_le_right _ _, ?_, ?_⟩
  · intro i sequence head dim position
    simp [selectLayerPast]
  · intro i sequence head position dim
    simp [selectLayerPast]

theorem CacheTensors.written_updateCacheInplace
    (cache : CacheTensors kvHeads batch headDim maxLength Value)
    {new : LayerPast kvHeads batch headDim Value} {prefixLength count : Nat}
    (hlength : new.kvLength = prefixLength + count) (hfits : prefixLength + count ≤ maxLength) :
    ∃ updated, cache.updateCacheInplace new prefixLength = some updated ∧
      cache.Written updated new prefixLength count := by
  refine ⟨_, if_pos (hlength ▸ hfits), hlength, hlength ▸ hfits, ?_, ?_, ?_, ?_⟩
  · intro i sequence head dim position hposition
    exact dif_pos ⟨hposition, position.isLt⟩
  · intro i sequence head position dim hposition
    exact dif_pos ⟨hposition, position.isLt⟩
  · intro i sequence head dim position hposition
    exact dif_neg fun h => by omega
  · intro i sequence head position dim hposition
    exact dif_neg fun h => by omega

theorem CacheTensors.Holds.written
    {cache updated : CacheTensors kvHeads batch headDim maxLength Value}
    {past new : LayerPast kvHeads batch headDim Value} {count : Nat} (h : cache.Holds past)
    (hextends : LayerPast.Extends past new count)
    (hwritten : cache.Written updated new past.kvLength count) : updated.Holds new := by
  refine ⟨hwritten.fits, ?_, ?_⟩
  · intro i sequence head dim position
    rcases Nat.lt_or_ge position.val past.kvLength with hpast | hnew
    · rw [hwritten.otherKeys _ _ _ _ _ (.inl hpast)]
      exact (h.keys i sequence head dim ⟨position, hpast⟩).trans
        (hextends.keys i _ dim ⟨position, hpast⟩ position.isLt).symm
    · exact hwritten.keys i sequence head dim position hnew
  · intro i sequence head position dim
    rcases Nat.lt_or_ge position.val past.kvLength with hpast | hnew
    · rw [hwritten.otherValues _ _ _ _ _ (.inl hpast)]
      exact (h.values i sequence head ⟨position, hpast⟩ dim).trans
        (hextends.values i _ ⟨position, hpast⟩ dim position.isLt).symm
    · exact hwritten.values i sequence head position dim hnew

section running
variable {forward : LayerPast kvHeads batch headDim Value → List (Fin batch → Hidden) →
  List (Fin batch → Hidden) × LayerPast kvHeads batch headDim Value}

def runForward (forward : LayerPast kvHeads batch headDim Value → List (Fin batch → Hidden) →
      List (Fin batch → Hidden) × LayerPast kvHeads batch headDim Value)
    (past : LayerPast kvHeads batch headDim Value) (tokens : List (Fin batch → Hidden)) :
    List (Fin batch → Hidden) × LayerPast kvHeads batch headDim Value :=
  if tokens = [] then ([], past) else forward past tokens

theorem Causal.resumes (h : Causal forward) : Resumes (runForward forward) where
  nil past := if_pos rfl
  append := by
    intro past left right
    unfold runForward
    by_cases hleft : left = []
    · simp [hleft]
    · by_cases hright : right = []
      · simp [hleft, hright]
      · simp only [hleft, hright, List.append_eq_nil_iff, and_self, if_false]
        exact h.append past left right hleft hright

theorem Causal.runForward_length (h : Causal forward) (past : LayerPast kvHeads batch headDim Value)
    (tokens : List (Fin batch → Hidden)) : (runForward forward past tokens).1.length =
      tokens.length := by
  unfold runForward
  split
  · rename_i hempty
    rw [hempty]
  · rename_i htokens
    exact h.outputs past tokens htokens

end running

namespace ShardedBackend

variable {backend : ShardedBackend kvHeads batch headDim Hidden Value}
  {hiddenStates : List (Fin batch → Hidden)} {maxChunkLength : Nat}

theorem estimateMaxChunkLength_isSome (hbatch : 0 < batch) {seqLength : Nat}
    (hseq : 0 < seqLength) (prefixLength : Nat) :
    ∃ maxChunkLength, 0 < maxChunkLength ∧
      backend.estimateMaxChunkLength seqLength prefixLength = some maxChunkLength := by
  have hheads : 0 < backend.shardNumHeads.sum := backend.heads_sum ▸ backend.heads_pos
  obtain ⟨heads, hmem, hpositive⟩ : ∃ heads ∈ backend.shardNumHeads, 0 < heads := by
    by_contra hnone
    have hzero : backend.shardNumHeads.sum = 0 := List.sum_eq_zero fun heads hmem =>
      Nat.eq_zero_of_not_pos fun hpositive => hnone ⟨heads, hmem, hpositive⟩
    omega
  obtain ⟨maxHeads, hmax⟩ : ∃ maxHeads, backend.shardNumHeads.max? = some maxHeads := by
    rw [← Option.isSome_iff_exists, Option.isSome_iff_ne_none, ne_eq, List.max?_eq_none_iff]
    exact List.ne_nil_of_mem hmem
  have hle : heads ≤ maxHeads := (List.max?_eq_some_iff.mp hmax).2 heads hmem
  have hbytes :
      maxHeads * batch * getSizeInBytes backend.dtype * (prefixLength + seqLength) ≠ 0 := by
    have hdtype := getSizeInBytes_pos backend.dtype
    simp only [ne_eq, Nat.mul_eq_zero]
    omega
  refine ⟨max 1 (backend.maxChunkSizeBytes / (maxHeads * batch * getSizeInBytes backend.dtype *
    (prefixLength + seqLength))), by omega, ?_⟩
  unfold estimateMaxChunkLength
  rw [hmax]
  exact if_neg hbytes

theorem foldl_chunkStep (hcausal : Causal backend.forward)
    (hchunked : maxChunkLength < hiddenStates.length) (hpositive : 0 < maxChunkLength)
    (buffer : List (Fin batch → Hidden)) (past : LayerPast kvHeads batch headDim Value)
    {count : Nat} (hcount : ∀ index < count, index * maxChunkLength < hiddenStates.length) :
    let run := runForward backend.forward past (hiddenStates.take (count * maxChunkLength))
    ((List.range count).map (· * maxChunkLength)).foldl
        (backend.chunkStep hiddenStates maxChunkLength) ⟨some buffer, past, none⟩ =
      ⟨some (run.1 ++ buffer.drop run.1.length), run.2,
        if count = 0 then none else some run.2⟩ := by
  induction count with
  | zero =>
      rw [Nat.zero_mul, List.take_zero, hcausal.resumes.nil]
      rfl
  | succ count ih =>
      have hoffset := hcount count (Nat.lt_succ_self count)
      have hlength : (runForward backend.forward past
          (hiddenStates.take (count * maxChunkLength))).1.length = count * maxChunkLength := by
        rw [hcausal.runForward_length, List.length_take, Nat.min_eq_left (Nat.le_of_lt hoffset)]
      have hchunk : (hiddenStates.drop (count * maxChunkLength)).take maxChunkLength ≠ [] := by
        apply List.ne_nil_of_length_pos
        rw [List.length_take, List.length_drop]
        omega
      rw [List.range_succ, List.map_append, List.foldl_append,
        ih fun index hlt => hcount index (Nat.lt_succ_of_lt hlt), Nat.succ_mul, List.take_add,
        hcausal.resumes.append]
      generalize runForward backend.forward past _ = earlier at hlength ⊢
      have hforward : runForward backend.forward earlier.2
          ((hiddenStates.drop (count * maxChunkLength)).take maxChunkLength) =
            backend.forward earlier.2
              ((hiddenStates.drop (count * maxChunkLength)).take maxChunkLength) := if_neg hchunk
      have hwrite (items : List (Fin batch → Hidden)) :
          writeSlice (earlier.1 ++ buffer.drop earlier.1.length) (count * maxChunkLength) items =
            earlier.1 ++ items ++ buffer.drop (earlier.1 ++ items).length := by
        rw [← hlength, writeSlice_append, List.drop_drop, List.length_append]
      rw [hforward]
      simp only [List.map_cons, List.map_nil, List.foldl_cons, List.foldl_nil, chunkStep,
        if_pos hchunked, Option.map_some, hwrite]
      rfl

/-- However the tokens are cut into chunks, the loop ends as after one call of the module. -/
theorem foldl_rangeBy_chunkStep (hcausal : Causal backend.forward)
    (hpositive : 0 < maxChunkLength) (hnonempty : hiddenStates ≠ [])
    (emptyLike : Nat → Fin batch → Hidden) (past : LayerPast kvHeads batch headDim Value) :
    let run := backend.forward past hiddenStates
    (rangeBy hiddenStates.length maxChunkLength).foldl
        (backend.chunkStep hiddenStates maxChunkLength)
        { outputHiddenStates :=
            if maxChunkLength < hiddenStates.length then
              some ((List.range hiddenStates.length).map emptyLike) else none
          layerPast := past
          newKvs := none } =
      ⟨some run.1, run.2, some run.2⟩ := by
  intro run
  have hlength : 0 < hiddenStates.length := List.length_pos_iff.mpr hnonempty
  have hrun : runForward backend.forward past hiddenStates = run := if_neg hnonempty
  by_cases hchunked : maxChunkLength < hiddenStates.length
  · have hcount : ∀ index < (hiddenStates.length + maxChunkLength - 1) / maxChunkLength,
        index * maxChunkLength < hiddenStates.length := by
      intro index hlt
      have hle := (Nat.le_div_iff_mul_le hpositive).mp hlt
      rw [Nat.succ_mul] at hle
      omega
    have hsome : (hiddenStates.length + maxChunkLength - 1) / maxChunkLength ≠ 0 := by
      rw [Nat.div_ne_zero_iff]
      omega
    rw [if_pos hchunked, rangeBy, foldl_chunkStep hcausal hchunked hpositive _ _ hcount,
      List.take_of_length_le (le_rangeBy_mul hpositive), hrun, if_neg hsome]
    have hfull : ((List.range hiddenStates.length).map emptyLike).drop run.1.length = [] := by
      apply List.drop_eq_nil_of_le
      rw [List.length_map, List.length_range]
      exact (hcausal.outputs past hiddenStates hnonempty).ge
    rw [hfull, List.append_nil]
  · rw [rangeBy_of_le hlength (by omega)]
    simp only [List.foldl_cons, List.foldl_nil, chunkStep, if_neg hchunked, List.drop_zero,
      List.take_of_length_le (Nat.le_of_not_lt hchunked)]
    rfl

/-- Chunking is invisible: a step returns what one call of the module on all the tokens does, it
writes exactly their keys and values, and the cache holds the extended past. -/
theorem inferenceStep_unchunked (hcausal : Causal backend.forward) (hbatch : 0 < batch)
    (hnonempty : hiddenStates ≠ []) {cache : CacheTensors kvHeads batch headDim maxLength Value}
    {past : LayerPast kvHeads batch headDim Value} {prefixLength : Nat} (hholds : cache.Holds past)
    (hprocessed : past.kvLength = prefixLength)
    (hlength : prefixLength + hiddenStates.length ≤ maxLength)
    (emptyLike : Nat → Fin batch → Hidden) :
    ∃ updated, backend.inferenceStep emptyLike hiddenStates none prefixLength cache =
        some ((backend.forward past hiddenStates).1, updated) ∧
      cache.Written updated (backend.forward past hiddenStates).2 prefixLength
        hiddenStates.length ∧
      updated.Holds (backend.forward past hiddenStates).2 := by
  subst hprocessed
  have hextended := hcausal.extended past hiddenStates hnonempty
  obtain ⟨maxChunkLength, hpositive, hestimate⟩ := backend.estimateMaxChunkLength_isSome hbatch
    (List.length_pos_iff.mpr hnonempty) past.kvLength
  obtain ⟨updated, hupdated, hwritten⟩ :=
    cache.written_updateCacheInplace hextended.kvLength hlength
  refine ⟨updated, ?_, hwritten, hholds.written hextended hwritten⟩
  unfold inferenceStep
  simp only [CacheTensors.reorderCacheInplace, hestimate, hholds.selectLayerPast,
    Option.bind_eq_bind, Option.bind_some,
    foldl_rangeBy_chunkStep hcausal hpositive hnonempty emptyLike past, hupdated]
  rfl

end ShardedBackend

/-! A module that adds its position to each token, and keeps the tokens as keys and values. -/

private def appendRow {length : Nat} (row : Fin length → Nat) (tokens : List (Fin batch → Nat))
    (sequence : Fin batch) (position : Nat) : Nat :=
  if h : position < length then row ⟨position, h⟩
  else tokens.getD (position - length) (fun _ => 0) sequence

private theorem appendRow_append {length : Nat} (row : Fin length → Nat)
    (left right : List (Fin batch → Nat)) (sequence : Fin batch) (position : Nat) :
    appendRow row (left ++ right) sequence position =
      appendRow (fun earlier : Fin (length + left.length) =>
        appendRow row left sequence earlier) right sequence position := by
  unfold appendRow
  dsimp only
  by_cases hrow : position < length
  · rw [dif_pos hrow, dif_pos (by omega), dif_pos hrow]
  · rw [dif_neg hrow]
    by_cases hleft : position < length + left.length
    · rw [dif_pos hleft, dif_neg hrow, List.getD_append _ _ _ _ (by omega)]
    · rw [dif_neg hleft, List.getD_append_right _ _ _ _ (by omega), Nat.sub_sub]

private def addPositions (past : LayerPast kvHeads batch headDim Nat)
    (tokens : List (Fin batch → Nat)) :
    List (Fin batch → Nat) × LayerPast kvHeads batch headDim Nat :=
  (tokens.mapIdx fun index token sequence => token sequence + (past.kvLength + index),
    { kvLength := past.kvLength + tokens.length
      keys := fun i row dim position => appendRow (past.keys i row dim) tokens row.divNat position
      values := fun i row position dim =>
        appendRow (past.values i row · dim) tokens row.divNat position })

private theorem addPositions_causal : Causal (addPositions :
    LayerPast kvHeads batch headDim Nat → List (Fin batch → Nat) →
      List (Fin batch → Nat) × LayerPast kvHeads batch headDim Nat) := by
  refine ⟨?_, ?_, ?_⟩
  · intro past left right hleft hright
    refine Prod.ext ?_ (LayerPast.ext_of_cast ?_ ?_ ?_)
    · simp only [addPositions, List.mapIdx_append, Nat.add_assoc, Nat.add_comm left.length]
    · simp only [addPositions, List.length_append, Nat.add_assoc]
    · intro i row dim position
      exact appendRow_append (past.keys i row dim) left right row.divNat position
    · intro i row position dim
      exact appendRow_append (past.values i row · dim) left right row.divNat position
  · intro past tokens htokens
    exact List.length_mapIdx
  · intro past tokens htokens
    refine ⟨rfl, ?_, ?_⟩
    · intro i row dim position h
      exact dif_pos position.isLt
    · intro i row position dim h
      exact dif_pos position.isLt

private def twoHeads : ShardedBackend (fun _ : Fin 1 => 2) 2 1 Nat Nat where
  shardNumHeads := [2]
  numAttentionHeads := 2
  heads_length := rfl
  heads_sum := rfl
  heads_pos := Nat.two_pos
  dtype := .float16
  maxChunkSizeBytes := 0
  forward := addPositions

private def zeroCache : CacheTensors (fun _ : Fin 1 => 2) 2 1 4 Nat where
  keys := fun _ _ _ _ _ => 0
  values := fun _ _ _ _ _ => 0

theorem inferenceStep_unchunked_twoHeads :
    twoHeads.estimateMaxChunkLength 2 1 = some 1 ∧
      ∃ updated, twoHeads.inferenceStep (fun _ _ => 9) [fun _ => 5, fun _ => 6] none 1 zeroCache =
          some ((twoHeads.forward (zeroCache.selectLayerPast 1) [fun _ => 5, fun _ => 6]).1,
            updated) ∧
        zeroCache.Written updated
          (twoHeads.forward (zeroCache.selectLayerPast 1) [fun _ => 5, fun _ => 6]).2 1 2 := by
  refine ⟨by decide, ?_⟩
  have hcausal : Causal twoHeads.forward := addPositions_causal
  obtain ⟨updated, hstep, hwritten, -⟩ := ShardedBackend.inferenceStep_unchunked hcausal
    Nat.two_pos (List.cons_ne_nil (fun _ => 5) [fun _ => 6]) (zeroCache.holds_selectLayerPast 1) rfl
    (by decide) fun _ _ => 9
  exact ⟨updated, hstep, hwritten⟩

/-! The requests of a session, each a step from where the one before has ended. -/

namespace ShardedBackend

variable {backend : ShardedBackend kvHeads batch headDim Hidden Value}

def inferenceSteps (backend : ShardedBackend kvHeads batch headDim Hidden Value)
    (emptyLike : Nat → Fin batch → Hidden) :
    List (List (Fin batch → Hidden)) → Nat → CacheTensors kvHeads batch headDim maxLength Value →
      Option (List (List (Fin batch → Hidden)) ×
        CacheTensors kvHeads batch headDim maxLength Value)
  | [], _, cacheTensors => some ([], cacheTensors)
  | hiddenStates :: rest, prefixLength, cacheTensors => do
      let (outputs, cacheTensors) ←
        backend.inferenceStep emptyLike hiddenStates none prefixLength cacheTensors
      let (later, cacheTensors) ← inferenceSteps backend emptyLike rest
        (prefixLength + hiddenStates.length) cacheTensors
      return (outputs :: later, cacheTensors)

/-- The requests together get what one call of the module on all their tokens returns. -/
theorem inferenceSteps_unchunked (hcausal : Causal backend.forward) (hbatch : 0 < batch)
    (emptyLike : Nat → Fin batch → Hidden) {requests : List (List (Fin batch → Hidden))}
    (hnonempty : ∀ hiddenStates ∈ requests, hiddenStates ≠ [])
    {cache : CacheTensors kvHeads batch headDim maxLength Value}
    {past : LayerPast kvHeads batch headDim Value} (hholds : cache.Holds past)
    (hlength : past.kvLength + requests.flatten.length ≤ maxLength) :
    ∃ outputs updated,
      backend.inferenceSteps emptyLike requests past.kvLength cache = some (outputs, updated) ∧
      outputs.flatten = (runForward backend.forward past requests.flatten).1 ∧
      updated.Holds (runForward backend.forward past requests.flatten).2 := by
  induction requests generalizing cache past with
  | nil =>
      refine ⟨[], cache, rfl, ?_, ?_⟩
      · rw [List.flatten_nil, hcausal.resumes.nil]
      · rw [List.flatten_nil, hcausal.resumes.nil]
        exact hholds
  | cons hiddenStates rest ih =>
      obtain ⟨hfirst, hrest⟩ := List.forall_mem_cons.mp hnonempty
      rw [List.flatten_cons, List.length_append] at hlength
      have hextended := hcausal.extended past hiddenStates hfirst
      obtain ⟨middle, hstep, -, hmiddle⟩ := inferenceStep_unchunked hcausal hbatch hfirst hholds
        rfl (by omega) emptyLike
      obtain ⟨later, updated, hsteps, houtputs, hupdated⟩ := ih hrest hmiddle
        (by rw [hextended.kvLength]; omega)
      have hrun : runForward backend.forward past hiddenStates =
          backend.forward past hiddenStates := if_neg hfirst
      rw [List.flatten_cons, hcausal.resumes.append, hrun]
      refine ⟨(backend.forward past hiddenStates).1 :: later, updated, ?_, ?_, hupdated⟩
      · rw [hextended.kvLength] at hsteps
        simp only [inferenceSteps, hstep, Option.bind_eq_bind, Option.bind_some, hsteps]
        rfl
      · rw [List.flatten_cons, houtputs]

end ShardedBackend

end Peerz.Server
