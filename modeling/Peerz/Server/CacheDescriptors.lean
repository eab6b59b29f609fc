import Mathlib.Algebra.Order.Ring.Int
import Mathlib.Tactic.Ring
import Peerz.Client.Routing.SequenceManager
import Peerz.Server.MemoryCache

/-! The memory that a session's cache takes, as the server allocates it, as its announcer counts
it and as the client's routing estimates it. -/
namespace Peerz.Server
open Library

structure BlockConfig where
  hiddenSize : Nat
  numAttentionHeads : Nat
  numKeyValueGroups : Nat
  /-- an attribute that some configs lack -/
  numKeyValueHeads : Option Nat
  hiddenSize_pos : 0 < hiddenSize
  heads_dvd : numAttentionHeads ∣ hiddenSize
  groups_dvd : numKeyValueGroups ∣ numAttentionHeads
  keyValueHeads : ∀ heads ∈ numKeyValueHeads, heads = numAttentionHeads / numKeyValueGroups

namespace BlockConfig

variable (config : BlockConfig)

def headDim : Nat := config.hiddenSize / config.numAttentionHeads

theorem numAttentionHeads_pos : 0 < config.numAttentionHeads :=
  Nat.pos_of_dvd_of_pos config.heads_dvd config.hiddenSize_pos

theorem headDim_pos : 0 < config.headDim :=
  Nat.div_pos (Nat.le_of_dvd config.hiddenSize_pos config.heads_dvd) config.numAttentionHeads_pos

theorem heads_mul_headDim : config.numAttentionHeads * config.headDim = config.hiddenSize :=
  Nat.mul_div_cancel' config.heads_dvd

theorem hiddenSize_div_groups :
    config.hiddenSize / config.numKeyValueGroups =
      config.numAttentionHeads / config.numKeyValueGroups * config.headDim := by
  rw [← config.heads_mul_headDim, Nat.div_mul_right_comm config.groups_dvd]

end BlockConfig

/-- The blocks of a server. They share the config, the dtype and the devices, each with the number
of its attention heads; the backend asserts that these are all the heads. -/
structure InferenceBackend (Device : Type) where
  config : BlockConfig
  dtype : DType
  shardNumHeads : List (Device × Nat)
  heads_sum : (shardNumHeads.map Prod.snd).sum = config.numAttentionHeads

namespace InferenceBackend

variable {Device : Type}

def onDevice (config : BlockConfig) (dtype : DType) (device : Device) :
    InferenceBackend Device where
  config := config
  dtype := dtype
  shardNumHeads := [(device, config.numAttentionHeads)]
  heads_sum := List.sum_singleton

def getInferenceCacheDescriptors (backend : InferenceBackend Device) (batchSize maxLength : Nat) :
    List (TensorDescriptor Device) :=
  backend.shardNumHeads.flatMap fun (device, numHeads) =>
    let numHeads := backend.config.numKeyValueHeads.getD
      (numHeads / backend.config.numKeyValueGroups)
    let headDim := backend.config.headDim
    [{ shape := [batchSize, numHeads, headDim, maxLength]
       dtype := backend.dtype, device := some device },
     { shape := [batchSize, numHeads, maxLength, headDim]
       dtype := backend.dtype, device := some device }]

def kvHeads (backend : InferenceBackend Device) (i : Fin backend.shardNumHeads.length) : Nat :=
  backend.config.numKeyValueHeads.getD
    ((backend.shardNumHeads.get i).2 / backend.config.numKeyValueGroups)

theorem shape_getInferenceCacheDescriptors (backend : InferenceBackend Device)
    (batchSize maxLength : Nat) :
    (backend.getInferenceCacheDescriptors batchSize maxLength).map TensorDescriptor.shape =
      (List.finRange backend.shardNumHeads.length).flatMap fun i =>
        [[batchSize, backend.kvHeads i, backend.config.headDim, maxLength],
          [batchSize, backend.kvHeads i, maxLength, backend.config.headDim]] := by
  have hshards : (List.finRange backend.shardNumHeads.length).map backend.shardNumHeads.get =
      backend.shardNumHeads := List.map_get_finRange _
  unfold getInferenceCacheDescriptors
  conv_lhs => rw [← hshards]
  rw [List.flatMap_map, List.map_flatMap]
  rfl

/-- The descriptors that `_allocate_cache` passes on for a session over some of the blocks. -/
def sessionDescriptors (backend : InferenceBackend Device) (numBlocks batchSize maxLength : Nat) :
    List (TensorDescriptor Device) :=
  (List.replicate numBlocks (backend.getInferenceCacheDescriptors batchSize maxLength)).flatten

end InferenceBackend

/-- The announcer's `bytes_per_token`: the keys of a token in one block. -/
def bytesPerToken (config : BlockConfig) (dtype : DType) : Nat :=
  config.hiddenSize * getSizeInBytes dtype / config.numKeyValueGroups

def announceCache (config : BlockConfig) (dtype : DType) (bytesLeft : Nat) (info : ServerInfo) :
    ServerInfo :=
  { info with cacheTokensLeft := some (bytesLeft / bytesPerToken config dtype) }

theorem getSizeInBytes_pos (dtype : DType) : 0 < getSizeInBytes dtype := by
  cases dtype <;> decide

theorem bytesPerToken_eq (config : BlockConfig) (dtype : DType) :
    bytesPerToken config dtype =
      config.numAttentionHeads / config.numKeyValueGroups * config.headDim *
        getSizeInBytes dtype := by
  rw [bytesPerToken, ← config.hiddenSize_div_groups]
  exact (Nat.div_mul_right_comm (config.groups_dvd.trans config.heads_dvd) _).symm

theorem bytesPerToken_pos (config : BlockConfig) (dtype : DType) :
    0 < bytesPerToken config dtype := by
  have hgroups : 0 < config.numKeyValueGroups :=
    Nat.pos_of_dvd_of_pos config.groups_dvd config.numAttentionHeads_pos
  have hheads : 0 < config.numAttentionHeads / config.numKeyValueGroups :=
    Nat.div_pos (Nat.le_of_dvd config.numAttentionHeads_pos config.groups_dvd) hgroups
  rw [bytesPerToken_eq]
  exact Nat.mul_pos (Nat.mul_pos hheads config.headDim_pos) (getSizeInBytes_pos dtype)

section sizes
variable {Device : Type}

theorem sum_tensorSize_replicate (numBlocks : Nat) (descriptors : List (TensorDescriptor Device)) :
    ((List.replicate numBlocks descriptors).flatten.map TensorDescriptor.tensorSize).sum =
      numBlocks * (descriptors.map TensorDescriptor.tensorSize).sum := by
  rw [List.map_flatten, List.sum_flatten, List.map_replicate, List.map_replicate,
    List.sum_replicate_nat]

theorem sum_tensorSize_onDevice (config : BlockConfig) (dtype : DType) (device : Device)
    (batchSize maxLength : Nat) :
    (((InferenceBackend.onDevice config dtype device).getInferenceCacheDescriptors batchSize
      maxLength).map TensorDescriptor.tensorSize).sum =
        2 * batchSize * maxLength * bytesPerToken config dtype := by
  have hheads : config.numKeyValueHeads.getD
      (config.numAttentionHeads / config.numKeyValueGroups) =
        config.numAttentionHeads / config.numKeyValueGroups := by
    cases hattribute : config.numKeyValueHeads with
    | none => rfl
    | some heads => exact config.keyValueHeads heads hattribute
  simp only [InferenceBackend.getInferenceCacheDescriptors, InferenceBackend.onDevice,
    List.flatMap_singleton, List.map_cons, List.map_nil, List.sum_cons, List.sum_nil,
    TensorDescriptor.tensorSize, TensorDescriptor.numel, List.prod_cons, List.prod_nil, hheads,
    bytesPerToken_eq]
  ring

theorem sum_sessionDescriptors (config : BlockConfig) (dtype : DType) (device : Device)
    (numBlocks batchSize maxLength : Nat) :
    (((InferenceBackend.onDevice config dtype device).sessionDescriptors numBlocks batchSize
      maxLength).map TensorDescriptor.tensorSize).sum =
        batchSize * (maxLength * 2 * numBlocks * bytesPerToken config dtype) := by
  rw [InferenceBackend.sessionDescriptors, sum_tensorSize_replicate, sum_tensorSize_onDevice]
  ring

end sizes

section single
variable {Device : Type} [DecidableEq Device]

theorem allocSizes_get? {device : Option Device} {descriptors : List (TensorDescriptor Device)}
    (hdevice : ∀ descriptor ∈ descriptors, descriptor.device = device)
    (sizes : Dict (Option Device) Nat) (other : Option Device) :
    (descriptors.foldl
      (fun sizes descriptor => sizes.insert descriptor.device
        ((sizes.get? descriptor.device).getD 0 + descriptor.tensorSize)) sizes).get? other =
      if other = device ∧ descriptors ≠ [] then
        some ((sizes.get? device).getD 0 + (descriptors.map TensorDescriptor.tensorSize).sum)
      else sizes.get? other := by
  induction descriptors generalizing sizes with
  | nil => simp
  | cons descriptor rest ih =>
      rw [List.forall_mem_cons] at hdevice
      obtain ⟨rfl, hrest⟩ := hdevice
      rw [List.foldl_cons, ih hrest, List.map_cons, List.sum_cons]
      simp only [Dict.get?_insert]
      by_cases hother : other = descriptor.device
      · by_cases hempty : rest = []
        · simp [hother, hempty]
        · simp [hother, hempty, Nat.add_assoc]
      · simp [hother]

theorem getAllocationSize_device {device : Option Device}
    {descriptors : List (TensorDescriptor Device)} (hnonempty : descriptors ≠ [])
    (hdevice : ∀ descriptor ∈ descriptors, descriptor.device = device) :
    getAllocationSize descriptors =
      some (descriptors.map TensorDescriptor.tensorSize).sum := by
  have hget (other : Option Device) : (allocSizeByDevice descriptors).get? other =
      if other = device then some (descriptors.map TensorDescriptor.tensorSize).sum else none := by
    rw [allocSizeByDevice, allocSizes_get? hdevice]
    simp [hnonempty]
  rw [getAllocationSize, List.max?_eq_some_iff]
  constructor
  · apply Dict.mem_values_iff.mpr
    exact ⟨device, by rw [hget, if_pos rfl]⟩
  · intro size hsize
    obtain ⟨other, hother⟩ := Dict.mem_values_iff.mp hsize
    rw [hget] at hother
    split at hother
    · exact (Option.some.inj hother).ge
    · cases hother

end single

section estimate
variable {Device PeerID : Type}

/-- The span of a server with one device, at a time when so many bytes are left in its cache. -/
def announcedSpan (config : BlockConfig) (dtype : DType) (bytesLeft : Nat) (peerId : PeerID)
    (start : Int) (numBlocks : Nat) (info : ServerInfo) : RemoteSpanInfo PeerID where
  peerId := peerId
  start := start
  stop := start + numBlocks
  serverInfo := announceCache config dtype bytesLeft info

/-- The client's test is whether one sequence fits. -/
theorem hasCacheFor_announcedSpan (config : BlockConfig) (dtype : DType) (bytesLeft : Nat)
    (peerId : PeerID) (start : Int) (numBlocks : Nat) (info : ServerInfo) (maxLength : Nat) :
    Client.Routing.hasCacheFor (announcedSpan config dtype bytesLeft peerId start numBlocks info)
        (some (maxLength : Int)) = true ↔
      maxLength * 2 * numBlocks * bytesPerToken config dtype ≤ bytesLeft := by
  have hlength : (announcedSpan config dtype bytesLeft peerId start numBlocks info).length =
      numBlocks := add_sub_cancel_left _ _
  rw [← Nat.le_div_iff_mul_le (bytesPerToken_pos config dtype)]
  simp only [Client.Routing.hasCacheFor, hlength]
  simp only [announcedSpan, announceCache, decide_eq_true_eq]
  norm_cast

/-- The estimate promises too much exactly when the bytes left are enough for one sequence of the
batch and not for all of them; it is safe at every time exactly for a single sequence, or where
nothing is allocated at all. -/
theorem hasCacheFor_safe_iff (config : BlockConfig) (dtype : DType) (device : Device)
    (peerId : PeerID) (start : Int) (numBlocks : Nat) (info : ServerInfo)
    (maxLength batchSize : Nat) :
    let sequenceBytes := maxLength * 2 * numBlocks * bytesPerToken config dtype
    let Safe := fun bytesLeft : Nat =>
      Client.Routing.hasCacheFor (announcedSpan config dtype bytesLeft peerId start numBlocks info)
        (some (maxLength : Int)) = true →
      (((InferenceBackend.onDevice config dtype device).sessionDescriptors numBlocks batchSize
        maxLength).map TensorDescriptor.tensorSize).sum ≤ bytesLeft
    (∀ bytesLeft, Safe bytesLeft ↔
      bytesLeft < sequenceBytes ∨ batchSize * sequenceBytes ≤ bytesLeft) ∧
    ((∀ bytesLeft, Safe bytesLeft) ↔ batchSize ≤ 1 ∨ numBlocks = 0 ∨ maxLength = 0) := by
  intro sequenceBytes Safe
  have hsafe (bytesLeft : Nat) : Safe bytesLeft ↔
      bytesLeft < sequenceBytes ∨ batchSize * sequenceBytes ≤ bytesLeft := by
    rw [← Nat.not_le, ← imp_iff_not_or]
    unfold Safe
    rw [hasCacheFor_announcedSpan, sum_sessionDescriptors]
  refine ⟨hsafe, ?_⟩
  simp only [hsafe]
  constructor
  · intro h
    have hfits : batchSize * sequenceBytes ≤ sequenceBytes :=
      (h sequenceBytes).resolve_left (Nat.lt_irrefl _)
    by_cases hzero : sequenceBytes = 0
    · have hbytes := (bytesPerToken_pos config dtype).ne'
      simp only [sequenceBytes, Nat.mul_eq_zero, hbytes, or_false] at hzero
      omega
    · left
      exact Nat.le_of_mul_le_mul_right (by omega) (Nat.pos_of_ne_zero hzero)
  · intro h bytesLeft
    have hfits : batchSize * sequenceBytes ≤ sequenceBytes := by
      obtain hsingle | rfl | rfl := h
      · exact (Nat.mul_le_mul_right _ hsingle).trans_eq (Nat.one_mul _)
      · simp [sequenceBytes]
      · simp [sequenceBytes]
    omega

def smallConfig : BlockConfig where
  hiddenSize := 1
  numAttentionHeads := 1
  numKeyValueGroups := 1
  numKeyValueHeads := none
  hiddenSize_pos := Nat.one_pos
  heads_dvd := Nat.dvd_refl 1
  groups_dvd := Nat.dvd_refl 1
  keyValueHeads := by simp

/-- Four bytes left are enough for one token of one sequence; two sequences take eight. -/
theorem hasCacheFor_falsePositive :
    Client.Routing.hasCacheFor (announcedSpan smallConfig .float16 4 () 0 1
        { state := .online, throughput := 1 }) (some 1) = true ∧
      ∃ size, getAllocationSize ((InferenceBackend.onDevice smallConfig .float16
        ()).sessionDescriptors 1 2 1) = some size ∧ 4 < size := by
  constructor
  · rfl
  · exact ⟨8, rfl, by decide⟩

end estimate

end Peerz.Server
