import Peerz.Models.Falcon

/-! Compressing the cache of a Falcon block loses nothing: what the attention caches repeats each
key/value head for the heads of its group, in the order in which the stored heads are repeated. -/
namespace Peerz.Models
open Library

variable {α : Type}

namespace FalconConfig
variable (config : FalconConfig)

def groupSize : Nat := config.numAttentionHeads / config.numKvHeads

theorem kvHeads_pos : 0 < config.numKvHeads :=
  Nat.pos_of_dvd_of_pos config.kvHeads_dvd config.heads_pos

theorem heads_eq : config.numAttentionHeads = config.numKvHeads * config.groupSize :=
  (Nat.mul_div_cancel' config.kvHeads_dvd).symm

theorem groupSize_pos : 0 < config.groupSize :=
  Nat.div_pos (Nat.le_of_dvd config.heads_pos config.kvHeads_dvd) config.kvHeads_pos

theorem numKeyValueGroups_eq {config : FalconConfig} (hnew : config.newDecoderArchitecture = true) :
    config.numKeyValueGroups = config.groupSize :=
  if_pos hnew

def kvHead (head : Fin config.numAttentionHeads) : Fin config.numKvHeads :=
  ⟨head / config.groupSize, Nat.div_lt_of_lt_mul (by
    rw [Nat.mul_comm, ← config.heads_eq]
    exact head.isLt)⟩

def member (head : Fin config.numAttentionHeads) : Fin config.groupSize :=
  ⟨head % config.groupSize, Nat.mod_lt _ config.groupSize_pos⟩

def headOf (kvHead : Fin config.numKvHeads) (member : Fin config.groupSize) :
    Fin config.numAttentionHeads :=
  Fin.cast config.heads_eq.symm (Fin.mkDivMod kvHead member)

@[simp] theorem val_headOf (kvHead : Fin config.numKvHeads) (member : Fin config.groupSize) :
    (config.headOf kvHead member).val = kvHead * config.groupSize + member := by
  simp [headOf, Nat.mul_comm]

@[simp] theorem kvHead_headOf (kvHead : Fin config.numKvHeads) (member : Fin config.groupSize) :
    config.kvHead (config.headOf kvHead member) = kvHead := by
  apply Fin.ext
  change (config.headOf kvHead member).val / config.groupSize = kvHead
  rw [val_headOf, Nat.mul_comm, Nat.mul_add_div config.groupSize_pos,
    Nat.div_eq_of_lt member.isLt, Nat.add_zero]

theorem val_head (head : Fin config.numAttentionHeads) :
    head.val = config.kvHead head * config.groupSize + config.member head :=
  (Nat.div_add_mod' head.val config.groupSize).symm

def storedHeads {batch : Nat} {rest : List Nat}
    (heads : Fin batch → Fin config.numKvHeads → Index rest → α) : Tensor α :=
  ⟨(batch * config.numKvHeads) :: rest, fun (row, index) => heads row.divNat row.modNat index⟩

/-- A tensor with one row for each attention head, equal for the heads of a group. -/
def repeatedHeads {batch : Nat} {rest : List Nat}
    (heads : Fin batch → Fin config.numKvHeads → Index rest → α) : Tensor α :=
  ⟨(batch * config.numAttentionHeads) :: rest, fun (row, index) =>
    heads row.divNat (config.kvHead row.modNat) index⟩

def groupedHeads {batch : Nat} {rest : List Nat} (members : Nat)
    (heads : Fin batch → Fin config.numKvHeads → Index rest → α) : Tensor α :=
  ⟨batch :: config.numKvHeads :: members :: rest, fun (sequence, kvHead, _, index) =>
    heads sequence kvHead index⟩

theorem exists_storedHeads {batch : Nat} {rest : List Nat}
    (entry : Index ((batch * config.numKvHeads) :: rest) → α) :
    (⟨_, entry⟩ : Tensor α) =
      config.storedHeads fun sequence kvHead index => entry (Fin.mkDivMod sequence kvHead, index) := by
  unfold storedHeads
  congr 1
  funext ⟨row, index⟩
  simp

section views
variable {config} {batch : Nat} {rest : List Nat}
  (heads : Fin batch → Fin config.numKvHeads → Index rest → α)

private theorem view_storedHeads :
    (config.storedHeads heads).view? (batch :: config.numKvHeads :: 1 :: rest) =
      some (config.groupedHeads 1 heads) := by
  let source : Index (batch :: config.numKvHeads :: 1 :: rest) →
      Index ((batch * config.numKvHeads) :: rest) :=
    fun (sequence, kvHead, _, index) => (Fin.mkDivMod sequence kvHead, index)
  refine (Tensor.view?_eq source (by simp; ring) ?_).trans ?_
  · rintro ⟨sequence, kvHead, single, index⟩
    simp [source]
    ring
  · unfold groupedHeads
    congr 2
    funext ⟨sequence, kvHead, single, index⟩
    simp [source]

private theorem view_groupedHeads :
    (config.groupedHeads config.groupSize heads).view?
      ((batch * config.numAttentionHeads) :: rest) = some (config.repeatedHeads heads) := by
  let source : Index ((batch * config.numAttentionHeads) :: rest) →
      Index (batch :: config.numKvHeads :: config.groupSize :: rest) :=
    fun (row, index) =>
      (row.divNat, config.kvHead row.modNat, config.member row.modNat, index)
  refine (Tensor.view?_eq source ?_ ?_).trans rfl
  · simp only [List.prod_cons]
    rw [config.heads_eq]
    ring
  · rintro ⟨row, index⟩
    have hrow : row.val = row / config.numAttentionHeads * (config.numKvHeads * config.groupSize) +
        (config.kvHead row.modNat * config.groupSize + config.member row.modNat) := by
      rw [← config.heads_eq, ← config.val_head]
      exact (Nat.div_add_mod' row.val config.numAttentionHeads).symm
    simp only [Index.offset_cons, List.prod_cons, Fin.coe_divNat, source]
    conv_rhs => rw [hrow]
    ring

private theorem view_repeatedHeads :
    (config.repeatedHeads heads).view? (batch :: config.numKvHeads :: config.groupSize :: rest) =
      some (config.groupedHeads config.groupSize heads) := by
  let source : Index (batch :: config.numKvHeads :: config.groupSize :: rest) →
      Index ((batch * config.numAttentionHeads) :: rest) :=
    fun (sequence, kvHead, member, index) =>
      (Fin.mkDivMod sequence (config.headOf kvHead member), index)
  refine (Tensor.view?_eq source ?_ ?_).trans ?_
  · simp only [List.prod_cons]
    rw [config.heads_eq]
    ring
  · rintro ⟨sequence, kvHead, member, index⟩
    simp only [Index.offset_cons, List.prod_cons, Fin.coe_mkDivMod, val_headOf, source]
    rw [config.heads_eq]
    ring
  · unfold groupedHeads
    congr 2
    funext ⟨sequence, kvHead, member, index⟩
    simp [source]

private theorem view_ungrouped :
    (⟨batch :: config.numKvHeads :: rest, fun (sequence, kvHead, index) =>
        heads sequence kvHead index⟩ : Tensor α).view? ((batch * config.numKvHeads) :: rest) =
      some (config.storedHeads heads) := by
  let source : Index ((batch * config.numKvHeads) :: rest) →
      Index (batch :: config.numKvHeads :: rest) :=
    fun (row, index) => (row.divNat, row.modNat, index)
  refine (Tensor.view?_eq source (by simp; ring) ?_).trans rfl
  rintro ⟨row, index⟩
  have hrow := Nat.div_add_mod' row.val config.numKvHeads
  simp only [Index.offset_cons, List.prod_cons, Fin.coe_divNat, Fin.coe_modNat, source]
  conv_rhs => rw [← hrow]
  ring

end views

section states
variable {config} {batch seqLen headDim : Nat}
  (heads : Fin batch → Fin config.numKvHeads → Index [seqLen, headDim] → α)

theorem expandStates_storedHeads (hnew : config.newDecoderArchitecture = true) :
    config.expandStates (config.storedHeads heads) = some (config.repeatedHeads heads) := by
  have hbatch : batch * config.numKvHeads / config.numKvHeads = batch :=
    Nat.mul_div_cancel batch config.kvHeads_pos
  have hbroadcast : Tensor.broadcastIndex? [batch, config.numKvHeads, 1, seqLen, headDim]
      [batch, config.numKvHeads, config.groupSize, seqLen, headDim] =
        some fun (sequence, kvHead, _, index) => (sequence, kvHead, 0, index) := by
    rw [Tensor.broadcastIndex?_cons, Tensor.broadcastIndex?_cons,
      Tensor.broadcastIndex?_cons_one, Tensor.broadcastIndex?_self]
    rfl
  unfold expandStates
  rw [numKeyValueGroups_eq hnew]
  dsimp only [storedHeads]
  rw [hbatch]
  refine Option.bind_eq_some_iff.mpr ⟨_, view_storedHeads heads, ?_⟩
  refine Option.bind_eq_some_iff.mpr ⟨_, congrArg (Option.map _) hbroadcast, ?_⟩
  exact view_groupedHeads heads

theorem collapseStates_repeatedHeads (hnew : config.newDecoderArchitecture = true) :
    config.collapseStates (config.repeatedHeads heads) = some (config.storedHeads heads) := by
  have hbatch : batch * config.numAttentionHeads / config.numAttentionHeads = batch :=
    Nat.mul_div_cancel batch config.heads_pos
  unfold collapseStates
  rw [numKeyValueGroups_eq hnew]
  dsimp only [repeatedHeads]
  rw [hbatch]
  refine Option.bind_eq_some_iff.mpr ⟨_, view_repeatedHeads heads, ?_⟩
  refine Option.bind_eq_some_iff.mpr ⟨_, dif_pos config.groupSize_pos, ?_⟩
  exact view_ungrouped heads

theorem mapHeads_repeatedHeads (hnew : config.newDecoderArchitecture = true)
    (f : Nat → (rest : List Nat) → (Index rest → α) → Index rest → α) :
    config.mapHeads f (config.repeatedHeads heads) =
      config.repeatedHeads fun sequence kvHead =>
        f (sequence * config.numKvHeads + kvHead) _ (heads sequence kvHead) := by
  unfold mapHeads repeatedHeads
  dsimp only
  congr 1
  funext ⟨row, index⟩
  have hrow : row.val / config.numKeyValueGroups =
      row.divNat * config.numKvHeads + config.kvHead row.modNat := by
    have hmod := Nat.div_add_mod row.val config.numAttentionHeads
    have hproduct : config.numAttentionHeads * (row.val / config.numAttentionHeads) =
        config.groupSize * (row.val / config.numAttentionHeads * config.numKvHeads) := by
      conv_lhs => lhs; rw [config.heads_eq]
      ring
    rw [numKeyValueGroups_eq hnew]
    conv_lhs => rw [← hmod, hproduct, Nat.mul_add_div config.groupSize_pos]
    rfl
  dsimp only
  rw [hrow]

def appendTokens {newLen : Nat}
    (newHeads : Fin batch → Fin config.numKvHeads → Index [newLen, headDim] → α)
    (sequence : Fin batch) (kvHead : Fin config.numKvHeads) :
    Index [seqLen + newLen, headDim] → α :=
  fun (position, index) =>
    Fin.addCases (fun position => heads sequence kvHead (position, index))
      (fun position => newHeads sequence kvHead (position, index)) position

theorem cat?_repeatedHeads {newLen : Nat}
    (newHeads : Fin batch → Fin config.numKvHeads → Index [newLen, headDim] → α) :
    (config.repeatedHeads heads).cat? (config.repeatedHeads newHeads) =
      some (config.repeatedHeads (appendTokens heads newHeads)) :=
  Tensor.cat?_eq _ _

end states

/-! The new keys and values, as `split_heads` finds them in the fused projection. -/

section fused
variable {config} {batch seqLen : Nat}

theorem qkvOutDim_eq (config : FalconConfig) :
    config.numKvHeads * (config.groupSize + 2) * config.headDim = config.qkvOutDim := by
  unfold qkvOutDim
  rw [config.heads_eq]
  ring

/-- The column of the fused projection for one of the `groupSize` queries, the key or the value
of a head. -/
def column (kvHead : Fin config.numKvHeads) (slot : Fin (config.groupSize + 2))
    (dim : Fin config.headDim) : Fin config.qkvOutDim :=
  Fin.cast config.qkvOutDim_eq (Fin.mkDivMod (Fin.mkDivMod kvHead slot) dim)

variable (entry : Index [batch, seqLen, config.qkvOutDim] → α)

def headsAt (slot : Fin (config.groupSize + 2)) (sequence : Fin batch)
    (kvHead : Fin config.numKvHeads) : Index [seqLen, config.headDim] → α :=
  fun (position, dim, _) => entry (sequence, position, column kvHead slot dim, ())

private theorem inferSize?_fused {kvHeads : Nat}
    (h : (⟨_, entry⟩ : Tensor α).inferSize? [batch, seqLen, config.groupSize + 2, config.headDim] =
      some kvHeads) : kvHeads = config.numKvHeads := by
  have hprod : [batch, seqLen, config.qkvOutDim].prod =
      config.numKvHeads * [batch, seqLen, config.groupSize + 2, config.headDim].prod := by
    simp only [List.prod_cons, List.prod_nil, ← config.qkvOutDim_eq]
    ring
  unfold Tensor.inferSize? at h
  split at h
  · rename_i hknown
    rw [hprod, Nat.mul_div_cancel _ (Nat.pos_of_ne_zero hknown.1)] at h
    exact (Option.some.inj h).symm
  · cases h

private theorem view_fused :
    (⟨_, entry⟩ : Tensor α).view?
        [batch, seqLen, config.numKvHeads, config.groupSize + 2, config.headDim] =
      some ⟨[batch, seqLen, config.numKvHeads, config.groupSize + 2, config.headDim],
        fun (sequence, position, kvHead, slot, dim, _) =>
          entry (sequence, position, column kvHead slot dim, ())⟩ := by
  let source : Index [batch, seqLen, config.numKvHeads, config.groupSize + 2, config.headDim] →
      Index [batch, seqLen, config.qkvOutDim] :=
    fun (sequence, position, kvHead, slot, dim, _) =>
      (sequence, position, column kvHead slot dim, ())
  refine (Tensor.view?_eq source ?_ ?_).trans rfl
  · simp only [List.prod_cons, List.prod_nil, ← config.qkvOutDim_eq]
    ring
  · rintro ⟨sequence, position, kvHead, slot, dim, _⟩
    simp only [Index.offset_cons, Index.offset_nil, List.prod_cons, List.prod_nil, column,
      Fin.val_cast, Fin.coe_mkDivMod, ← config.qkvOutDim_eq, source]
    ring

private def slotLayer (slot : Fin (config.groupSize + 2)) : Tensor α :=
  ⟨[batch, seqLen, config.numKvHeads, config.groupSize, config.headDim],
    fun (sequence, position, kvHead, _, dim, _) =>
      entry (sequence, position, column kvHead slot dim, ())⟩

private theorem narrow?_slot (slot : Fin (config.groupSize + 2)) :
    (⟨[batch, seqLen, config.numKvHeads, config.groupSize + 2, config.headDim],
        fun (sequence, position, kvHead, slot, dim, _) =>
          entry (sequence, position, column kvHead slot dim, ())⟩ : Tensor α).narrow? slot 1 =
      some ⟨[batch, seqLen, config.numKvHeads, 1, config.headDim],
        fun (sequence, position, kvHead, _, dim, _) =>
          entry (sequence, position, column kvHead slot dim, ())⟩ := by
  refine (dif_pos (by omega)).trans ?_
  congr 2
  funext ⟨sequence, position, kvHead, single, dim, _⟩
  have hslot : (⟨slot + single, by omega⟩ : Fin (config.groupSize + 2)) = slot :=
    Fin.ext (by simp)
  dsimp only
  rw [hslot]

private theorem broadcastTo?_slot (slot : Fin (config.groupSize + 2)) :
    (⟨[batch, seqLen, config.numKvHeads, 1, config.headDim],
        fun (sequence, position, kvHead, _, dim, _) =>
          entry (sequence, position, column kvHead slot dim, ())⟩ : Tensor α).broadcastTo?
      [batch, seqLen, config.numKvHeads, config.groupSize, config.headDim] =
        some (slotLayer entry slot) := by
  unfold Tensor.broadcastTo?
  rw [Tensor.broadcastIndex?_cons, Tensor.broadcastIndex?_cons, Tensor.broadcastIndex?_cons,
    Tensor.broadcastIndex?_cons_one, Tensor.broadcastIndex?_self]
  rfl

private theorem flatten?_slotLayer (slot : Fin (config.groupSize + 2)) :
    (slotLayer entry slot).flatten? =
      some ⟨[batch, seqLen, config.numKvHeads * config.groupSize, config.headDim],
        fun (sequence, position, head, dim, _) =>
          entry (sequence, position, column head.divNat slot dim, ())⟩ := by
  let source : Index [batch, seqLen, config.numKvHeads * config.groupSize, config.headDim] →
      Index [batch, seqLen, config.numKvHeads, config.groupSize, config.headDim] :=
    fun (sequence, position, head, dim, _) =>
      (sequence, position, head.divNat, head.modNat, dim, ())
  refine (Tensor.view?_eq source ?_ ?_).trans rfl
  · simp only [List.prod_cons, List.prod_nil]
    ring
  · rintro ⟨sequence, position, head, dim, _⟩
    have hhead := Nat.div_add_mod' head.val config.groupSize
    simp only [Index.offset_cons, Index.offset_nil, List.prod_cons, List.prod_nil, Fin.coe_divNat,
      Fin.coe_modNat, source]
    conv_rhs => rw [← hhead]
    ring

private theorem flattenHeads_slot (slot : Fin (config.groupSize + 2)) :
    config.flattenHeads ⟨[batch, seqLen, config.numKvHeads * config.groupSize, config.headDim],
      fun (sequence, position, head, dim, _) =>
        entry (sequence, position, column head.divNat slot dim, ())⟩ =
      some (config.repeatedHeads (headsAt entry slot)) := by
  let source : Index [batch * config.numAttentionHeads, seqLen, config.headDim] →
      Index [batch, config.numKvHeads * config.groupSize, seqLen, config.headDim] :=
    fun (row, index) => (row.divNat, Fin.cast config.heads_eq row.modNat, index)
  refine (Tensor.view?_eq source ?_ ?_).trans rfl
  · simp only [List.prod_cons, ← config.heads_eq]
    ring
  · rintro ⟨row, index⟩
    have hrow := Nat.div_add_mod' row.val config.numAttentionHeads
    simp only [Index.offset_cons, List.prod_cons, Fin.coe_divNat, Fin.coe_modNat, Fin.val_cast,
      ← config.heads_eq, source]
    conv_rhs => rw [← hrow]
    ring

def keySlot (config : FalconConfig) : Fin (config.groupSize + 2) := ⟨config.groupSize, by omega⟩
def valueSlot (config : FalconConfig) : Fin (config.groupSize + 2) :=
  ⟨config.groupSize + 1, by omega⟩

theorem keyValueLayers_eq {keyValue : KVCache α}
    (h : config.keyValueLayers ⟨[batch, seqLen, config.qkvOutDim], entry⟩ = some keyValue) :
    keyValue = (config.repeatedHeads (headsAt entry config.keySlot),
      config.repeatedHeads (headsAt entry config.valueSlot)) := by
  obtain ⟨⟨query, key, value⟩, hsplit, h⟩ := Option.bind_eq_some_iff.mp h
  obtain ⟨kvHeads, hkvHeads, hsplit⟩ := Option.bind_eq_some_iff.mp hsplit
  obtain rfl := inferSize?_fused entry hkvHeads
  obtain ⟨qkv, hqkv, hsplit⟩ := Option.bind_eq_some_iff.mp hsplit
  obtain rfl := Option.some.inj ((view_fused entry).symm.trans hqkv)
  obtain ⟨queryPart, hquery, hsplit⟩ := Option.bind_eq_some_iff.mp hsplit
  obtain rfl := Option.some.inj (hquery.symm.trans (dif_pos (by
    change 0 + config.groupSize ≤ config.groupSize + 2
    omega)))
  obtain ⟨keyPart, hkey, hsplit⟩ := Option.bind_eq_some_iff.mp hsplit
  obtain rfl := Option.some.inj (hkey.symm.trans (narrow?_slot entry config.keySlot))
  obtain ⟨valuePart, hvalue, hsplit⟩ := Option.bind_eq_some_iff.mp hsplit
  obtain rfl := Option.some.inj (hvalue.symm.trans (narrow?_slot entry config.valueSlot))
  obtain ⟨keyLayer, hkey, hsplit⟩ := Option.bind_eq_some_iff.mp hsplit
  obtain rfl := Option.some.inj (hkey.symm.trans (broadcastTo?_slot entry config.keySlot))
  obtain ⟨valueLayer, hvalue, hsplit⟩ := Option.bind_eq_some_iff.mp hsplit
  obtain rfl := Option.some.inj (hvalue.symm.trans (broadcastTo?_slot entry config.valueSlot))
  obtain ⟨queryFlat, -, hsplit⟩ := Option.bind_eq_some_iff.mp hsplit
  obtain ⟨keyFlat, hkey, hsplit⟩ := Option.bind_eq_some_iff.mp hsplit
  obtain rfl := Option.some.inj (hkey.symm.trans (flatten?_slotLayer entry config.keySlot))
  obtain ⟨valueFlat, hvalue, hsplit⟩ := Option.bind_eq_some_iff.mp hsplit
  obtain rfl := Option.some.inj (hvalue.symm.trans (flatten?_slotLayer entry config.valueSlot))
  cases hsplit
  obtain ⟨keyLayer, hkey, h⟩ := Option.bind_eq_some_iff.mp h
  obtain rfl := Option.some.inj (hkey.symm.trans (flattenHeads_slot entry config.keySlot))
  obtain ⟨valueLayer, hvalue, h⟩ := Option.bind_eq_some_iff.mp h
  obtain rfl := Option.some.inj (hvalue.symm.trans (flattenHeads_slot entry config.valueSlot))
  exact (Option.some.inj h).symm

end fused

section rotary
variable [Add α] [Mul α] (rotateHalf : (dims : Nat) → (Fin dims → α) → Fin dims → α)
  (cos sin : Nat → Nat → α)

def rotateTokens : (rest : List Nat) → (Index rest → α) → Index rest → α
  | [_, dims], tokens => fun (position, dim, _) =>
      tokens (position, dim, ()) * cos position dim +
        rotateHalf dims (fun dim => tokens (position, dim, ())) dim * sin position dim
  | _, tokens => tokens

theorem applyRotary_eq_mapHeads (tensor : Tensor α) :
    applyRotary rotateHalf cos sin tensor =
      config.mapHeads (fun _ => rotateTokens rotateHalf cos sin) tensor := by
  obtain ⟨shape, entry⟩ := tensor
  match shape with
  | [_, _, _] => rfl
  | [] | [_] | [_, _] | _ :: _ :: _ :: _ :: _ => rfl

end rotary

/-! The two conversions of a cache. -/

section reorder
variable {config} {batch seqLen headDim : Nat}

/-- A cache as the server keeps it, with the tokens of the keys in the last dimension. -/
def bloomCache (keyHeads valueHeads : Fin batch → Fin config.numKvHeads →
    Index [seqLen, headDim] → α) : KVCache α :=
  (⟨[batch * config.numKvHeads, headDim, seqLen], fun (row, dim, position, _) =>
    keyHeads row.divNat row.modNat (position, dim, ())⟩, config.storedHeads valueHeads)

theorem exists_bloomCache (keys : Index [batch * config.numKvHeads, headDim, seqLen] → α)
    (values : Index [batch * config.numKvHeads, seqLen, headDim] → α) :
    ((⟨_, keys⟩, ⟨_, values⟩) : KVCache α) =
      bloomCache
        (fun sequence kvHead (position, dim, _) =>
          keys (Fin.mkDivMod sequence kvHead, dim, position, ()))
        (fun sequence kvHead index => values (Fin.mkDivMod sequence kvHead, index)) := by
  refine congrArg₂ Prod.mk ?_ (config.exists_storedHeads values)
  congr 1
  funext ⟨row, dim, position, _⟩
  simp

variable (hnew : config.newDecoderArchitecture = true)
  (keyHeads valueHeads : Fin batch → Fin config.numKvHeads → Index [seqLen, headDim] → α)
include hnew

theorem reorderCacheFromBloomToFalcon_eq :
    config.reorderCacheFromBloomToFalcon (bloomCache keyHeads valueHeads) =
      some (config.repeatedHeads keyHeads, config.repeatedHeads valueHeads) := by
  have hshape : (config.storedHeads keyHeads).shape = (bloomCache keyHeads valueHeads).2.shape := rfl
  unfold reorderCacheFromBloomToFalcon
  refine Option.bind_eq_some_iff.mpr ⟨config.storedHeads keyHeads, rfl, ?_⟩
  rw [if_pos hshape, if_pos hnew]
  refine Option.bind_eq_some_iff.mpr ⟨_, expandStates_storedHeads keyHeads hnew, ?_⟩
  exact Option.bind_eq_some_iff.mpr ⟨_, expandStates_storedHeads valueHeads hnew, rfl⟩

theorem reorderCacheFromFalconToBloom_eq :
    config.reorderCacheFromFalconToBloom
        (config.repeatedHeads keyHeads, config.repeatedHeads valueHeads) =
      some (bloomCache keyHeads valueHeads) := by
  have hshape : (config.storedHeads keyHeads).shape = (config.storedHeads valueHeads).shape := rfl
  unfold reorderCacheFromFalconToBloom
  rw [if_pos hnew]
  refine Option.bind_eq_some_iff.mpr ⟨_, collapseStates_repeatedHeads keyHeads hnew, ?_⟩
  refine Option.bind_eq_some_iff.mpr ⟨_, collapseStates_repeatedHeads valueHeads hnew, ?_⟩
  exact (if_pos hshape).trans rfl

end reorder

/-- A stored cache survives its expansion, the keys and values of new tokens survive their
compression, and an attention head has the tokens of one key/value head, cached and new. -/
theorem reorderCache_lossless (hnew : config.newDecoderArchitecture = true) :
    (∀ (batch seqLen headDim : Nat)
      (keys : Index [batch * config.numKvHeads, headDim, seqLen] → α)
      (values : Index [batch * config.numKvHeads, seqLen, headDim] → α),
      (config.reorderCacheFromBloomToFalcon (⟨_, keys⟩, ⟨_, values⟩)).bind
        config.reorderCacheFromFalconToBloom = some (⟨_, keys⟩, ⟨_, values⟩)) ∧
    (∀ (batch seqLen : Nat) (fusedQkv : Index [batch, seqLen, config.qkvOutDim] → α) keyValue,
      config.keyValueLayers ⟨_, fusedQkv⟩ = some keyValue → ∀ keyMap valueMap,
        let mapped := (config.mapHeads keyMap keyValue.1, config.mapHeads valueMap keyValue.2)
        (config.reorderCacheFromFalconToBloom mapped).bind config.reorderCacheFromBloomToFalcon =
          some mapped) ∧
    ∀ (batch pastLen seqLen : Nat)
      (keys : Index [batch * config.numKvHeads, config.headDim, pastLen] → α)
      (values : Index [batch * config.numKvHeads, pastLen, config.headDim] → α)
      (fusedQkv : Index [batch, seqLen, config.qkvOutDim] → α)
      (rotary : Nat → Nat → (rest : List Nat) → (Index rest → α) → Index rest → α)
      (layerPast present : KVCache α),
      config.reorderCacheFromBloomToFalcon (⟨_, keys⟩, ⟨_, values⟩) = some layerPast →
      config.present (fun past => config.mapHeads (rotary past)) ⟨_, fusedQkv⟩ (some layerPast) =
        some present →
      (config.reorderCacheFromFalconToBloom present).bind config.reorderCacheFromBloomToFalcon =
          some present ∧
        present =
          (config.repeatedHeads (appendTokens
            (fun sequence kvHead (position, dim, _) =>
              keys (Fin.mkDivMod sequence kvHead, dim, position, ()))
            fun sequence kvHead =>
              rotary pastLen (sequence * config.numKvHeads + kvHead) _
                (headsAt fusedQkv config.keySlot sequence kvHead)),
          config.repeatedHeads (appendTokens
            (fun sequence kvHead index => values (Fin.mkDivMod sequence kvHead, index))
            (headsAt fusedQkv config.valueSlot))) := by
  refine ⟨fun batch seqLen headDim keys values => ?_,
    fun batch seqLen fusedQkv keyValue hlayers keyMap valueMap => ?_,
    fun batch pastLen seqLen keys values fusedQkv rotary layerPast present hpast hpresent => ?_⟩
  · rw [exists_bloomCache keys values, reorderCacheFromBloomToFalcon_eq hnew]
    exact reorderCacheFromFalconToBloom_eq hnew _ _
  · obtain rfl := keyValueLayers_eq fusedQkv hlayers
    dsimp only
    rw [mapHeads_repeatedHeads _ hnew, mapHeads_repeatedHeads _ hnew,
      reorderCacheFromFalconToBloom_eq hnew]
    exact reorderCacheFromBloomToFalcon_eq hnew _ _
  · rw [exists_bloomCache keys values, reorderCacheFromBloomToFalcon_eq hnew] at hpast
    obtain rfl := Option.some.inj hpast
    obtain ⟨keyValue, hlayers, hpresent⟩ := Option.bind_eq_some_iff.mp hpresent
    obtain rfl := keyValueLayers_eq fusedQkv hlayers
    obtain ⟨keyLayer, hkey, hpresent⟩ := Option.bind_eq_some_iff.mp hpresent
    dsimp only at hkey
    rw [mapHeads_repeatedHeads _ hnew, cat?_repeatedHeads] at hkey
    obtain rfl := Option.some.inj hkey
    obtain ⟨valueLayer, hvalue, hpresent⟩ := Option.bind_eq_some_iff.mp hpresent
    rw [cat?_repeatedHeads] at hvalue
    obtain rfl := Option.some.inj hvalue
    obtain rfl := Option.some.inj hpresent
    refine ⟨?_, rfl⟩
    rw [reorderCacheFromFalconToBloom_eq hnew]
    exact reorderCacheFromBloomToFalcon_eq hnew _ _

private def fourHeads : FalconConfig where
  numAttentionHeads := 4
  numKvHeads := 2
  headDim := 1
  newDecoderArchitecture := true
  multiQuery := false
  heads_pos := by decide
  kvHeads_dvd := by decide

theorem reorderCache_lossless_fourHeads :
    let past : KVCache Nat :=
      (⟨[2, 1, 1], fun (row, _) => row⟩, ⟨[2, 1, 1], fun (row, _) => row + 2⟩)
    let fusedQkv : Tensor Nat := ⟨[1, 1, fourHeads.qkvOutDim], fun (_, _, column, _) => 10 + column⟩
    (fourHeads.reorderCacheFromBloomToFalcon past).bind fourHeads.reorderCacheFromFalconToBloom =
        some past ∧
      ∃ layerPast present, fourHeads.reorderCacheFromBloomToFalcon past = some layerPast ∧
        fourHeads.present (fun _ => fourHeads.mapHeads fun _ _ tokens => tokens) fusedQkv
          (some layerPast) = some present ∧
        (fourHeads.reorderCacheFromFalconToBloom present).bind
          fourHeads.reorderCacheFromBloomToFalcon = some present := by
  intro past fusedQkv
  obtain ⟨hstored, -, hpresent⟩ := @reorderCache_lossless Nat fourHeads rfl
  refine ⟨hstored 1 1 1 _ _, ?_⟩
  have hpast : (fourHeads.reorderCacheFromBloomToFalcon past).isSome := by decide +kernel
  obtain ⟨layerPast, hpast⟩ := Option.isSome_iff_exists.mp hpast
  have hstep : ((fourHeads.reorderCacheFromBloomToFalcon past).bind fun layerPast =>
      fourHeads.present (fun _ => fourHeads.mapHeads fun _ _ tokens => tokens) fusedQkv
        (some layerPast)).isSome := by decide +kernel
  rw [hpast, Option.bind_some] at hstep
  obtain ⟨present, hstep⟩ := Option.isSome_iff_exists.mp hstep
  exact ⟨layerPast, present, hpast, hstep,
    (hpresent 1 1 1 _ _ _ (fun _ _ _ tokens => tokens) layerPast present hpast hstep).1⟩

end FalconConfig
end Peerz.Models
