import Peerz.Server.Backend
import Peerz.Server.CacheLayout

/-! The cache tensors of a block as one list of slots, each with the keys and values of all devices
at one position. Over the slots a block with causal attention is an `AttentionBlock`, and its step
over the tensors is the step of that block. -/
namespace Peerz.Server
open Library

variable {shards batch headDim maxLength : Nat} {kvHeads : Fin shards → Nat} {Hidden Value : Type}

structure CacheSlot (kvHeads : Fin shards → Nat) (batch headDim : Nat) (Value : Type) where
  keys : ∀ i, Fin batch → Fin (kvHeads i) → Fin headDim → Value
  values : ∀ i, Fin batch → Fin (kvHeads i) → Fin headDim → Value

namespace CacheTensors

def slotAt (cache : CacheTensors kvHeads batch headDim maxLength Value) (position : Fin maxLength) :
    CacheSlot kvHeads batch headDim Value where
  keys := fun i sequence head dim => cache.keys i sequence head dim position
  values := fun i sequence head dim => cache.values i sequence head position dim

def slots (cache : CacheTensors kvHeads batch headDim maxLength Value) :
    List (CacheSlot kvHeads batch headDim Value) :=
  List.ofFn cache.slotAt

@[simp] theorem length_slots (cache : CacheTensors kvHeads batch headDim maxLength Value) :
    cache.slots.length = maxLength :=
  List.length_ofFn

theorem getElem_slots (cache : CacheTensors kvHeads batch headDim maxLength Value) {position : Nat}
    (h : position < cache.slots.length) :
    cache.slots[position] = cache.slotAt ⟨position, cache.length_slots ▸ h⟩ :=
  List.getElem_ofFn h

end CacheTensors

namespace LayerPast

def slotAt (past : LayerPast kvHeads batch headDim Value) (position : Fin past.kvLength) :
    CacheSlot kvHeads batch headDim Value where
  keys := fun i sequence head dim => past.keys i (Fin.mkDivMod sequence head) dim position
  values := fun i sequence head dim => past.values i (Fin.mkDivMod sequence head) position dim

def slots (past : LayerPast kvHeads batch headDim Value) :
    List (CacheSlot kvHeads batch headDim Value) :=
  List.ofFn past.slotAt

@[simp] theorem length_slots (past : LayerPast kvHeads batch headDim Value) :
    past.slots.length = past.kvLength :=
  List.length_ofFn

theorem getElem_slots (past : LayerPast kvHeads batch headDim Value) {position : Nat}
    (h : position < past.slots.length) :
    past.slots[position] = past.slotAt ⟨position, past.length_slots ▸ h⟩ :=
  List.getElem_ofFn h

def ofSlots (slots : List (CacheSlot kvHeads batch headDim Value)) :
    LayerPast kvHeads batch headDim Value where
  kvLength := slots.length
  keys := fun i row dim position => (slots.get position).keys i row.divNat row.modNat dim
  values := fun i row position dim => (slots.get position).values i row.divNat row.modNat dim

theorem slots_ofSlots (slots : List (CacheSlot kvHeads batch headDim Value)) :
    (ofSlots slots).slots = slots := by
  have hslot : (ofSlots slots).slotAt = slots.get := by
    funext position
    simp only [slotAt, ofSlots, Fin.divNat_mkDivMod, Fin.modNat_mkDivMod]
  exact (congrArg List.ofFn hslot).trans (List.ofFn_get slots)

theorem ofSlots_slots (past : LayerPast kvHeads batch headDim Value) :
    ofSlots past.slots = past := by
  have hslot (position : Fin past.slots.length) :
      past.slots.get position = past.slotAt (position.cast past.length_slots) :=
    past.getElem_slots position.isLt
  apply ext_of_cast past.length_slots
  · intro i row dim position
    refine (congrArg (fun slot => slot.keys i row.divNat row.modNat dim) (hslot position)).trans ?_
    simp only [slotAt, Fin.divNat_mkDivMod_modNat]
    rfl
  · intro i row position dim
    refine (congrArg (fun slot => slot.values i row.divNat row.modNat dim)
      (hslot position)).trans ?_
    simp only [slotAt, Fin.divNat_mkDivMod_modNat]
    rfl

theorem Extends.slots {past new : LayerPast kvHeads batch headDim Value} {count : Nat}
    (h : Extends past new count) :
    past.slots <+: new.slots ∧ new.slots.length = past.slots.length + count := by
  have hlength : new.slots.length = past.slots.length + count := by
    rw [new.length_slots, past.length_slots, h.kvLength]
  refine ⟨List.prefix_iff_getElem.mpr ⟨by omega, ?_⟩, hlength⟩
  intro position hposition
  have hpast : position < past.kvLength := past.length_slots ▸ hposition
  have hnew : position < new.kvLength := by
    rw [h.kvLength]
    omega
  have hslot : new.slotAt ⟨position, hnew⟩ = past.slotAt ⟨position, hpast⟩ := by
    simp only [slotAt, h.keys _ _ _ ⟨position, hpast⟩, h.values _ _ ⟨position, hpast⟩]
  rw [getElem_slots, getElem_slots, hslot]

theorem extends_of_slots {past new : LayerPast kvHeads batch headDim Value} {count : Nat}
    (hkept : past.slots <+: new.slots) (hlength : new.slots.length = past.slots.length + count) :
    Extends past new count := by
  rw [length_slots, length_slots] at hlength
  have hslot (position : Fin past.kvLength) (h : position.val < new.kvLength) :
      new.slotAt ⟨position, h⟩ = past.slotAt position := by
    have hsame := (List.prefix_iff_getElem.mp hkept).2 position.val
      (by rw [length_slots]; exact position.isLt)
    rw [getElem_slots, getElem_slots] at hsame
    exact hsame.symm
  refine ⟨hlength, ?_, ?_⟩
  · intro i row dim position h
    have hkeys := congrArg (fun slot => slot.keys i row.divNat row.modNat dim) (hslot position h)
    simpa only [slotAt, Fin.divNat_mkDivMod_modNat] using hkeys
  · intro i row position dim h
    have hvalues := congrArg (fun slot => slot.values i row.divNat row.modNat dim) (hslot position h)
    simpa only [slotAt, Fin.divNat_mkDivMod_modNat] using hvalues

end LayerPast

theorem getElem?_updateSlots {Slot : Type} {cache new : List Slot} {prefixLength newLength : Nat}
    (hle : prefixLength ≤ newLength) (hnew : newLength ≤ new.length)
    (hcache : newLength ≤ cache.length) (position : Nat) :
    (updateSlots cache new prefixLength newLength)[position]? =
      if prefixLength ≤ position ∧ position < newLength then new[position]? else cache[position]? := by
  unfold updateSlots
  rcases Nat.lt_or_ge position prefixLength with hbefore | hfrom
  · rw [if_neg (by omega), List.append_assoc, List.getElem?_append_left, List.getElem?_take,
      if_pos hbefore]
    rw [List.length_take]
    omega
  · have hfirst : (cache.take prefixLength).length = prefixLength := by
      rw [List.length_take]
      omega
    have hsecond : ((new.take newLength).drop prefixLength).length = newLength - prefixLength := by
      rw [List.length_drop, List.length_take]
      omega
    rw [List.append_assoc, List.getElem?_append_right (by omega), hfirst]
    rcases Nat.lt_or_ge position newLength with hinside | hafter
    · rw [if_pos ⟨hfrom, hinside⟩, List.getElem?_append_left (by omega), List.getElem?_drop,
        List.getElem?_take, if_pos (by omega)]
      congr 1
      omega
    · rw [if_neg (by omega), List.getElem?_append_right (by omega), hsecond, List.getElem?_drop]
      congr 1
      omega

namespace CacheTensors

theorem ofSlots_take (cache : CacheTensors kvHeads batch headDim maxLength Value)
    (prefixLength : Nat) :
    LayerPast.ofSlots (cache.slots.take prefixLength) = cache.selectLayerPast prefixLength := by
  have hlength : (cache.slots.take prefixLength).length = min prefixLength maxLength := by
    rw [List.length_take, cache.length_slots]
  have hslot (position : Fin (cache.slots.take prefixLength).length) :
      (cache.slots.take prefixLength).get position =
        cache.slotAt ((position.cast hlength).castLE (Nat.min_le_right _ _)) := by
    rw [List.get_eq_getElem, List.getElem_take]
    exact cache.getElem_slots _
  apply LayerPast.ext_of_cast hlength
  · intro i row dim position
    exact congrArg (fun slot => slot.keys i row.divNat row.modNat dim) (hslot position)
  · intro i row position dim
    exact congrArg (fun slot => slot.values i row.divNat row.modNat dim) (hslot position)

theorem Written.slots {before after : CacheTensors kvHeads batch headDim maxLength Value}
    {new : LayerPast kvHeads batch headDim Value} {prefixLength count : Nat}
    (h : Written before after new prefixLength count) :
    after.slots = updateSlots before.slots new.slots prefixLength new.slots.length := by
  have hlength := h.kvLength
  have hfits := h.fits
  have hwritten (position : Nat) (hlow : prefixLength ≤ position) (hhigh : position < new.kvLength) :
      after.slotAt ⟨position, by omega⟩ = new.slotAt ⟨position, hhigh⟩ := by
    have hkeys := fun i sequence head dim =>
      h.keys i sequence head dim ⟨position, hhigh⟩ hlow
    have hvalues := fun i sequence head dim =>
      h.values i sequence head ⟨position, hhigh⟩ dim hlow
    simp only [Fin.castLE_mk] at hkeys hvalues
    simp only [slotAt, LayerPast.slotAt, hkeys, hvalues]
  have hother (position : Nat) (hlt : position < maxLength)
      (hout : position < prefixLength ∨ prefixLength + count ≤ position) :
      after.slotAt ⟨position, hlt⟩ = before.slotAt ⟨position, hlt⟩ := by
    simp only [slotAt, h.otherKeys _ _ _ _ ⟨position, hlt⟩ hout,
      h.otherValues _ _ _ ⟨position, hlt⟩ _ hout]
  have hnewSlots : new.slots.length = prefixLength + count := new.length_slots.trans hlength
  apply List.ext_getElem?
  intro position
  rw [getElem?_updateSlots (by omega) le_rfl (by rw [length_slots]; omega), hnewSlots]
  split
  · rename_i hwithin
    rw [List.getElem?_eq_getElem (by rw [length_slots]; omega),
      List.getElem?_eq_getElem (by omega), getElem_slots, LayerPast.getElem_slots,
      hwritten position hwithin.1]
  · rename_i hwithout
    rcases Nat.lt_or_ge position maxLength with hlt | hge
    · rw [List.getElem?_eq_getElem (by rwa [length_slots]),
        List.getElem?_eq_getElem (by rwa [length_slots]), getElem_slots, getElem_slots,
        hother position hlt (by omega)]
    · rw [List.getElem?_eq_none (by rwa [length_slots]),
        List.getElem?_eq_none (by rwa [length_slots])]

end CacheTensors

/-! The sequences of the batch in another order. -/

/-- The entry of `hypo_ids` for a sequence. The source raises where there is none in range, and
spreads a single entry over the batch; here such a list leaves the sequence where it is, so what is
said of reordering is about lists with an entry in range for each sequence. -/
def hypoId (hypoIds : List Nat) (sequence : Fin batch) : Fin batch :=
  match hypoIds[sequence.val]? with
  | some id => if h : id < batch then ⟨id, h⟩ else sequence
  | none => sequence

def CacheSlot.reorder (hypoIds : List Nat) (slot : CacheSlot kvHeads batch headDim Value) :
    CacheSlot kvHeads batch headDim Value where
  keys := fun i sequence => slot.keys i (hypoId hypoIds sequence)
  values := fun i sequence => slot.values i (hypoId hypoIds sequence)

/-- `hypo_ids` as the list that a request carries, dummy where no order is given. -/
def hypoIdList (hypoIds : Option (Fin batch → Fin batch)) : List Nat :=
  match hypoIds with
  | none => []
  | some hypoIds => List.ofFn fun sequence => (hypoIds sequence).val

theorem hypoId_ofFn (hypoIds : Fin batch → Fin batch) (sequence : Fin batch) :
    hypoId (List.ofFn fun sequence => (hypoIds sequence).val) sequence = hypoIds sequence := by
  unfold hypoId
  rw [List.getElem?_ofFn, dif_pos sequence.isLt]
  exact dif_pos (hypoIds sequence).isLt

theorem CacheTensors.slots_reorderCacheInplace
    (cache : CacheTensors kvHeads batch headDim maxLength Value)
    (hypoIds : Fin batch → Fin batch) :
    (cache.reorderCacheInplace (some hypoIds)).slots =
      cache.slots.map (CacheSlot.reorder (hypoIdList (some hypoIds))) := by
  rw [slots, slots, List.map_ofFn]
  congr 1
  funext position
  simp only [Function.comp_apply, CacheSlot.reorder, hypoIdList, hypoId_ofFn]
  rfl

namespace ShardedBackend

variable (backend : ShardedBackend kvHeads batch headDim Hidden Value)

def forwardSlots (past : List (CacheSlot kvHeads batch headDim Value))
    (tokens : List (Fin batch → Hidden)) :
    List (Fin batch → Hidden) × List (CacheSlot kvHeads batch headDim Value) :=
  let (outputs, newKvs) := backend.forward (.ofSlots past) tokens
  (outputs, newKvs.slots)

variable {backend} (hcausal : Causal backend.forward)
include hcausal

theorem forwardSlots_append (past : List (CacheSlot kvHeads batch headDim Value))
    {left right : List (Fin batch → Hidden)} (hleft : left ≠ []) (hright : right ≠ []) :
    backend.forwardSlots past (left ++ right) =
      ((backend.forwardSlots past left).1 ++
          (backend.forwardSlots (backend.forwardSlots past left).2 right).1,
        (backend.forwardSlots (backend.forwardSlots past left).2 right).2) := by
  simp only [forwardSlots, LayerPast.ofSlots_slots, hcausal.append _ _ _ hleft hright]

theorem forwardSlots_extends (past : List (CacheSlot kvHeads batch headDim Value))
    {tokens : List (Fin batch → Hidden)} (htokens : tokens ≠ []) :
    past <+: (backend.forwardSlots past tokens).2 ∧
      (backend.forwardSlots past tokens).2.length = past.length + tokens.length := by
  have hslots := (hcausal.extended (.ofSlots past) tokens htokens).slots
  rwa [LayerPast.slots_ofSlots] at hslots

theorem forwardSlots_length (past : List (CacheSlot kvHeads batch headDim Value))
    {tokens : List (Fin batch → Hidden)} (htokens : tokens ≠ []) :
    (backend.forwardSlots past tokens).1.length = tokens.length :=
  hcausal.outputs (.ofSlots past) tokens htokens

theorem forwardSlots_ne_nil (past : List (CacheSlot kvHeads batch headDim Value))
    {tokens : List (Fin batch → Hidden)} (htokens : tokens ≠ []) :
    (backend.forwardSlots past tokens).1 ≠ [] ∧ (backend.forwardSlots past tokens).2 ≠ [] := by
  have hpositive := List.length_pos_iff.mpr htokens
  have houtputs := forwardSlots_length hcausal past htokens
  have hslots := (forwardSlots_extends hcausal past htokens).2
  constructor
  · apply List.ne_nil_of_length_pos
    omega
  · apply List.ne_nil_of_length_pos
    omega

def decodeSlot (past : List (CacheSlot kvHeads batch headDim Value)) (token : Fin batch → Hidden) :
    (Fin batch → Hidden) × CacheSlot kvHeads batch headDim Value :=
  have hnonempty := forwardSlots_ne_nil hcausal past (List.cons_ne_nil token [])
  ((backend.forwardSlots past [token]).1.head hnonempty.1,
    (backend.forwardSlots past [token]).2.getLast hnonempty.2)

theorem forwardSlots_single (past : List (CacheSlot kvHeads batch headDim Value))
    (token : Fin batch → Hidden) :
    backend.forwardSlots past [token] =
      ([(decodeSlot hcausal past token).1], past ++ [(decodeSlot hcausal past token).2]) := by
  have hnonempty : [token] ≠ [] := List.cons_ne_nil token []
  obtain ⟨output, houtput⟩ := List.length_eq_one_iff.mp
    (forwardSlots_length hcausal past hnonempty)
  obtain ⟨⟨added, hadded⟩, hlength⟩ := forwardSlots_extends hcausal past hnonempty
  rw [← hadded, List.length_append] at hlength
  obtain ⟨slot, rfl⟩ := List.length_eq_one_iff.mp (Nat.add_left_cancel hlength)
  simp only [decodeSlot, houtput, ← hadded, List.head_cons, List.getLast_append_singleton]
  exact Prod.ext houtput hadded.symm

theorem forwardSlots_eq (past : Past (CacheSlot kvHeads batch headDim Value) 1)
    {tokens : List (Fin batch → Hidden)} (htokens : tokens ≠ []) :
    ((backend.forwardSlots (past 0) tokens).1,
        fun _ : Fin 1 => (backend.forwardSlots (past 0) tokens).2) =
      transduce (extendPast fun past token =>
        ((decodeSlot hcausal (past 0) token).1, fun _ => (decodeSlot hcausal (past 0) token).2))
        past tokens := by
  induction tokens generalizing past with
  | nil => exact absurd rfl htokens
  | cons token rest ih =>
      have hpast : (fun _ => past 0) = past := funext fun i => congrArg past (Subsingleton.elim 0 i)
      rw [← hpast]
      by_cases hrest : rest = []
      · subst hrest
        rw [forwardSlots_single]
        rfl
      · have hforward := forwardSlots_append hcausal (past 0) (List.cons_ne_nil token []) hrest
        rw [forwardSlots_single, List.singleton_append] at hforward
        rw [hforward]
        simp only [transduce, extendPast, ← ih _ hrest]
        rfl

def toAttentionBlock :
    AttentionBlock (Fin batch → Hidden) (CacheSlot kvHeads batch headDim Value) 1 where
  forward := fun past tokens =>
    let (outputs, slots) := backend.forwardSlots (past 0) tokens
    (outputs, fun _ => slots)
  decode := fun past token =>
    let (output, slot) := decodeSlot hcausal (past 0) token
    (output, fun _ => slot)
  forward_eq := fun past _ htokens => forwardSlots_eq hcausal past htokens
  reorderSlot := CacheSlot.reorder
  maxChunkSizeBytes := backend.maxChunkSizeBytes
  maxShardNumHeads := backend.shardNumHeads.max?.getD 0
  dtypeBytes := getSizeInBytes backend.dtype

variable {Handle : Type} {info : InferenceMetadata Handle 1}
  {cache : CacheTensors kvHeads batch headDim maxLength Value}
  {tensors : Tensors Handle (CacheSlot kvHeads batch headDim Value)}
  (hbatch : 0 < batch) (htensors : tensors (info.cacheHandles 0) = cache.slots)
include hbatch htensors

theorem reorderCache_eq (hypoIds : Option (Fin batch → Fin batch)) :
    (reorderCache (toAttentionBlock hcausal) (hypoIdList hypoIds) fun i =>
      tensors (info.cacheHandles i)) = fun _ => (cache.reorderCacheInplace hypoIds).slots := by
  funext i
  rw [Subsingleton.elim i 0]
  cases hypoIds with
  | none => exact htensors
  | some hypoIds =>
      have hnonempty : hypoIdList (some hypoIds) ≠ [] := by
        apply List.ne_nil_of_length_pos
        rwa [hypoIdList, List.length_ofFn]
      rw [cache.slots_reorderCacheInplace, ← htensors, reorderCache, if_neg hnonempty]
      rfl

/-- A step over the tensors is the step of the block over their slots. -/
theorem inferenceStep_refines [DecidableEq Handle] {hiddenStates : List (Fin batch → Hidden)}
    (hnonempty : hiddenStates ≠ [])
    (hlength : info.prefixLength + hiddenStates.length ≤ maxLength)
    (emptyLike : Nat → Fin batch → Hidden) (hypoIds : Option (Fin batch → Fin batch)) :
    ∃ outputs updated,
      backend.inferenceStep emptyLike hiddenStates hypoIds info.prefixLength cache =
        some (outputs, updated) ∧
      Server.inferenceStep (toAttentionBlock hcausal) batch hiddenStates (hypoIdList hypoIds) info
        tensors = (outputs, Function.update tensors (info.cacheHandles 0) updated.slots) := by
  have hprocessed : ((cache.reorderCacheInplace hypoIds).selectLayerPast
      info.prefixLength).kvLength = info.prefixLength := Nat.min_eq_left (by omega)
  obtain ⟨updated, hstep, hwritten, -⟩ := inferenceStep_unchunked hcausal hbatch hnonempty
    ((cache.reorderCacheInplace hypoIds).holds_selectLayerPast info.prefixLength) hprocessed hlength
    emptyLike
  refine ⟨_, updated, hstep, ?_⟩
  have hrun : (toAttentionBlock hcausal).run
      (selectLayerPast (fun _ => (cache.reorderCacheInplace hypoIds).slots) info.prefixLength)
      hiddenStates =
        let run := backend.forward
          ((cache.reorderCacheInplace hypoIds).selectLayerPast info.prefixLength) hiddenStates
        (run.1, fun _ => run.2.slots) := by
    rw [← CacheTensors.ofSlots_take]
    exact if_neg hnonempty
  rw [inferenceStep_eq, reorderCache_eq hcausal hbatch htensors, hrun, hwritten.slots]
  rfl

end ShardedBackend

end Peerz.Server
