import Peerz.Library.CausalLayer
import Peerz.Server.Hypotheses

/-! Backends that run a layer with causal attention meet what the sessions assume of a block. -/
namespace Peerz.Server
open Library

variable {batch headDim : Nat} {kvHeads : Fin 1 → Nat} {Hidden Value RowState : Type}
  {layer : CausalLayer (Fin batch → Hidden) (CacheSlot kvHeads batch headDim Value)
    (Fin batch → Hidden)}
  {rowLayer : CausalLayer Hidden RowState Hidden}

def RunsLayer (layer : CausalLayer (Fin batch → Hidden) (CacheSlot kvHeads batch headDim Value)
      (Fin batch → Hidden))
    (forward : LayerPast kvHeads batch headDim Value → List (Fin batch → Hidden) →
      List (Fin batch → Hidden) × LayerPast kvHeads batch headDim Value) : Prop :=
  ∀ layerPast hiddenStates, forward layerPast hiddenStates =
    ((layer.run layerPast.slots hiddenStates).1, .ofSlots (layer.run layerPast.slots hiddenStates).2)

theorem RunsLayer.causal {forward : LayerPast kvHeads batch headDim Value →
      List (Fin batch → Hidden) → List (Fin batch → Hidden) × LayerPast kvHeads batch headDim Value}
    (h : RunsLayer layer forward) : Causal forward where
  append layerPast left right _ _ := by
    simp only [h _ _, LayerPast.slots_ofSlots, layer.run_eq, (transduce_resumes layer.next).append]
  outputs layerPast hiddenStates _ := by
    rw [h, layer.run_eq]
    exact transduce_length _ _ _
  extended layerPast hiddenStates _ := by
    rw [h]
    apply LayerPast.extends_of_slots
    · rw [LayerPast.slots_ofSlots]
      exact layer.prefix_states _ _
    · rw [LayerPast.slots_ofSlots]
      exact layer.length_states _ _

def layerBlock {Token State : Type} (layer : CausalLayer Token State Token)
    (reorderSlot : List Nat → State → State) (maxChunkSizeBytes maxShardNumHeads dtypeBytes : Nat) :
    AttentionBlock Token State 1 where
  forward := transduce (extendPast fun past token =>
    ((layer.next (past (Fin.last 0)) token).1,
      fun _ => layer.newState (past (Fin.last 0)).length token))
  decode past token := ((layer.next (past (Fin.last 0)) token).1,
    fun _ => layer.newState (past (Fin.last 0)).length token)
  forward_eq _ _ _ := rfl
  reorderSlot := reorderSlot
  maxChunkSizeBytes := maxChunkSizeBytes
  maxShardNumHeads := maxShardNumHeads
  dtypeBytes := dtypeBytes

section backends
variable {backend : ShardedBackend kvHeads batch headDim Hidden Value}
  {rowState : Fin batch → CacheSlot kvHeads batch headDim Value → RowState}

theorem RunsLayer.decodeSlot_eq (h : RunsLayer layer backend.forward)
    (hcausal : Causal backend.forward) (past : List (CacheSlot kvHeads batch headDim Value))
    (token : Fin batch → Hidden) :
    ShardedBackend.decodeSlot hcausal past token =
      ((layer.next past token).1, layer.newState past.length token) := by
  have hsingle := ShardedBackend.forwardSlots_single hcausal past token
  have hforward : backend.forwardSlots past [token] =
      ([(layer.next past token).1], past ++ [layer.newState past.length token]) := by
    change ((backend.forward (.ofSlots past) [token]).1,
      (backend.forward (.ofSlots past) [token]).2.slots) = _
    rw [h, LayerPast.slots_ofSlots, LayerPast.slots_ofSlots, layer.run_eq]
    rfl
  rw [hforward] at hsingle
  obtain ⟨houtput, hslot⟩ := Prod.mk.inj hsingle
  exact Prod.ext (List.singleton_inj.mp houtput).symm
    (List.singleton_inj.mp (List.append_cancel_left hslot)).symm

theorem RunsLayer.rows (h : RunsLayer layer backend.forward) (hcausal : Causal backend.forward)
    (hmaps : ∀ row, layer.Maps rowLayer (fun token => token row) (rowState row)
      (fun output => output row))
    (hreorder : ∀ row hypoIds slot,
      rowState row (CacheSlot.reorder hypoIds slot) = rowState (hypoId hypoIds row) slot)
    (reorderSlot : List Nat → RowState → RowState)
    (maxChunkSizeBytes maxShardNumHeads dtypeBytes : Nat) :
    (ShardedBackend.toAttentionBlock hcausal).Rows
      (layerBlock rowLayer reorderSlot maxChunkSizeBytes maxShardNumHeads dtypeBytes) rowState where
  output row past token := by
    have hdecode := h.decodeSlot_eq hcausal (past (Fin.last 0)) token
    have hnext := (hmaps row).next (past (Fin.last 0)) token
    exact (congrFun (congrArg Prod.fst hdecode) row).trans (congrArg Prod.fst hnext).symm
  slot row past token i := by
    have hdecode := h.decodeSlot_eq hcausal (past (Fin.last 0)) token
    have hlength : (rowPast rowState row past (Fin.last 0)).length = (past (Fin.last 0)).length :=
      List.length_map _
    refine (congrArg (fun decoded => rowState row decoded.2) hdecode).trans ?_
    change _ = rowLayer.newState (rowPast rowState row past (Fin.last 0)).length (token row)
    rw [hlength]
    exact ((hmaps row).newState _ token).symm
  reorder row hypoIds slot := hreorder row hypoIds slot

end backends
end Peerz.Server
