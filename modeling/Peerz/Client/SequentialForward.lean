import Mathlib.Data.NNRat.Defs
import Peerz.Client.PlainChain

/-! The forward pass with retries: whatever fails on the way, it returns what the plain chain
of blocks computes. -/
namespace Peerz.Client
open Library Server

variable {PeerID Token : Type} [Add Token]

def ForwardAttempt.Contiguous (model : RemoteModel Token) (attempt : ForwardAttempt PeerID) : Prop :=
  ∀ (first last : Int) (spans : List (RemoteSpanInfo PeerID)),
    0 ≤ first → first < last → last ≤ model.numBlocks →
    attempt.makeSequence first last = some spans → Covers spans first last

def IsInputOf (model : RemoteModel Token) (prompts : List (List Token)) (start : Nat)
    (inputs intermediate : List Token) (span : RemoteSpanInfo PeerID) : Prop :=
  chainForward model prompts start (span.start.toNat - start) inputs = some intermediate

structure ForwardInv (model : RemoteModel Token) (prompts : List (List Token)) (start : Nat)
    (endIndex : Int) (inputs : List Token) (loop : ForwardLoop PeerID Token) : Prop where
  started : (start : Int) ≤ loop.blockIdx
  bounded : loop.blockIdx ≤ endIndex
  tiles : Tiles RemoteSpanInfo.start RemoteSpanInfo.stop start loop.doneSequences loop.blockIdx
  computed : chainForward model prompts start (loop.blockIdx.toNat - start) inputs = some loop.inputs
  aligned : List.Forall₂ (IsInputOf model prompts start inputs) loop.intermediateInputs
    loop.doneSequences
  ahead : loop.attemptNo = 0 → loop.sequences = [] ∨
    Tiles RemoteSpanInfo.start RemoteSpanInfo.stop loop.blockIdx loop.sequences endIndex

variable {config : ClientConfig} {model : RemoteModel Token} {prompts : List (List Token)}

theorem request_eq_some {span : RemoteSpanInfo PeerID} {inputs outputs : List Token} {answered : Bool}
    (hprompts : prompts.all List.isEmpty = true ∨ prompts.length = model.numBlocks)
    (hstart : 0 ≤ span.start) (hlt : span.start < span.stop) (hstop : span.stop ≤ model.numBlocks)
    (h : ForwardLoop.request model prompts span inputs answered = some outputs) :
    chainForward model prompts span.start.toNat (span.stop.toNat - span.start.toNat) inputs =
      some outputs := by
  unfold ForwardLoop.request at h
  split at h
  · obtain ⟨hrun, -⟩ := Option.filter_eq_some_iff.mp h
    have hstartNat := Int.toNat_of_nonneg hstart
    have hstopNat := Int.toNat_of_nonneg (hstart.trans hlt.le)
    rw [← runRpcForward_eq hprompts (by omega) (by omega) inputs, hstartNat, hstopNat,
      ← backends_eq (by omega) (by omega) span hstartNat.symm hstopNat.symm]
    exact hrun
  · cases h

section passing
variable {start : Nat} {endIndex : Int} {inputs : List Token} {loop : ForwardLoop PeerID Token}

theorem ForwardInv.fail (h : ForwardInv model prompts start endIndex inputs loop)
    (sequences : List (RemoteSpanInfo PeerID)) :
    ForwardInv model prompts start endIndex inputs (loop.fail sequences) :=
  ⟨h.started, h.bounded, h.tiles, h.computed, h.aligned, nofun⟩

section attempting
variable {attempt : ForwardAttempt PeerID}
  (h : ForwardInv model prompts start endIndex inputs loop)
  (hprompts : prompts.all List.isEmpty = true ∨ prompts.length = model.numBlocks)
  (hmore : loop.blockIdx < endIndex) (hend : endIndex ≤ model.numBlocks)
include h hprompts hmore hend

theorem ForwardInv.next (hcontiguous : attempt.Contiguous model) :
    ForwardInv model prompts start endIndex inputs
      (loop.attempt model prompts endIndex attempt).1 := by
  have hstarted := h.started
  have hroute : ∀ spans, (if loop.sequences = [] ∨ 1 ≤ loop.attemptNo then
      (attempt.makeSequence loop.blockIdx endIndex).map (truncateLast · endIndex)
      else some loop.sequences) = some spans → spans = [] ∨
        Tiles RemoteSpanInfo.start RemoteSpanInfo.stop loop.blockIdx spans endIndex := by
    intro spans hspans
    split at hspans
    · obtain ⟨route, hfound, rfl⟩ := Option.map_eq_some_iff.mp hspans
      exact .inr (truncateLast_tiles
        (hcontiguous _ _ route (by omega) hmore hend hfound))
    · rename_i hkept
      obtain ⟨-, hfirst⟩ := not_or.mp hkept
      cases hspans
      exact h.ahead (by omega)
  unfold ForwardLoop.attempt
  dsimp only
  split
  · exact h.fail _
  · exact h.fail _
  · rename_i span rest hspans
    obtain ⟨hstart, hlt, hrest⟩ := (hroute _ hspans).resolve_left nofun
    have hbound := hrest.le
    split
    · exact h.fail _
    · rename_i outputs houtputs
      have hchain := request_eq_some hprompts (by omega) hlt (by omega) houtputs
      refine ⟨by dsimp only; omega, hbound, ?_, ?_, ?_, fun _ => .inr hrest⟩
      · exact tiles_concat.mpr ⟨hstart ▸ h.tiles, hlt, rfl⟩
      · have hsplit : span.stop.toNat - start =
            (loop.blockIdx.toNat - start) + (span.stop.toNat - span.start.toNat) := by omega
        dsimp only
        rw [hsplit, chainForward_add, h.computed, Option.bind_some,
          show start + (loop.blockIdx.toNat - start) = span.start.toNat by omega]
        exact hchain
      · refine List.rel_append h.aligned ?_
        refine .cons ?_ .nil
        unfold IsInputOf
        rw [hstart]
        exact h.computed

end attempting

theorem ForwardInv.run_returned {attempts : List (ForwardAttempt PeerID)} {outputs : List Token}
    {intermediate : List (List Token)} {done : List (RemoteSpanInfo PeerID)}
    (h : ForwardInv model prompts start endIndex inputs loop)
    (hprompts : prompts.all List.isEmpty = true ∨ prompts.length = model.numBlocks)
    (hend : endIndex ≤ model.numBlocks)
    (hcontiguous : ∀ attempt ∈ attempts, attempt.Contiguous model)
    (hrun : ForwardLoop.run config model prompts endIndex attempts loop =
      .returned (outputs, intermediate, done)) :
    chainForward model prompts start (endIndex.toNat - start) inputs = some outputs ∧
      Tiles RemoteSpanInfo.start RemoteSpanInfo.stop start done endIndex ∧
      List.Forall₂ (IsInputOf model prompts start inputs) intermediate done := by
  induction attempts generalizing loop with
  | nil =>
      unfold ForwardLoop.run at hrun
      split at hrun
      · rename_i hdone
        cases hrun
        rw [le_antisymm hdone h.bounded]
        exact ⟨h.computed, h.tiles, h.aligned⟩
      · cases hrun
  | cons attempt attempts ih =>
      obtain ⟨hfirst, hrest⟩ := List.forall_mem_cons.mp hcontiguous
      unfold ForwardLoop.run at hrun
      dsimp only at hrun
      split at hrun
      · rename_i hdone
        cases hrun
        rw [le_antisymm hdone h.bounded]
        exact ⟨h.computed, h.tiles, h.aligned⟩
      · split at hrun
        · exact ih (h.next hprompts (by omega) hend hfirst) hrest hrun
        · cases hrun

end passing

/-- Whatever fails on the way, the outputs are those of the plain chain, the done spans tile the
range in order, and their inputs are those that the plain chain feeds them. -/
theorem sequentialForward_returned {inputs outputs : List Token} {startIndex : Int}
    {endIndex : Option Int} {attempts : List (ForwardAttempt PeerID)}
    {intermediate : List (List Token)} {done : List (RemoteSpanInfo PeerID)}
    (hcontiguous : ∀ attempt ∈ attempts, attempt.Contiguous model)
    (h : sequentialForward config model inputs prompts startIndex endIndex attempts =
      .returned (outputs, intermediate, done)) :
    chainForward model prompts startIndex.toNat
        ((endIndex.getD model.numBlocks).toNat - startIndex.toNat) inputs = some outputs ∧
      Tiles RemoteSpanInfo.start RemoteSpanInfo.stop startIndex done
        (max startIndex (endIndex.getD model.numBlocks)) ∧
      List.Forall₂ (IsInputOf model prompts startIndex.toNat inputs) intermediate done := by
  unfold sequentialForward at h
  dsimp only at h
  split at h
  · rename_i hchecks
    obtain ⟨hstart, hend, hprompts⟩ := hchecks
    have hstartNat := Int.toNat_of_nonneg hstart
    rcases le_or_gt startIndex (endIndex.getD model.numBlocks) with hle | hgt
    · have hinv : ForwardInv model prompts startIndex.toNat (endIndex.getD model.numBlocks) inputs
          (⟨[], [], [], startIndex, 0, inputs⟩ : ForwardLoop PeerID Token) := by
        refine ⟨hstartNat.le, hle, hstartNat, ?_, .nil, fun _ => .inl rfl⟩
        rw [Nat.sub_self]
        rfl
      rw [max_eq_right hle]
      have hreturned := hinv.run_returned hprompts hend hcontiguous h
      rwa [hstartNat] at hreturned
    · unfold ForwardLoop.run at h
      rw [if_pos hgt.le] at h
      cases h
      rw [max_eq_left hgt.le, Nat.sub_eq_zero_of_le (by omega)]
      exact ⟨rfl, rfl, .nil⟩
  · cases h

def addingModel : RemoteModel Nat where
  numBlocks := 3
  backend := fun block =>
    { forward := List.map (· + block + 1)
      backward := fun inputs gradOutputs =>
        inputs.zipIdx.map fun token => token.1 * gradOutputs.getD token.2 0
      length_forward := fun _ => List.length_map _
      length_backward := fun inputs _ => by rw [List.length_map, List.length_zipIdx] }

def splitAtOne (answered : Bool) : ForwardAttempt Nat where
  makeSequence := fun first last =>
    if first = 0 ∧ 1 < last then
      some [⟨7, 0, 1, { state := .online, throughput := 1 }⟩,
        ⟨8, 1, 3, { state := .online, throughput := 1 }⟩]
    else some [⟨9, first, 3, { state := .online, throughput := 1 }⟩]
  answered := answered

theorem splitAtOne_contiguous (answered : Bool) :
    (splitAtOne answered).Contiguous addingModel := by
  intro first last spans hfirst hlt hlast hspans
  change (if first = 0 ∧ 1 < last then _ else _) = _ at hspans
  change last ≤ 3 at hlast
  split at hspans
  · rename_i hsplit
    cases hspans
    exact ⟨[_], _, rfl, ⟨hsplit.1.symm, by decide, rfl⟩, hsplit.2, hlast⟩
  · cases hspans
    exact ⟨[], _, rfl, rfl, hlt, hlast⟩

/-- The second server fails, and a third one takes its place. -/
theorem sequentialForward_returned_rerouted :
    ∃ intermediate done, sequentialForward ⟨true, none⟩ addingModel [5, 6] [[1], [], [2]] 0 (some 2)
        [splitAtOne true, splitAtOne false, splitAtOne true] =
          .returned ([9, 9], intermediate, done) ∧
      chainForward addingModel [[1], [], [2]] 0 2 [5, 6] = some [9, 9] := by
  have houtputs : (match sequentialForward ⟨true, none⟩ addingModel [5, 6] [[1], [], [2]] 0 (some 2)
      [splitAtOne true, splitAtOne false, splitAtOne true] with
    | .returned result => some result.1
    | _ => none) = some [9, 9] := by decide +kernel
  split at houtputs
  · rename_i result hresult
    obtain ⟨outputs, intermediate, done⟩ := result
    cases houtputs
    exact ⟨intermediate, done, hresult,
      (sequentialForward_returned (by simp [splitAtOne_contiguous]) hresult).1⟩
  · cases houtputs

end Peerz.Client
