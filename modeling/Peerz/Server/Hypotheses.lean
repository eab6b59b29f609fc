import Peerz.Server.BatchRows
import Peerz.Server.SplitSteps

/-! Beam search on a server: whatever the order in which the caches are taken between the steps, and
whatever other sessions do meanwhile, each hypothesis gets what the blocks make of its own tokens. -/
namespace Peerz.Server
open Library

variable {height width : Nat} {Token Slot RowSlot Handle SessionId : Type}

def rowPast (rowSlot : Fin height → Slot → RowSlot) (row : Fin height) (past : Past Slot width) :
    Past RowSlot width :=
  fun i => (past i).map (rowSlot row)

/-- The attention of each row of a batch is that of the row block. -/
structure AttentionBlock.Rows (block : AttentionBlock (Fin height → Token) Slot width)
    (rowBlock : AttentionBlock Token RowSlot width) (rowSlot : Fin height → Slot → RowSlot) :
    Prop where
  output : ∀ row past token, (block.decode past token).1 row =
    (rowBlock.decode (rowPast rowSlot row past) (token row)).1
  slot : ∀ row past token i, rowSlot row ((block.decode past token).2 i) =
    (rowBlock.decode (rowPast rowSlot row past) (token row)).2 i
  reorder : ∀ row hypoIds slot,
    rowSlot row (block.reorderSlot hypoIds slot) = rowSlot (hypoId hypoIds row) slot

section blocks
variable {block : AttentionBlock (Fin height → Token) Slot width}
  {rowBlock : AttentionBlock Token RowSlot width} {rowSlot : Fin height → Slot → RowSlot}

theorem AttentionBlock.Rows.transduce (h : block.Rows rowBlock rowSlot) (row : Fin height)
    (past : Past Slot width) (tokens : List (Fin height → Token)) :
    Library.transduce (extendPast rowBlock.decode) (rowPast rowSlot row past) (batchRow row tokens) =
      (batchRow row (Library.transduce (extendPast block.decode) past tokens).1,
        rowPast rowSlot row (Library.transduce (extendPast block.decode) past tokens).2) := by
  induction tokens generalizing past with
  | nil => rfl
  | cons token rest ih =>
      have hpast : (extendPast rowBlock.decode (rowPast rowSlot row past) (token row)).2 =
          rowPast rowSlot row (extendPast block.decode past token).2 := by
        funext i
        simp [extendPast, rowPast, h.slot]
      have hrest := ih (extendPast block.decode past token).2
      rw [← hpast] at hrest
      simp only [batchRow, List.map_cons, Library.transduce] at hrest ⊢
      rw [hrest]
      refine Prod.ext (congrArg₂ List.cons ?_ rfl) rfl
      exact (h.output row past token).symm

theorem AttentionBlock.Rows.toBlock (h : block.Rows rowBlock rowSlot) :
    block.toBlock.Rows rowBlock.toBlock (rowPast rowSlot) where
  emptyCache _ := rfl
  outputs row past tokens := by
    change _ = (rowBlock.run _ _).1
    rw [rowBlock.run_eq, h.transduce, ← block.run_eq]
    rfl
  caches row past tokens := by
    change _ = (rowBlock.run _ _).2
    rw [rowBlock.run_eq, h.transduce, ← block.run_eq]
    rfl
  reorder row past hypoIds := by
    funext i
    change ((past i).map _).map _ = _
    rw [List.map_map]
    exact List.map_congr_left fun slot _ => h.reorder row hypoIds slot

end blocks

namespace InferenceRuntime

variable [Add Token] [DecidableEq Handle] [DecidableEq SessionId]
  {server : InferenceServer (Fin height → Token) Slot width}
  {rowBackends : ModuleUID → AttentionBlock Token RowSlot width}
  {rowSlot : Fin height → Slot → RowSlot}

omit [Add Token] [DecidableEq Handle] [DecidableEq SessionId] in
theorem forall₂_toBlock {uids : List ModuleUID}
    (hrows : ∀ uid ∈ uids, (server.moduleBackends uid).Rows (rowBackends uid) rowSlot) :
    List.Forall₂ (Block.Rows · · (rowPast rowSlot))
      (uids.map fun uid => (server.moduleBackends uid).toBlock)
      (uids.map fun uid => (rowBackends uid).toBlock) := by
  induction uids with
  | nil => exact .nil
  | cons uid uids ih =>
      obtain ⟨hfirst, hrest⟩ := List.forall_mem_cons.mp hrows
      exact .cons hfirst.toBlock (ih hrest)

/-- The outputs of a hypothesis and of those it comes from are, together, what the blocks applied
once to all its tokens return. -/
theorem hypotheses_independent
    {start final : InferenceRuntime (Fin height → Token) Slot Handle SessionId width}
    (hfresh : start.Fresh) {events : List (InferenceEvent (Fin height → Token) SessionId)}
    (hrun : LeadsTo (step server) start events final) {sessionId : SessionId}
    (hrows : ∀ uid ∈ (start.loops sessionId).requestedUids,
      (server.moduleBackends uid).Rows (rowBackends uid) rowSlot)
    (hphase : (final.loops sessionId).phase = .waiting) (row : Fin height) :
    let requests := requestsOf sessionId events
    (rowOutputs requests (final.loops sessionId).yielded row).flatten =
      applyOnce (rowRequests requests row) 0
        ((start.loops sessionId).requestedUids.map fun uid =>
          ((rowBackends uid).toBlock, fun _ => []))
        ((rowRequests requests row).flatMap InferenceTensors.hiddenStates) := by
  intro requests
  obtain ⟨hsame, hfollows⟩ := allFollow_run hfresh hrun sessionId
  unfold StepLoop.Follows at hfollows
  rw [hphase] at hfollows
  obtain ⟨-, session, hprocessed, -⟩ := hfollows
  rw [StepLoop.opened, hsame.requestedUids, hsame.maxLength] at hprocessed
  obtain ⟨rowNext, hrow, -⟩ := ServerSession.Row.processAll
    (fun row => ServerSession.new_row (forall₂_toBlock hrows) _ row) hprocessed row
  have hflatten := ServerSession.processAll_flatten ?_ ?_ ?_ hrow
  · rw [hflatten]
    simp only [ServerSession.new, List.map_map]
    rw [List.zip_map']
    rfl
  · intro block hblock
    obtain ⟨uid, -, rfl⟩ := List.mem_map.mp hblock
    exact (rowBackends uid).toBlock_resumes
  · simp [ServerSession.new]
  · intro request hrequest
    obtain ⟨_, -, _, rfl⟩ := mem_lineage _ _ hrequest
    rfl

def sumsOfRows : AttentionBlock (Fin 2 → Nat) (Fin 2 → Nat) 1 where
  forward := transduce (extendPast fun past token =>
    (fun row => token row + ((past (Fin.last 0)).map fun slot => slot row).sum, fun _ => token))
  decode past token :=
    (fun row => token row + ((past (Fin.last 0)).map fun slot => slot row).sum, fun _ => token)
  forward_eq _ _ _ := rfl
  reorderSlot hypoIds slot := fun row => slot (hypoId hypoIds row)
  maxChunkSizeBytes := 400
  maxShardNumHeads := 1
  dtypeBytes := 2

def sumsOfRow (_ : ModuleUID) : AttentionBlock Nat Nat 1 := summingBlock

theorem sumsOfRows_rows (uid : ModuleUID) :
    sumsOfRows.Rows (sumsOfRow uid) fun row slot => slot row where
  output _ _ _ := rfl
  slot _ _ _ _ := rfl
  reorder _ _ _ := rfl

private def twoBeams : InferenceRuntime (Fin 2 → Nat) (Fin 2 → Nat) Nat Unit 1 where
  tensors _ := [fun _ => 7, fun _ => 7, fun _ => 7]
  loops _ :=
    { requestedUids := [⟨"block", 0⟩]
      cacheHandles := [fun _ => 0]
      sameCount := rfl
      nonempty := List.cons_ne_nil _ _
      maxLength := 3
      batchSize := 2
      positiveBatch := Nat.two_pos
      prefixLength := 0
      phase := .waiting
      yielded := [] }

private theorem twoBeams_fresh : twoBeams.Fresh where
  waiting _ := rfl
  noPrefix _ := rfl
  nothingYielded _ := rfl
  allocated := by rintro ⟨⟩; decide
  distinct := by rintro ⟨⟩; decide
  disjoint left right hne := absurd rfl hne

private def beamEvents : List (InferenceEvent (Fin 2 → Nat) Unit) :=
  [.request () ⟨[fun row => row.val + 1], [], []⟩, .resolve (),
    .request () ⟨[fun row => row.val + 10], [], [0, 0]⟩, .resolve ()]

theorem hypotheses_independent_secondDropped :
    ∃ final, LeadsTo (step ⟨fun _ => sumsOfRows, .none, 2048⟩) twoBeams beamEvents final ∧
      (rowOutputs (requestsOf () beamEvents) (final.loops ()).yielded 1).flatten =
        applyOnce [⟨[1], [], []⟩, ⟨[11], [], []⟩] 0 [(summingBlock.toBlock, fun _ => [])] [1, 11] := by
  have houtcome : (beamEvents.foldlM (step ⟨fun _ => sumsOfRows, .none, 2048⟩) twoBeams).map
      (fun final => (final.loops ()).phase matches .waiting) = some true := by decide +kernel
  obtain ⟨final, hrun, hwaiting⟩ := Option.map_eq_some_iff.mp houtcome
  have hphase : (final.loops ()).phase = .waiting := by
    cases hloop : (final.loops ()).phase with
    | waiting => rfl
    | running lengthIncrement hiddenStates tasks =>
        rw [hloop] at hwaiting
        cases hwaiting
    | failed =>
        rw [hloop] at hwaiting
        cases hwaiting
  exact ⟨final, hrun,
    hypotheses_independent twoBeams_fresh hrun (fun uid _ => sumsOfRows_rows uid) hphase 1⟩

end InferenceRuntime
end Peerz.Server
