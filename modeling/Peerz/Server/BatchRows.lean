import Peerz.Library.Batches
import Peerz.Server.CacheSlots
import Peerz.Server.Splitting

/-! A session of blocks that treat the sequences of a batch one by one. With `hypo_ids` the rows of
its caches are copied from others between the steps, and each row is then that of a session of its
own, which was given what the row and those it comes from were given. -/
namespace Peerz.Server
open Library

variable {height : Nat} {Token Cache RowCache : Type}

/-- Each row of a batch goes through the block as it goes through the row block. -/
structure Block.Rows (block : Block (Fin height → Token) Cache) (rowBlock : Block Token RowCache)
    (rowCache : Fin height → Cache → RowCache) : Prop where
  emptyCache : ∀ row, rowCache row block.emptyCache = rowBlock.emptyCache
  outputs : ∀ row cache tokens, batchRow row (block.forward cache tokens).1 =
    (rowBlock.forward (rowCache row cache) (batchRow row tokens)).1
  caches : ∀ row cache tokens, rowCache row (block.forward cache tokens).2 =
    (rowBlock.forward (rowCache row cache) (batchRow row tokens)).2
  reorder : ∀ row cache hypoIds, rowCache row (block.reorderCache cache hypoIds) =
    rowCache (hypoId hypoIds row) cache

namespace InferenceTensors

/-- The row whose caches a row continues. A request without tokens leaves the caches alone. -/
def parent (tensors : InferenceTensors (Fin height → Token)) (row : Fin height) : Fin height :=
  if tensors.hiddenStates = [] ∨ tensors.hypoIds = [] then row else hypoId tensors.hypoIds row

def row (tensors : InferenceTensors (Fin height → Token)) (row : Fin height) :
    InferenceTensors Token :=
  ⟨batchRow row tensors.hiddenStates, tensors.prompts.map (batchRow row), []⟩

end InferenceTensors

structure ServerSession.Row (session : ServerSession (Fin height → Token) Cache)
    (rowSession : ServerSession Token RowCache) (rowCache : Fin height → Cache → RowCache)
    (row : Fin height) : Prop where
  backends : List.Forall₂ (Block.Rows · · rowCache) session.backends rowSession.backends
  caches : rowSession.caches = session.caches.map (rowCache row)
  maxLength : rowSession.maxLength = session.maxLength
  prefixLength : rowSession.prefixLength = session.prefixLength

theorem ServerSession.new_row {backends : List (Block (Fin height → Token) Cache)}
    {rowBackends : List (Block Token RowCache)} {rowCache : Fin height → Cache → RowCache}
    (h : List.Forall₂ (Block.Rows · · rowCache) backends rowBackends) (maxLength : Nat)
    (row : Fin height) :
    (ServerSession.new backends maxLength).Row (ServerSession.new rowBackends maxLength) rowCache
      row := by
  refine ⟨h, ?_, rfl, rfl⟩
  change rowBackends.map _ = (backends.map _).map _
  induction h with
  | nil => rfl
  | cons hblock _ ih => rw [List.map_cons, List.map_cons, List.map_cons, hblock.emptyCache, ih]

variable [Add Token]

theorem batchRow_addPrompt (row : Fin height) (prompt inputs : List (Fin height → Token)) :
    batchRow row (addPrompt prompt inputs) =
      addPrompt (batchRow row prompt) (batchRow row inputs) := by
  unfold addPrompt batchRow
  rw [List.map_append, List.map_zipWith, List.length_map, List.map_drop, ← List.map_take,
    List.zipWith_map]
  rfl

section blocks
variable {rowCache : Fin height → Cache → RowCache}

def continued (hypoIds : List Nat) (row : Fin height) : Fin height :=
  if hypoIds = [] then row else hypoId hypoIds row

theorem Block.Rows.inferenceStep {block : Block (Fin height → Token) Cache}
    {rowBlock : Block Token RowCache} (h : block.Rows rowBlock rowCache) (hypoIds : List Nat)
    (row : Fin height) (cache : Cache) (prompt hiddenStates : List (Fin height → Token)) :
    rowBlock.inferenceStep [] (rowCache (continued hypoIds row) cache) (batchRow row prompt)
        (batchRow row hiddenStates) =
      (batchRow row (block.inferenceStep hypoIds cache prompt hiddenStates).1,
        rowCache row (block.inferenceStep hypoIds cache prompt hiddenStates).2) := by
  have hcache : rowCache row (if hypoIds = [] then cache else block.reorderCache cache hypoIds) =
      rowCache (continued hypoIds row) cache := by
    unfold continued
    split
    · rfl
    · exact h.reorder row cache hypoIds
  unfold Block.inferenceStep
  rw [if_pos rfl, ← batchRow_addPrompt, ← hcache]
  exact Prod.ext (h.outputs ..).symm (h.caches ..).symm

theorem runBlocks_row {blocks : List (Block (Fin height → Token) Cache)}
    {rowBlocks : List (Block Token RowCache)}
    (h : List.Forall₂ (Block.Rows · · rowCache) blocks rowBlocks) (hypoIds : List Nat)
    (row : Fin height) (caches : List Cache) (prompts : List (List (Fin height → Token)))
    (hiddenStates : List (Fin height → Token)) :
    runBlocks [] (rowBlocks.zip ((caches.map (rowCache (continued hypoIds row))).zip
        (prompts.map (batchRow row)))) (batchRow row hiddenStates) =
      (runBlocks hypoIds (blocks.zip (caches.zip prompts)) hiddenStates).map fun run =>
        (batchRow row run.1, run.2.map (rowCache row)) := by
  induction h generalizing caches prompts hiddenStates with
  | nil => rfl
  | @cons block rowBlock blocks rowBlocks hblock _ ih =>
      cases caches with
      | nil => rfl
      | cons cache caches =>
          cases prompts with
          | nil => rfl
          | cons prompt prompts =>
              simp only [List.map_cons, List.zip_cons_cons, runBlocks, length_batchRow]
              split
              · rw [hblock.inferenceStep]
                simp only [ih, Option.bind_eq_bind, Option.bind_map, Option.map_bind]
                rfl
              · rfl

end blocks

section sessions
variable {rowCache : Fin height → Cache → RowCache}
  {session next : ServerSession (Fin height → Token) Cache} {rowSession : ServerSession Token RowCache}
  {tensors : InferenceTensors (Fin height → Token)} {outputs : List (Fin height → Token)}

omit [Add Token] in
theorem all_isEmpty_batchRow (row : Fin height) (prompts : List (List (Fin height → Token))) :
    (prompts.map (batchRow row)).all List.isEmpty = prompts.all List.isEmpty := by
  rw [List.all_map]
  congr 1
  funext prompt
  cases prompt <;> rfl

omit [Add Token] in
theorem ServerSession.Row.blockPrompts {row continued : Fin height}
    (h : session.Row rowSession rowCache continued) :
    rowSession.blockPrompts (tensors.row row) =
      (session.blockPrompts tensors).map (batchRow row) := by
  unfold ServerSession.blockPrompts InferenceTensors.row
  dsimp only
  rw [all_isEmpty_batchRow]
  split
  · rw [List.map_map, List.map_const', Function.comp_def]
    dsimp only [batchRow_nil]
    rw [List.map_const', h.backends.length_eq]
  · rfl

theorem ServerSession.Row.process {row : Fin height}
    (h : session.Row rowSession rowCache (tensors.parent row))
    (hprocess : session.process tensors = some (outputs, next)) :
    ∃ rowNext, rowSession.process (tensors.row row) = some (batchRow row outputs, rowNext) ∧
      next.Row rowNext rowCache row := by
  have hlength : (tensors.row row).hiddenStates.length = tensors.hiddenStates.length :=
    length_batchRow ..
  obtain ⟨hcount, hwithin, hstepped⟩ := ServerSession.process_eq_some hprocess
  rw [ServerSession.process_eq, h.blockPrompts, List.length_map, ← h.backends.length_eq, hlength,
    h.maxLength, h.prefixLength, if_neg (not_not.mpr hcount), if_neg (Nat.not_lt.mpr hwithin)]
  rcases hstepped with ⟨hnone, rfl, rfl⟩ | ⟨hsome, caches, hrun, rfl⟩
  · rw [InferenceTensors.parent, if_pos (.inl hnone)] at h
    exact ⟨rowSession, if_pos (List.length_eq_zero_iff.mpr hnone), h⟩
  · have hparent : tensors.parent row = continued tensors.hypoIds row := by
      simp only [InferenceTensors.parent, continued, hsome, false_or]
    rw [hparent] at h
    have hrow := runBlocks_row h.backends tensors.hypoIds row session.caches
      (session.blockPrompts tensors) tensors.hiddenStates
    rw [hrun, ← h.caches] at hrow
    rw [if_neg (mt List.length_eq_zero_iff.mp hsome)]
    exact ⟨_, Option.bind_eq_some_iff.mpr ⟨_, hrow, rfl⟩, h.backends, rfl, rfl, rfl⟩

def rowRequests (requests : List (InferenceTensors (Fin height → Token))) (row : Fin height) :
    List (InferenceTensors Token) :=
  lineage InferenceTensors.parent InferenceTensors.row requests row

def rowOutputs (requests : List (InferenceTensors (Fin height → Token)))
    (outputs : List (List (Fin height → Token))) (row : Fin height) : List (List Token) :=
  lineage (fun step => step.1.parent) (fun step row => batchRow row step.2)
    (requests.zip outputs) row

theorem ServerSession.processAll_length {Token Cache : Type} [Add Token]
    {session next : ServerSession Token Cache} {requests : List (InferenceTensors Token)}
    {outputs : List (List Token)} (h : session.processAll requests = some (outputs, next)) :
    requests.length = outputs.length := by
  induction requests generalizing session outputs with
  | nil =>
      cases h
      rfl
  | cons first rest ih =>
      obtain ⟨stepped, -, h⟩ := Option.bind_eq_some_iff.mp h
      obtain ⟨later, hlater, hnext⟩ := Option.bind_eq_some_iff.mp h
      cases hnext
      rw [List.length_cons, List.length_cons, ih hlater]

/-- Each row of a session is a session of its own. -/
theorem ServerSession.Row.processAll {requests : List (InferenceTensors (Fin height → Token))}
    {outputs : List (List (Fin height → Token))}
    (h : ∀ row, session.Row rowSession rowCache row)
    (hprocess : session.processAll requests = some (outputs, next)) (row : Fin height) :
    ∃ rowNext,
      rowSession.processAll (rowRequests requests row) =
        some (rowOutputs requests outputs row, rowNext) ∧
      next.Row rowNext rowCache row := by
  induction requests using List.reverseRecOn generalizing outputs next row with
  | nil =>
      cases hprocess
      exact ⟨rowSession, rfl, h row⟩
  | append_singleton requests tensors ih =>
      rw [ServerSession.processAll_concat] at hprocess
      obtain ⟨⟨earlier, middle⟩, hearlier, hprocess⟩ := Option.bind_eq_some_iff.mp hprocess
      obtain ⟨⟨last, final⟩, hlast, hresult⟩ := Option.map_eq_some_iff.mp hprocess
      cases hresult
      obtain ⟨rowMiddle, hrowEarlier, hmiddle⟩ := ih hearlier (tensors.parent row)
      obtain ⟨rowNext, hrowLast, hnext⟩ := hmiddle.process hlast
      have hlength := ServerSession.processAll_length hearlier
      refine ⟨rowNext, ?_, hnext⟩
      unfold rowRequests rowOutputs
      rw [List.zip_append hlength, List.zip_cons_cons, List.zip_nil_right, lineage_concat,
        lineage_concat, ServerSession.processAll_concat]
      exact Option.bind_eq_some_iff.mpr ⟨_, hrowEarlier,
        Option.map_eq_some_iff.mpr ⟨_, hrowLast, rfl⟩⟩

end sessions

end Peerz.Server
