import Peerz.Client.AutogradRows

/-! The micro-batches of the autograd function, put together again. -/
namespace Peerz.Client
open Library Server

variable {PeerID Hidden : Type} {config : ClientConfig}

theorem HiddenBatch.split_rows (batch : HiddenBatch Hidden) (size : Nat) :
    (batch.split size).map HiddenBatch.rows = torchSplit size batch.rows := by
  unfold HiddenBatch.split
  rw [List.map_map]
  exact List.attach_map_subtype_val _

theorem PromptBatch.split_rows (prompts : PromptBatch Hidden) (size : Nat) :
    (prompts.split size).map PromptBatch.rows = torchSplit size prompts.rows := by
  unfold PromptBatch.split
  rw [List.map_map]
  exact List.attach_map_subtype_val _

theorem HiddenBatch.mem_split {batch part : HiddenBatch Hidden} {size : Nat}
    (h : part ∈ batch.split size) : part.seqLen = batch.seqLen := by
  obtain ⟨rows, -, rfl⟩ := List.mem_map.mp h
  rfl

theorem PromptBatch.mem_split {prompts part : PromptBatch Hidden} {size : Nat}
    (h : part ∈ prompts.split size) :
    part.numBlocks = prompts.numBlocks ∧ part.length = prompts.length := by
  obtain ⟨rows, -, rfl⟩ := List.mem_map.mp h
  exact ⟨rfl, rfl⟩

theorem givenPrompts_eq_some {prompts : Option (PromptBatch Hidden)} {given : PromptBatch Hidden}
    (h : givenPrompts prompts = some given) :
    prompts = some given ∧ 0 < given.numBlocks ∧ 0 < given.length := by
  obtain ⟨rfl, hgiven⟩ := Option.filter_eq_some_iff.mp h
  simp only [PromptBatch.IsDummy, Bool.not_or, Bool.and_eq_true, Bool.not_eq_true',
    decide_eq_false_iff_not] at hgiven
  exact ⟨rfl, by omega, by omega⟩

def PromptsFit (prompts : Option (PromptBatch Hidden)) (inputs : HiddenBatch Hidden) : Prop :=
  ∀ given ∈ givenPrompts prompts, given.rows.length = inputs.rows.length

section cutting
variable {prompts : Option (PromptBatch Hidden)} {inputs : HiddenBatch Hidden} {size : Nat}

theorem batches_eq_torchSplit (hfits : PromptsFit prompts inputs) :
    ((inputs.split size).zip (promptBatches prompts size (inputs.split size))).map
        (fun part => part.1.rows.zip (rowPrompts part.2 part.1.rows.length)) =
      torchSplit size (inputs.rows.zip (rowPrompts (givenPrompts prompts) inputs.rows.length)) := by
  have hreplicate : ∀ rows : List (List Hidden),
      rows.zip (List.replicate rows.length ([] : List (List Hidden))) =
        rows.map fun row => (row, []) := by
    intro rows
    induction rows with
    | nil => rfl
    | cons row rows ih => rw [List.length_cons, List.replicate_succ, List.zip_cons_cons, ih]; rfl
  unfold promptBatches
  cases hgiven : givenPrompts prompts with
  | none =>
      dsimp only [rowPrompts]
      rw [hreplicate, torchSplit_map, ← HiddenBatch.split_rows, List.map_map]
      rw [show (inputs.split size).zip ((inputs.split size).map fun _ =>
          (none : Option (PromptBatch Hidden))) =
            (inputs.split size).map fun part => (part, none) from ?_, List.map_map]
      · apply List.map_congr_left
        intro part _
        exact hreplicate part.rows
      · conv_lhs => rw [← List.map_id (inputs.split size), List.map_map]
        exact List.zip_map' ..
  | some given =>
      have hlength := hfits given hgiven
      dsimp only [rowPrompts]
      rw [torchSplit_zip hlength.symm, ← HiddenBatch.split_rows, ← PromptBatch.split_rows,
        List.zip_map, List.zip_map_right, List.map_map, List.map_map]
      rfl

theorem mem_batches (hfits : PromptsFit prompts inputs)
    {part : HiddenBatch Hidden × Option (PromptBatch Hidden)}
    (h : part ∈ (inputs.split size).zip (promptBatches prompts size (inputs.split size))) :
    (∀ given ∈ part.2, given.rows.length = part.1.rows.length) ∧ Substantial part.2 ∧
      part.1.seqLen = inputs.seqLen ∧ part.2.isSome = (givenPrompts prompts).isSome := by
  have hseqLen := HiddenBatch.mem_split (List.of_mem_zip h).1
  unfold promptBatches at h
  cases hgiven : givenPrompts prompts with
  | none =>
      rw [hgiven] at h
      obtain ⟨-, hnone⟩ := List.of_mem_zip h
      obtain ⟨-, -, hnone⟩ := List.mem_map.mp hnone
      rw [← hnone]
      exact ⟨nofun, nofun, hseqLen, rfl⟩
  | some given =>
      rw [hgiven] at h
      obtain ⟨-, hblocks, hlength⟩ := givenPrompts_eq_some hgiven
      rw [List.zip_map_right] at h
      obtain ⟨⟨batch, part⟩, hpart, rfl⟩ := List.mem_map.mp h
      obtain ⟨-, hsplit⟩ := List.of_mem_zip hpart
      obtain ⟨hsameBlocks, hsameLength⟩ := PromptBatch.mem_split hsplit
      refine ⟨?_, ?_, hseqLen, rfl⟩
      · rintro other ⟨⟩
        have hrows : (batch.rows, part.rows) ∈
            (torchSplit size inputs.rows).zip (torchSplit size given.rows) := by
          rw [← HiddenBatch.split_rows, ← PromptBatch.split_rows, List.zip_map]
          exact List.mem_map.mpr ⟨_, hpart, rfl⟩
        exact (length_eq_of_mem_zip_torchSplit (hfits given hgiven).symm hrows).symm
      · rintro other ⟨⟩
        exact ⟨hsameBlocks ▸ hblocks, hsameLength ▸ hlength⟩

end cutting

theorem HiddenBatch.cat_eq_some {batches : List (HiddenBatch Hidden)} {batch : HiddenBatch Hidden}
    (h : cat batches = some batch) : batch.rows = (batches.map HiddenBatch.rows).flatten := by
  cases batches with
  | nil => cases h
  | cons first rest =>
      simp only [cat] at h
      split at h
      · cases h
        rfl
      · cases h

variable [Add Hidden] {model : RemoteModel Hidden}

theorem autogradForward_parts {inputs outputs : HiddenBatch Hidden}
    {prompts : Option (PromptBatch Hidden)} {attempts : Nat → List (ForwardAttempt PeerID)}
    {saved : List (SavedBatch PeerID Hidden)}
    (hcontiguous : ∀ part, ∀ attempt ∈ attempts part, attempt.Contiguous model)
    (h : autogradForward config model inputs prompts attempts = .returned (outputs, saved)) :
    0 < inputs.seqLen ∧ ∃ results : List (HiddenBatch Hidden × SavedBatch PeerID Hidden),
      List.Forall₂ (fun part result => Passes model part.1 part.2 result.1 result.2)
        ((inputs.split (microBatchSize inputs.seqLen)).zip
          (promptBatches prompts (microBatchSize inputs.seqLen)
            (inputs.split (microBatchSize inputs.seqLen)))) results ∧
      outputs.rows = (results.map fun result => result.1.rows).flatten ∧
      saved = results.map Prod.snd := by
  unfold autogradForward at h
  split at h
  · cases h
  · rename_i hseqLen
    dsimp only at h
    split at h
    · cases h
    · cases h
    · rename_i results hresults
      split at h
      · split at h
        · cases h
        · rename_i batch hbatch
          cases h
          refine ⟨Nat.pos_of_ne_zero hseqLen, results, forall₂_of_zipIdx ?_, ?_, rfl⟩
          · refine List.Forall₂.imp (fun part result hpart => ?_)
              (List.forall₂_map_left_iff.mp (PassOutcome.gather_eq_returned hresults))
            exact Passes.of_returned (hcontiguous part.2) hpart
          · rw [HiddenBatch.cat_eq_some hbatch, List.map_map]
            rfl
      · cases h

theorem rows_of_parts {inputs : HiddenBatch Hidden} {prompts : Option (PromptBatch Hidden)}
    {results : List (HiddenBatch Hidden × SavedBatch PeerID Hidden)} (hfits : PromptsFit prompts inputs)
    (hparts : List.Forall₂ (fun part result => Passes model part.1 part.2 result.1 result.2)
      ((inputs.split (microBatchSize inputs.seqLen)).zip
        (promptBatches prompts (microBatchSize inputs.seqLen)
          (inputs.split (microBatchSize inputs.seqLen)))) results) :
    List.Forall₂ (RowForward model)
      (inputs.rows.zip (rowPrompts (givenPrompts prompts) inputs.rows.length))
      (results.map fun result => result.1.rows).flatten := by
  have hsize : 0 < microBatchSize inputs.seqLen := Nat.lt_of_lt_of_le Nat.one_pos (le_max_right _ _)
  rw [← flatten_torchSplit hsize (inputs.rows.zip _), ← batches_eq_torchSplit hfits]
  apply forall₂_flatten
  rw [List.forall₂_map_left_iff, List.forall₂_map_right_iff]
  refine List.Forall₂.imp ?_ ((List.forall₂_and_left _ _).mpr ⟨fun part hpart => hpart, hparts⟩)
  rintro part result ⟨hpart, hpasses⟩
  exact hpasses.rows (mem_batches hfits hpart).1

/-- However the batch is cut and whatever fails on the ways of its parts, each row of the outputs is
what the plain chain of blocks makes of the row of the inputs and its prompts. -/
theorem autogradForward_rows {inputs outputs : HiddenBatch Hidden}
    {prompts : Option (PromptBatch Hidden)} {attempts : Nat → List (ForwardAttempt PeerID)}
    {saved : List (SavedBatch PeerID Hidden)}
    (hcontiguous : ∀ part, ∀ attempt ∈ attempts part, attempt.Contiguous model)
    (hfits : PromptsFit prompts inputs)
    (h : autogradForward config model inputs prompts attempts = .returned (outputs, saved)) :
    List.Forall₂ (RowForward model)
      (inputs.rows.zip (rowPrompts (givenPrompts prompts) inputs.rows.length)) outputs.rows := by
  obtain ⟨-, results, hparts, houtputs, -⟩ := autogradForward_parts hcontiguous h
  rw [houtputs]
  exact rows_of_parts hfits hparts

theorem backward_parts {parts : List (HiddenBatch Hidden × Option (PromptBatch Hidden))}
    {passed : List (HiddenBatch Hidden × SavedBatch PeerID Hidden)}
    {gradOutputs : List (HiddenBatch Hidden)}
    {results : List (HiddenBatch Hidden × Option (List (List (List Hidden))))}
    (hpasses : List.Forall₂ (fun part result => Passes model part.1 part.2 result.1 result.2)
      parts passed)
    (hparts : ∀ part ∈ parts, (∀ given ∈ part.2, given.rows.length = part.1.rows.length) ∧
      Substantial part.2 ∧ 0 < part.1.seqLen)
    (hlength : gradOutputs.length = passed.length)
    (hresults : List.Forall₂ (fun part result => ∃ attempts : List (BackwardAttempt PeerID),
      (∀ attempt ∈ attempts, ∀ recovery ∈ attempt.recovery, recovery.Contiguous model) ∧
        backwardBatch config model part.1 part.2 attempts = .returned result)
      (gradOutputs.zip (passed.map Prod.snd)) results) :
    ∃ grads : List (List (List Hidden × List (List Hidden))),
      List.Forall₂ (List.Forall₂ (RowBackward model))
        (((parts.map fun part => part.1.rows.zip (rowPrompts part.2 part.1.rows.length)).zip
          (gradOutputs.map HiddenBatch.rows)).map fun part => part.1.zip part.2) grads ∧
      (results.map fun result => result.1.rows) = grads.map (List.map Prod.fst) ∧
      List.Forall₂ (fun part result => result.2 = part.1.2.map fun _ => part.2.map Prod.snd)
        (parts.zip grads) results := by
  induction hpasses generalizing gradOutputs results with
  | nil =>
      obtain rfl := List.length_eq_zero_iff.mp hlength
      cases hresults
      exact ⟨[], .nil, rfl, .nil⟩
  | @cons part result parts passed hpass _ ih =>
      obtain ⟨hpart, hlater⟩ := List.forall_mem_cons.mp hparts
      cases gradOutputs with
      | nil => cases hlength
      | cons gradOutput gradOutputs =>
          cases hresults with
          | @cons _ back _ results hback hresults =>
              obtain ⟨attempts, hcontiguous, hreturned⟩ := hback
              obtain ⟨grads, hrows, hinputs, hprompts⟩ := hpass.backward hcontiguous hpart.1
                hpart.2.1 hpart.2.2 hreturned
              obtain ⟨rest, hrest, hrestInputs, hrestPrompts⟩ := ih hlater
                (Nat.succ_injective hlength) hresults
              exact ⟨grads :: rest, .cons hrows hrest,
                congrArg₂ List.cons hinputs hrestInputs, .cons hprompts hrestPrompts⟩

omit [Add Hidden] in
theorem gradPrompts_of_parts {parts : List (HiddenBatch Hidden × Option (PromptBatch Hidden))}
    {given : Option (PromptBatch Hidden)} {grads : List (List (List Hidden × List (List Hidden)))}
    {results : List (HiddenBatch Hidden × Option (List (List (List Hidden))))}
    (hparts : ∀ part ∈ parts, part.2.isSome = given.isSome) (hlength : parts.length = grads.length)
    (hnonempty : parts ≠ [])
    (hresults : List.Forall₂ (fun part result => result.2 = part.1.2.map fun _ => part.2.map Prod.snd)
      (parts.zip grads) results) :
    (if (results.map Prod.snd).any Option.isNone then none
      else some (results.map Prod.snd).reduceOption.flatten) =
      given.map fun _ => grads.flatten.map Prod.snd := by
  have hsnd : results.map Prod.snd =
      (parts.zip grads).map fun part => part.1.2.map fun _ => part.2.map Prod.snd := by
    rw [← List.forall₂_eq_eq_eq, List.forall₂_map_left_iff, List.forall₂_map_right_iff]
    exact hresults.flip
  rw [hsnd]
  clear hsnd hresults
  cases given with
  | none =>
      obtain ⟨first, rest, rfl⟩ := List.exists_cons_of_ne_nil hnonempty
      cases grads with
      | nil => cases hlength
      | cons grad grads =>
          have hfirst : first.2 = none := by simpa using hparts first List.mem_cons_self
          rw [List.zip_cons_cons, List.map_cons, hfirst]
          rfl
  | some given =>
      have hall : ((parts.zip grads).map fun part => part.1.2.map fun _ => part.2.map Prod.snd) =
          grads.map fun grad => some (grad.map Prod.snd) := by
        rw [← List.map_snd_zip hlength.ge, List.map_map, List.map_snd_zip hlength.ge]
        apply List.map_congr_left
        intro part hpart
        obtain ⟨prompts, hprompts⟩ := Option.isSome_iff_exists.mp (hparts _ (List.of_mem_zip hpart).1)
        rw [hprompts]
        rfl
      rw [hall, if_neg (by simp)]
      have hreduce : (grads.map fun grad => some (grad.map Prod.snd)).reduceOption =
          grads.map (List.map Prod.snd) :=
        (List.filterMap_map ..).trans (congrFun List.filterMap_eq_map grads)
      rw [hreduce, List.map_flatten]
      rfl

/-- The gradients of each row are those back through the plain chain of blocks, whatever fails on
the ways of its part, forward and back. -/
theorem autogradBackward_rows {inputs outputs gradOutputs gradInputs : HiddenBatch Hidden}
    {prompts : Option (PromptBatch Hidden)} {saved : List (SavedBatch PeerID Hidden)}
    {forwardAttempts : Nat → List (ForwardAttempt PeerID)}
    {backwardAttempts : Nat → List (BackwardAttempt PeerID)}
    {gradPrompts : Option (List (List (List Hidden)))}
    (hforwardRoutes : ∀ part, ∀ attempt ∈ forwardAttempts part, attempt.Contiguous model)
    (hbackwardRoutes : ∀ part, ∀ attempt ∈ backwardAttempts part, ∀ recovery ∈ attempt.recovery,
      recovery.Contiguous model)
    (hfits : PromptsFit prompts inputs)
    (hforward : autogradForward config model inputs prompts forwardAttempts =
      .returned (outputs, saved))
    (hrows : gradOutputs.rows.length = inputs.rows.length)
    (hseqLen : gradOutputs.seqLen = inputs.seqLen)
    (hbackward : autogradBackward config model gradOutputs saved backwardAttempts =
      .returned (gradInputs, gradPrompts)) :
    ∃ grads, List.Forall₂ (RowBackward model)
        ((inputs.rows.zip (rowPrompts (givenPrompts prompts) inputs.rows.length)).zip
          gradOutputs.rows) grads ∧
      gradInputs.rows = grads.map Prod.fst ∧
      gradPrompts = (givenPrompts prompts).map fun _ => grads.map Prod.snd := by
  obtain ⟨hpositive, passed, hpasses, -, rfl⟩ := autogradForward_parts hforwardRoutes hforward
  have hsize : 0 < microBatchSize inputs.seqLen := Nat.lt_of_lt_of_le Nat.one_pos (le_max_right _ _)
  unfold autogradBackward at hbackward
  rw [hseqLen, if_neg hpositive.ne'] at hbackward
  dsimp only at hbackward
  split at hbackward
  · rename_i hlength
    split at hbackward
    · cases hbackward
    · cases hbackward
    · rename_i results hresults
      split at hbackward
      · cases hbackward
      · rename_i batch hbatch
        obtain ⟨rfl, rfl⟩ := Prod.mk.inj (PassOutcome.returned.inj hbackward)
        have hback := List.forall₂_map_left_iff.mp (PassOutcome.gather_eq_returned hresults)
        obtain ⟨grads, hgrads, hinputs, hprompts⟩ := backward_parts hpasses
          (fun part hpart => by
            obtain ⟨hfit, hsubstantial, hpartLen, -⟩ := mem_batches hfits hpart
            exact ⟨hfit, hsubstantial, hpartLen ▸ hpositive⟩)
          (by simpa using hlength.symm)
          (forall₂_of_zipIdx (hback.imp fun part result hpart =>
            ⟨backwardAttempts part.2, hbackwardRoutes part.2, hpart⟩))
        have hpassed := hpasses.length_eq
        have hcount := hgrads.length_eq
        rw [List.length_map] at hlength
        rw [List.length_map, List.length_zip, List.length_map, List.length_map, ← hlength, ← hpassed,
          min_self] at hcount
        refine ⟨grads.flatten, ?_, ?_, ?_⟩
        · have hall := forall₂_flatten hgrads
          rw [batches_eq_torchSplit hfits, HiddenBatch.split_rows, ← torchSplit_zip,
            flatten_torchSplit hsize] at hall
          · exact hall
          · rw [List.length_zip, length_rowPrompts hfits, min_self, hrows]
        · rw [HiddenBatch.cat_eq_some hbatch, List.map_map, List.map_flatten]
          exact congrArg List.flatten hinputs
        · refine gradPrompts_of_parts (fun part hpart => (mem_batches hfits hpart).2.2.2) hcount ?_
            hprompts
          intro hnil
          have hparts := @batches_eq_torchSplit _ prompts inputs (microBatchSize inputs.seqLen) hfits
          rw [hnil] at hparts
          exact torchSplit_ne_nil _ _ hparts.symm
  · cases hbackward

/-- Two rows that are too long to go in one part. -/
def twoRows : HiddenBatch Nat where
  seqLen := 513
  rows := [5 :: List.replicate 512 6, 7 :: List.replicate 512 8]
  uniform := by
    simp only [List.forall_mem_cons, List.length_cons, List.length_replicate]
    simp

def rowPrompting : PromptBatch Nat where
  numBlocks := 3
  length := 1
  rows := [[[1], [0], [2]], [[0], [0], [1]]]
  uniform := by decide

def reroutes (_ : Nat) : List (ForwardAttempt Nat) :=
  [splitAtOne true, splitAtOne false, splitAtOne true]

theorem reroutes_contiguous (part : Nat) :
    ∀ attempt ∈ reroutes part, attempt.Contiguous addingModel := by
  simp [reroutes, splitAtOne_contiguous]

theorem rowPrompting_fits : PromptsFit (some rowPrompting) twoRows := by
  rintro given ⟨⟩
  rfl

theorem autogradForward_rows_rerouted :
    ∃ outputs saved, autogradForward ⟨true, none⟩ addingModel twoRows (some rowPrompting) reroutes =
        .returned (outputs, saved) ∧ saved.length = 2 ∧
      List.Forall₂ (RowForward addingModel)
        [(5 :: List.replicate 512 6, [[1], [0], [2]]), (7 :: List.replicate 512 8, [[0], [0], [1]])]
        outputs.rows := by
  have hreturns : (match autogradForward ⟨true, none⟩ addingModel twoRows (some rowPrompting)
      reroutes with
    | .returned result => result.2.length
    | _ => 0) = 2 := by decide +kernel
  split at hreturns
  · rename_i result hresult
    exact ⟨result.1, result.2, hresult, hreturns,
      autogradForward_rows reroutes_contiguous rowPrompting_fits hresult⟩
  · cases hreturns

theorem autogradBackward_rows_rerouted :
    ∃ outputs saved gradInputs gradPrompts,
      autogradForward ⟨true, none⟩ addingModel twoRows (some rowPrompting) reroutes =
          .returned (outputs, saved) ∧
        autogradBackward ⟨true, none⟩ addingModel twoRows saved (fun _ => [⟨[], true⟩, ⟨[], true⟩]) =
          .returned (gradInputs, gradPrompts) ∧ saved.length = 2 ∧
        ∃ grads, List.Forall₂ (RowBackward addingModel)
          [((5 :: List.replicate 512 6, [[1], [0], [2]]), 5 :: List.replicate 512 6),
            ((7 :: List.replicate 512 8, [[0], [0], [1]]), 7 :: List.replicate 512 8)] grads ∧
        gradInputs.rows = grads.map Prod.fst ∧ gradPrompts = some (grads.map Prod.snd) := by
  have hreturns : (match autogradForward ⟨true, none⟩ addingModel twoRows (some rowPrompting)
      reroutes with
    | .returned (_, saved) =>
        match autogradBackward ⟨true, none⟩ addingModel twoRows saved
          (fun _ => [⟨[], true⟩, ⟨[], true⟩]) with
        | .returned grads => if grads.2.isSome then saved.length else 0
        | _ => 0
    | _ => 0) = 2 := by decide +kernel
  split at hreturns
  · rename_i outputs saved hforward
    split at hreturns
    · rename_i grads hbackward
      obtain ⟨gradInputs, gradPrompts⟩ := grads
      have hparts : saved.length = 2 := by
        split at hreturns
        · exact hreturns
        · cases hreturns
      exact ⟨outputs, saved, gradInputs, gradPrompts, hforward, hbackward, hparts,
        autogradBackward_rows reroutes_contiguous (by simp) rowPrompting_fits hforward rfl rfl
          hbackward⟩
    · cases hreturns
  · cases hreturns

end Peerz.Client
