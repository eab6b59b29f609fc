import Peerz.Client.AutogradFunction

/-! The autograd function computes, for each row of its batch, what the plain chain of blocks makes
of the row: however the batch is cut, and whatever fails on the ways of its parts. -/
namespace Peerz.Client
open Library Server

variable {PeerID Token Hidden : Type} {config : ClientConfig}

section whole
variable [Add Token] {model : RemoteModel Token} {prompts : List (List Token)}

structure ForwardResult (model : RemoteModel Token) (prompts : List (List Token))
    (inputs outputs : List Token) (intermediate : List (List Token))
    (done : List (RemoteSpanInfo PeerID)) : Prop where
  fits : prompts.all List.isEmpty = true ∨ prompts.length = model.numBlocks
  computed : chainForward model prompts 0 model.numBlocks inputs = some outputs
  tiles : Tiles RemoteSpanInfo.start RemoteSpanInfo.stop (0 : Nat) done model.numBlocks
  aligned : List.Forall₂ (IsInputOf model prompts 0 inputs) intermediate done

theorem ForwardResult.of_returned {inputs outputs : List Token}
    {attempts : List (ForwardAttempt PeerID)} {intermediate : List (List Token)}
    {done : List (RemoteSpanInfo PeerID)}
    (hcontiguous : ∀ attempt ∈ attempts, attempt.Contiguous model)
    (h : sequentialForward config model inputs prompts 0 none attempts =
      .returned (outputs, intermediate, done)) :
    ForwardResult model prompts inputs outputs intermediate done := by
  unfold sequentialForward at h
  dsimp only at h
  split at h
  · rename_i hchecks
    obtain ⟨-, hend, hprompts⟩ := hchecks
    have hinv : ForwardInv model prompts 0 (model.numBlocks : Int) inputs
        (⟨[], [], [], 0, 0, inputs⟩ : ForwardLoop PeerID Token) :=
      ⟨le_rfl, Int.natCast_nonneg _, rfl, rfl, .nil, fun _ => .inl rfl⟩
    obtain ⟨hcomputed, htiles, haligned⟩ := hinv.run_returned hprompts hend hcontiguous h
    exact ⟨hprompts, hcomputed, htiles, haligned⟩
  · cases h

theorem ForwardResult.backward {inputs outputs gradOutputs gradInputs : List Token}
    {attempts : List (BackwardAttempt PeerID)} {intermediate gradPrompts : List (List Token)}
    {done : List (RemoteSpanInfo PeerID)}
    (h : ForwardResult model prompts inputs outputs intermediate done)
    (hcontiguous : ∀ attempt ∈ attempts, ∀ recovery ∈ attempt.recovery, recovery.Contiguous model)
    (hbackward : sequentialBackward config model gradOutputs intermediate prompts done attempts =
      .returned (gradInputs, gradPrompts)) :
    ∃ later, chainBackward model prompts 0 model.numBlocks inputs gradOutputs =
      some (gradInputs, later) ∧ gradPrompts = promptGradients later := by
  unfold sequentialBackward at hbackward
  rw [if_pos h.aligned.length_eq] at hbackward
  dsimp only at hbackward
  have hleft : Unfinished model prompts 0 inputs model.numBlocks
      (⟨gradOutputs, intermediate, done, []⟩ : BackwardState PeerID Token) := ⟨h.tiles, h.aligned⟩
  have hgradients : GradientsAt model prompts 0 model.numBlocks inputs gradOutputs model.numBlocks
      (⟨gradOutputs, intermediate, done, []⟩ : BackwardState PeerID Token) := by
    refine ⟨outputs, [], h.computed, ?_, rfl⟩
    rw [Nat.sub_self, chainBackward]
  split at hbackward
  · rename_i hpop
    cases hbackward
    have hnone : model.numBlocks = 0 := by simpa using hleft.of_pop_eq_none hpop
    rw [hnone]
    exact ⟨[], rfl, rfl⟩
  · rename_i loop hpop
    exact (hleft.pop le_rfl hgradients hpop).run_returned h.fits (by omega) hcontiguous hbackward

end whole

section gradPrompts
variable [Add Token] {model : RemoteModel Token} {prompts : List (List Token)} {start length : Nat}
  {inputs gradOutputs gradInputs : List Token} {gradPrompts : List (List Token)}

theorem chainBackward_dummy (hdummy : ∀ block, prompts.getD block [] = [])
    (h : chainBackward model prompts start length inputs gradOutputs =
      some (gradInputs, gradPrompts)) : gradPrompts = [] := by
  induction length generalizing start inputs gradInputs gradPrompts with
  | zero =>
      cases h
      rfl
  | succ length ih =>
      obtain ⟨prompted, gradMiddle, later, -, hlater, -, rfl⟩ := chainBackward_succ.mp h
      rw [if_pos (hdummy start)]
      exact ih hlater

theorem promptGradients_eq_self (hlength : 0 < length) (hprompt : prompts.getD start [] ≠ [])
    (hinputs : inputs ≠ [])
    (h : chainBackward model prompts start length inputs gradOutputs =
      some (gradInputs, gradPrompts)) :
    promptGradients gradPrompts = gradPrompts ∧ gradPrompts ≠ [] := by
  have hempty := chainBackward_gradPrompts h
  obtain ⟨length, rfl⟩ : ∃ fewer, length = fewer + 1 := ⟨length - 1, by omega⟩
  obtain ⟨prompted, gradMiddle, later, -, -, -, hgradPrompts⟩ := chainBackward_succ.mp h
  rw [if_neg hprompt] at hgradPrompts
  subst hgradPrompts
  have hfirst := mt (hempty _ List.mem_cons_self).mp hinputs
  refine ⟨if_neg ?_, List.cons_ne_nil _ _⟩
  rw [List.all_cons, List.isEmpty_eq_false_iff.mpr hfirst]
  simp

end gradPrompts

def rowPrompts (prompts : Option (PromptBatch Hidden)) (height : Nat) :
    List (List (List Hidden)) :=
  match prompts with
  | none => List.replicate height []
  | some prompts => prompts.rows

theorem HiddenBatch.columns_row (batch : HiddenBatch Hidden) {height : Nat}
    (h : batch.rows.length = height) (row : Fin height) :
    batchRow row (batch.columns h) = batch.rows.get ⟨row.val, h.symm ▸ row.isLt⟩ :=
  batchRow_columns ..

theorem PromptBatch.broadcast_rows {prompts : PromptBatch Hidden} {height : Nat}
    (h : prompts.rows.length = height) : (prompts.broadcast height).rows = prompts.rows := by
  unfold broadcast
  split
  · rename_i hone
    obtain rfl : height = 1 := h.symm.trans hone
    simp
  · rfl

theorem PromptBatch.columns_row (prompts : PromptBatch Hidden) {height : Nat}
    (h : prompts.rows.length = height) (row : Fin height) :
    (prompts.columns h).map (batchRow row) = prompts.rows.get ⟨row.val, h.symm ▸ row.isLt⟩ := by
  have hrow := (prompts.uniform _ (prompts.rows.get_mem ⟨row.val, h.symm ▸ row.isLt⟩)).1
  apply List.ext_getElem
  · rw [List.length_map, PromptBatch.columns, List.length_ofFn, hrow]
  · intro block _ _
    rw [List.getElem_map]
    unfold PromptBatch.columns
    rw [List.getElem_ofFn, batchRow_columns, List.get_eq_getElem]

theorem rowPrompts_ofColumns {height : Nat} {prompts : List (List (Fin height → Hidden))}
    {length : Nat} (h : ∀ prompt ∈ prompts, prompt.length = length) (row : Fin height) :
    ∃ given, (rowPrompts (givenPrompts (some (.ofColumns prompts length h))) height)[row.val]? =
        some given ∧
      ∀ block, given.getD block [] = (prompts.map (batchRow row)).getD block [] := by
  unfold givenPrompts
  rw [Option.filter_some]
  split
  · refine ⟨prompts.map (batchRow row), ?_, fun _ => rfl⟩
    simp [rowPrompts, PromptBatch.ofColumns]
  · rename_i hdummy
    refine ⟨[], by simp [rowPrompts], fun block => ?_⟩
    have hnone : prompts = [] ∨ length = 0 := by
      simp only [PromptBatch.IsDummy, Bool.not_eq_true, Bool.not_eq_false', Bool.or_eq_true,
        decide_eq_true_eq] at hdummy
      simpa [PromptBatch.ofColumns, row.pos.ne'] using hdummy
    rcases hnone with rfl | rfl
    · rfl
    · have hprompt : prompts.getD block [] = [] := by
        rw [List.getD_eq_getElem?_getD]
        cases hget : prompts[block]? with
        | none => rfl
        | some prompt => exact List.length_eq_zero_iff.mp (h prompt (List.mem_of_getElem? hget))
      rw [← batchRow_prompt, hprompt]
      rfl

theorem promptColumns?_row {prompts : Option (PromptBatch Hidden)} {height : Nat}
    {columns : List (List (Fin height → Hidden))}
    (hfits : ∀ given ∈ prompts, given.rows.length = height)
    (h : promptColumns? prompts height = some columns) (row : Fin height) :
    (rowPrompts prompts height)[row.val]? = some (columns.map (batchRow row)) := by
  unfold promptColumns? at h
  cases prompts with
  | none =>
      cases h
      simp [rowPrompts]
  | some given =>
      dsimp only at h
      split at h
      · rename_i hrows
        cases h
        rw [PromptBatch.columns_row, List.get_eq_getElem, ← List.getElem?_eq_getElem]
        exact congrArg (fun rows => rows[row.val]?) (PromptBatch.broadcast_rows (hfits given rfl)).symm
      · cases h

variable [Add Hidden] {model : RemoteModel Hidden}

inductive Passes (model : RemoteModel Hidden) (batch : HiddenBatch Hidden)
    (prompts : Option (PromptBatch Hidden)) : HiddenBatch Hidden → SavedBatch PeerID Hidden → Prop
  | intro {columns : List (List (Fin batch.rows.length → Hidden))}
      {outputs : List (Fin batch.rows.length → Hidden)}
      {intermediate : List (List (Fin batch.rows.length → Hidden))}
      {done : List (RemoteSpanInfo PeerID)}
      (fits : promptColumns? prompts batch.rows.length = some columns)
      (result : ForwardResult (model.batched batch.rows.length) columns (batch.columns rfl) outputs
        intermediate done) :
      Passes model batch prompts (.ofColumns outputs)
        ⟨batch.rows.length, columns, intermediate, done⟩

theorem Passes.of_returned {batch outputs : HiddenBatch Hidden}
    {prompts : Option (PromptBatch Hidden)} {attempts : List (ForwardAttempt PeerID)}
    {saved : SavedBatch PeerID Hidden}
    (hcontiguous : ∀ attempt ∈ attempts, attempt.Contiguous model)
    (h : forwardBatch config model batch prompts attempts = .returned (outputs, saved)) :
    Passes model batch prompts outputs saved := by
  unfold forwardBatch at h
  split at h
  · exact absurd h PassOutcome.not_failing_returned
  · rename_i columns hcolumns
    obtain ⟨⟨results, intermediate, done⟩, hforward, hresult⟩ := PassOutcome.map_eq_returned h
    cases hresult
    exact .intro hcolumns (.of_returned hcontiguous hforward)

def RowForward (model : RemoteModel Hidden) (row : List Hidden × List (List Hidden))
    (outputs : List Hidden) : Prop :=
  chainForward model row.2 0 model.numBlocks row.1 = some outputs

theorem forall₂_zip_of_rows {α β γ : Type} {R : α × β → γ → Prop} {left : List α} {right : List β}
    {results : List γ} {height : Nat} (hleft : left.length = height) (hright : right.length = height)
    (hresults : results.length = height)
    (h : ∀ (row : Fin height) (first : α) (second : β) (result : γ),
      left[row.val]? = some first → right[row.val]? = some second →
      results[row.val]? = some result → R (first, second) result) :
    List.Forall₂ R (left.zip right) results := by
  rw [List.forall₂_iff_get]
  refine ⟨by rw [List.length_zip, hleft, hright, hresults, min_self], fun index hindex hresult => ?_⟩
  simp only [List.get_eq_getElem, List.getElem_zip]
  exact h ⟨index, hresults ▸ hresult⟩ _ _ _ (List.getElem?_eq_getElem _)
    (List.getElem?_eq_getElem _) (List.getElem?_eq_getElem _)

theorem getElem?_ofFn_fin {α : Type} {height : Nat} (value : Fin height → α) (row : Fin height) :
    (List.ofFn value)[row.val]? = some (value row) := by
  rw [List.getElem?_ofFn, dif_pos row.isLt]

omit [Add Hidden] in
theorem length_rowPrompts {prompts : Option (PromptBatch Hidden)} {height : Nat}
    (hfits : ∀ given ∈ prompts, given.rows.length = height) :
    (rowPrompts prompts height).length = height := by
  cases prompts with
  | none => exact List.length_replicate
  | some given => exact hfits given rfl

theorem Passes.rows {batch outputs : HiddenBatch Hidden} {prompts : Option (PromptBatch Hidden)}
    {saved : SavedBatch PeerID Hidden} (h : Passes model batch prompts outputs saved)
    (hfits : ∀ given ∈ prompts, given.rows.length = batch.rows.length) :
    List.Forall₂ (RowForward model) (batch.rows.zip (rowPrompts prompts batch.rows.length))
      outputs.rows := by
  cases h with
  | @intro columns outputs intermediate done fits result =>
      apply forall₂_zip_of_rows rfl (length_rowPrompts hfits) List.length_ofFn
      intro row states item output hstates hitem houtput
      have hrow := chainForward_batchRow model columns row 0 model.numBlocks (batch.columns rfl)
      rw [show chainForward (model.batched batch.rows.length) columns 0 model.numBlocks
        (batch.columns rfl) = some outputs from result.computed, HiddenBatch.columns_row] at hrow
      rw [promptColumns?_row hfits fits row] at hitem
      cases hitem
      cases (getElem?_ofFn_fin _ row).symm.trans houtput
      cases (List.getElem?_eq_getElem row.isLt).symm.trans hstates
      exact hrow.symm

def RowBackward (model : RemoteModel Hidden)
    (row : (List Hidden × List (List Hidden)) × List Hidden)
    (grads : List Hidden × List (List Hidden)) : Prop :=
  chainBackward model row.1.2 0 model.numBlocks row.1.1 row.2 = some grads

/-- The prompts have elements, apart from those of a batch without rows. -/
def Substantial (prompts : Option (PromptBatch Hidden)) : Prop :=
  ∀ given ∈ prompts, 0 < given.numBlocks ∧ 0 < given.length

theorem Passes.gradPrompts {batch : HiddenBatch Hidden} {prompts : Option (PromptBatch Hidden)}
    {columns : List (List (Fin batch.rows.length → Hidden))}
    {outputs gradOutputs gradInputs : List (Fin batch.rows.length → Hidden)}
    {intermediate later : List (List (Fin batch.rows.length → Hidden))}
    {done : List (RemoteSpanInfo PeerID)}
    (hfits : promptColumns? prompts batch.rows.length = some columns)
    (hresult : ForwardResult (model.batched batch.rows.length) columns (batch.columns rfl) outputs
      intermediate done)
    (hsubstantial : Substantial prompts) (hseqLen : 0 < batch.seqLen)
    (hlater : chainBackward (model.batched batch.rows.length) columns 0 model.numBlocks
      (batch.columns rfl) gradOutputs = some (gradInputs, later)) :
    (prompts = none ∧ promptGradients later = []) ∨
      (prompts.isSome = true ∧ promptGradients later = later ∧ later ≠ []) := by
  unfold promptColumns? at hfits
  cases prompts with
  | none =>
      cases hfits
      rw [chainBackward_dummy (fun _ => rfl) hlater]
      exact .inl ⟨rfl, rfl⟩
  | some given =>
      right
      obtain ⟨hblocks, hlength⟩ := hsubstantial given rfl
      dsimp only at hfits
      split at hfits
      · cases hfits
        have hsame : (given.broadcast batch.rows.length).numBlocks = given.numBlocks ∧
            (given.broadcast batch.rows.length).length = given.length := by
          unfold PromptBatch.broadcast
          split <;> exact ⟨rfl, rfl⟩
        rename_i hrows
        have hcount : ((given.broadcast batch.rows.length).columns hrows).length =
            given.numBlocks := by
          rw [PromptBatch.columns, List.length_ofFn, hsame.1]
        have hprompt : ((given.broadcast batch.rows.length).columns hrows).getD 0 [] ≠ [] := by
          rw [List.getD_eq_getElem _ _ (by omega)]
          unfold PromptBatch.columns
          rw [List.getElem_ofFn]
          apply List.ne_nil_of_length_pos
          rw [length_columns, hsame.2]
          exact hlength
        have hmodel : 0 < model.numBlocks := by
          rcases hresult.fits with hempty | hfits
          · have hmem := List.getElem_mem (show 0 < _ by rw [hcount]; exact hblocks)
            rw [List.getD_eq_getElem _ _ (by omega)] at hprompt
            exact absurd (List.isEmpty_iff.mp (List.all_eq_true.mp hempty _ hmem)) hprompt
          · rw [hcount] at hfits
            exact hfits ▸ hblocks
        have hinputs : batch.columns rfl ≠ [] := by
          apply List.ne_nil_of_length_pos
          rw [HiddenBatch.columns, length_columns]
          exact hseqLen
        exact ⟨rfl, promptGradients_eq_self hmodel hprompt hinputs hlater⟩
      · cases hfits

theorem Passes.backward {batch outputs gradOutputs gradInputs : HiddenBatch Hidden}
    {prompts : Option (PromptBatch Hidden)} {saved : SavedBatch PeerID Hidden}
    {attempts : List (BackwardAttempt PeerID)} {gradPrompts : Option (List (List (List Hidden)))}
    (h : Passes model batch prompts outputs saved)
    (hcontiguous : ∀ attempt ∈ attempts, ∀ recovery ∈ attempt.recovery, recovery.Contiguous model)
    (hfits : ∀ given ∈ prompts, given.rows.length = batch.rows.length)
    (hsubstantial : Substantial prompts) (hseqLen : 0 < batch.seqLen)
    (hbackward : backwardBatch config model gradOutputs saved attempts =
      .returned (gradInputs, gradPrompts)) :
    ∃ grads, List.Forall₂ (RowBackward model)
        ((batch.rows.zip (rowPrompts prompts batch.rows.length)).zip gradOutputs.rows) grads ∧
      gradInputs.rows = grads.map Prod.fst ∧
      gradPrompts = prompts.map fun _ => grads.map Prod.snd := by
  cases h with
  | @intro columns outputs intermediate done fits result =>
      unfold backwardBatch at hbackward
      dsimp only at hbackward
      split at hbackward
      · rename_i hheight
        obtain ⟨⟨gradColumns, collected⟩, hreturned, hresult⟩ :=
          PassOutcome.map_eq_returned hbackward
        obtain ⟨later, hlater, rfl⟩ := result.backward hcontiguous hreturned
        obtain ⟨rfl, rfl⟩ := Prod.mk.inj hresult
        refine ⟨List.ofFn fun row => gradientsRow row (gradColumns, later), ?_, ?_, ?_⟩
        · have hzip : (batch.rows.zip (rowPrompts prompts batch.rows.length)).length =
              batch.rows.length := by
            rw [List.length_zip, length_rowPrompts hfits, min_self]
          refine forall₂_zip_of_rows hzip hheight List.length_ofFn ?_
          intro row states gradOutput grads hstates hgradOutput hgrads
          obtain ⟨hinputs, hprompts⟩ := List.getElem?_zip_eq_some.mp hstates
          have hrow := chainBackward_batchRow model columns row 0 model.numBlocks
            (batch.columns rfl) (gradOutputs.columns hheight)
          rw [show chainBackward (model.batched batch.rows.length) columns 0 model.numBlocks
            (batch.columns rfl) (gradOutputs.columns hheight) = some (gradColumns, later) from
            hlater, HiddenBatch.columns_row, HiddenBatch.columns_row] at hrow
          rw [promptColumns?_row hfits fits row] at hprompts
          rw [List.getElem?_eq_getElem row.isLt] at hinputs
          cases (getElem?_ofFn_fin _ row).symm.trans hgrads
          cases (List.getElem?_eq_getElem (hheight.symm ▸ row.isLt)).symm.trans hgradOutput
          unfold RowBackward
          rw [← Option.some.inj hprompts, ← Option.some.inj hinputs]
          exact hrow.symm
        · rw [List.map_ofFn]
          rfl
        · rcases Passes.gradPrompts fits result hsubstantial hseqLen hlater with
            ⟨rfl, hnone⟩ | ⟨hsome, hself, hpresent⟩
          · rw [hnone]
            rfl
          · obtain ⟨given, rfl⟩ := Option.isSome_iff_exists.mp hsome
            dsimp only
            rw [hself, if_neg (by simpa using hpresent), List.map_ofFn]
            rfl
      · exact absurd hbackward PassOutcome.not_failing_returned

end Peerz.Client
