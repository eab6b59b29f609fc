import Peerz.Client.AutogradBatches
import Peerz.Client.BeamSearch
import Peerz.Client.UndisturbedCalls
import Peerz.Models.Bloom

/-! A model that generates computes what it has been trained for: the hidden states of a sequence,
call by call in an inference session, are those of one pass through the autograd function. -/
namespace Peerz.Models
open Library Client Server

variable {PeerID TokenId Token Cache : Type}

/-- Both passes run the same blocks: without a cache a block starts from an empty one. -/
structure SameBlocks (model : BlockModel Token Cache) (remote : RemoteModel Token) : Prop where
  numBlocks : remote.numBlocks = model.numBlocks
  forward : ∀ block < model.numBlocks, ∀ tokens, (remote.backend block).forward tokens =
    ((model.block block).forward (model.block block).emptyCache tokens).1

section chains
variable [Add Token] {remote : RemoteModel Token} {model : BlockModel Token Cache}

theorem addPrompt_append {prompt left : List Token} (h : prompt.length ≤ left.length)
    (right : List Token) : addPrompt prompt (left ++ right) = addPrompt prompt left ++ right := by
  unfold addPrompt
  rw [List.take_append_of_le_length h, List.drop_append_of_le_length h, List.append_assoc]

theorem addPrompts_first {length : Nat} {prompt hiddenStates : List Token}
    {later : List (Nat × List Token)} (hprompt : prompt.length ≤ length)
    (hlength : length ≤ hiddenStates.length) (hlater : ∀ step ∈ later, step.2 = []) :
    addPrompts ((length, prompt) :: later) hiddenStates = addPrompt prompt hiddenStates := by
  have hleft : (hiddenStates.take length).length = length := by
    rw [List.length_take]
    omega
  have hcut := addPrompts_cons prompt later hleft (hiddenStates.drop length)
  rw [List.take_append_drop, addPrompts_dummy hlater, ← addPrompt_append (by omega),
    List.take_append_drop] at hcut
  exact hcut

/-- Steps of which only the first one has prompts are one pass over the whole sequence. -/
theorem chainForward_eq_applyOnce (hsame : SameBlocks model remote) (first : InferenceTensors Token)
    {later : List (InferenceTensors Token)}
    (hprompts : ∀ layer, (first.prompts.getD layer []).length ≤ first.hiddenStates.length)
    (hlater : ∀ step ∈ later, step.prompts = []) {start length : Nat}
    (hstop : start + length ≤ model.numBlocks) {hiddenStates : List Token}
    (hlength : first.hiddenStates.length ≤ hiddenStates.length) :
    chainForward remote first.prompts start length hiddenStates =
      some (applyOnce (first :: later) start ((List.range' start length).map fun block =>
        (model.block block, (model.block block).emptyCache)) hiddenStates) := by
  induction length generalizing start hiddenStates with
  | zero => rfl
  | succ length ih =>
      have hdummy : ∀ step ∈ layerPrompts later start, step.2 = [] := by
        intro step hstep
        obtain ⟨tensors, htensors, rfl⟩ := List.mem_map.mp hstep
        dsimp only
        rw [hlater tensors htensors]
        rfl
      have hprompted := addPrompts_first (hprompts start) hlength hdummy
      have hfits : (first.prompts.getD start []).length ≤ max hiddenStates.length 1 :=
        ((hprompts start).trans hlength).trans (le_max_left _ _)
      rw [List.range'_succ, List.map_cons, applyOnce, layerPrompts, List.map_cons]
      change _ = some (applyOnce (first :: later) (start + 1) _ ((model.block start).forward
        (model.block start).emptyCache (addPrompts ((first.hiddenStates.length,
          first.prompts.getD start []) :: layerPrompts later start) hiddenStates)).1)
      rw [hprompted, ← hsame.forward start (by omega)]
      refine chainForward_succ.mpr ⟨_, if_pos hfits, ?_⟩
      refine ih (by omega) ?_
      rw [(remote.backend start).length_forward, addPrompt_length]
      exact hlength

end chains

namespace DistributedBloomModel

section session
variable [Add Token] (bloom : DistributedBloomModel TokenId Token)

def forwardAll (config : ClientConfig) (model : BlockModel Token Cache) (batchSize : Nat) :
    InferenceSession PeerID Token Cache → Option RemotePastKeyValues →
      List (List TokenId × List (Attempt PeerID)) →
        Option (List (List Token) × InferenceSession PeerID Token Cache)
  | session, _, [] => some ([], session)
  | session, pastKeyValues, (inputIds, attempts) :: rest => do
      let (hiddenStates, seen, next) ←
        bloom.forward config model batchSize session inputIds pastKeyValues attempts
      let (later, final) ← forwardAll config model batchSize next (some seen) rest
      return (hiddenStates :: later, final)

def stepCall (batchSize : Nat) (prompts : List Token × List (List Token))
    (inputIds : List TokenId) : StepCall Token where
  inputs := (prompts.1 ++ inputIds.map bloom.wordEmbeddings).map bloom.wordEmbeddingsLayernorm
  batchSize := batchSize
  prompts := prompts.2
  hypoIds := []

variable {bloom} {config : ClientConfig} {model : BlockModel Token Cache} {batchSize : Nat}
  {session next : InferenceSession PeerID Token Cache} {pastKeyValues : Option RemotePastKeyValues}

theorem forward_eq_some {inputIds : List TokenId} {attempts : List (Attempt PeerID)}
    {hiddenStates : List Token} {seen : RemotePastKeyValues}
    (hhypo : (pastKeyValues.getD {}).hypoIds = [])
    (h : bloom.forward config model batchSize session inputIds pastKeyValues attempts =
      some (hiddenStates, seen, next)) :
    ∃ outputs, session.step config model (bloom.stepCall batchSize
        (if bloom.usePrompts session then bloom.getPrompt else ([], [])) inputIds) attempts =
          .returned outputs next ∧
      hiddenStates = (if bloom.usePrompts session then outputs.drop bloom.preSeqLen
        else outputs).map bloom.lnF ∧
      hiddenStates.length = inputIds.length ∧ seen.hypoIds = [] := by
  unfold forward at h
  dsimp only at h
  rw [hhypo] at h
  split at h
  · rename_i outputs returned hstep
    obtain ⟨hview, hreturned⟩ := Option.ite_none_right_eq_some.mp h
    cases hreturned
    exact ⟨outputs, hstep, rfl, by rw [List.length_map, hview], hhypo⟩
  · cases h
  · cases h

theorem forwardAll_cons {inputIds : List TokenId} {attempts : List (Attempt PeerID)}
    {rest : List (List TokenId × List (Attempt PeerID))} {outputs : List (List Token)}
    {final : InferenceSession PeerID Token Cache}
    (h : bloom.forwardAll config model batchSize session pastKeyValues
      ((inputIds, attempts) :: rest) = some (outputs, final)) :
    ∃ hiddenStates seen next later,
      bloom.forward config model batchSize session inputIds pastKeyValues attempts =
        some (hiddenStates, seen, next) ∧
      bloom.forwardAll config model batchSize next (some seen) rest = some (later, final) ∧
      outputs = hiddenStates :: later := by
  obtain ⟨⟨hiddenStates, seen, next⟩, hforward, h⟩ := Option.bind_eq_some_iff.mp h
  obtain ⟨⟨later, last⟩, hrest, hresult⟩ := Option.bind_eq_some_iff.mp h
  cases hresult
  exact ⟨hiddenStates, seen, next, later, hforward, hrest, rfl⟩

theorem usePrompts_step {call : StepCall Token} {attempts : List (Attempt PeerID)}
    {outputs : List Token} (hlater : bloom.usePrompts session = false ∨ call.inputs ≠ [])
    (hstep : session.step config model call attempts = .returned outputs next) :
    bloom.usePrompts next = false := by
  have hposition := InferenceSession.step_position hstep
  unfold usePrompts at hlater ⊢
  rcases Bool.eq_false_or_eq_true bloom.tuningMode.isSome with htuned | hplain
  · rw [htuned, Bool.true_and, beq_eq_false_iff_ne, hposition]
    rw [htuned, Bool.true_and, beq_eq_false_iff_ne] at hlater
    rcases hlater with hpast | hsome
    · omega
    · have := List.length_pos_iff.mpr hsome
      omega
  · rw [hplain, Bool.false_and]

theorem forwardAll_later {calls : List (List TokenId × List (Attempt PeerID))}
    {outputs : List (List Token)} {final : InferenceSession PeerID Token Cache}
    (hhypo : (pastKeyValues.getD {}).hypoIds = []) (hlater : bloom.usePrompts session = false)
    (h : bloom.forwardAll config model batchSize session pastKeyValues calls =
      some (outputs, final)) :
    ∃ raw, session.returnedAll config model (calls.map fun call =>
        (bloom.stepCall batchSize ([], []) call.1, call.2)) = some (raw, final) ∧
      outputs = raw.map (List.map bloom.lnF) ∧
      outputs.flatten.length = (calls.flatMap Prod.fst).length := by
  induction calls generalizing session pastKeyValues outputs with
  | nil =>
      cases h
      exact ⟨[], rfl, rfl, rfl⟩
  | cons call rest ih =>
      obtain ⟨inputIds, attempts⟩ := call
      obtain ⟨hiddenStates, seen, next, later, hforward, hrest, rfl⟩ := forwardAll_cons h
      obtain ⟨first, hstep, rfl, hlength, hseen⟩ := forward_eq_some hhypo hforward
      rw [hlater] at hstep
      have hhypo : ((some seen).getD {}).hypoIds = [] := hseen
      obtain ⟨raw, hreturned, rfl, hlaterLength⟩ :=
        ih hhypo (usePrompts_step (.inl hlater) hstep) hrest
      refine ⟨first :: raw, ?_, ?_, ?_⟩
      · exact InferenceSession.returnedAll_of_step hstep hreturned
      · rw [hlater]
        rfl
      · rw [List.flatten_cons, List.length_append, hlength, hlaterLength, List.flatMap_cons,
          List.length_append]

end session
end DistributedBloomModel

/-- The model on a batch. Its embeddings of prompts are not empty where prompts are tuned, and those
of all the blocks are one tensor. -/
structure TunedBloomModel (TokenId Hidden : Type) (height : Nat) extends
    DistributedBloomModel TokenId (Fin height → Hidden) where
  preSeqLen_pos : tuningMode.isSome → 0 < preSeqLen
  intermediate_length : ∀ prompt ∈ intermediatePromptEmbeddings, prompt.length = preSeqLen

namespace TunedBloomModel

variable {Hidden : Type} {height : Nat} (bloom : TunedBloomModel TokenId Hidden height)

theorem prompt_length : ∀ prompt ∈ bloom.getPrompt.2, prompt.length = bloom.preSeqLen := by
  unfold DistributedBloomModel.getPrompt
  dsimp only
  split
  · exact bloom.intermediate_length
  · exact nofun

def startingPrompts : List (Fin height → Hidden) × List (List (Fin height → Hidden)) :=
  if bloom.tuningMode.isSome then bloom.getPrompt else ([], [])

def embedded (inputIds : List TokenId) : List (Fin height → Hidden) :=
  (bloom.startingPrompts.1 ++ inputIds.map bloom.wordEmbeddings).map bloom.wordEmbeddingsLayernorm

def promptBatch : Option (PromptBatch Hidden) :=
  if bloom.tuningMode.isSome
  then some (.ofColumns bloom.getPrompt.2 bloom.preSeqLen bloom.prompt_length) else none

def forwardWithoutSession [Add Hidden] (config : ClientConfig) (remote : RemoteModel Hidden)
    (inputIds : List TokenId) (attempts : Nat → List (ForwardAttempt PeerID)) :
    PassOutcome (List (Fin height → Hidden)) :=
  match autogradForward config remote (.ofColumns (bloom.embedded inputIds)) bloom.promptBatch
      attempts with
  | .raised => .raised
  | .pending => .pending
  | .returned (outputs, _) =>
      if h : outputs.rows.length = height then
        let hiddenStates := (outputs.columns h).drop bloom.prefixLength
        if hiddenStates.length = inputIds.length then .returned (hiddenStates.map bloom.lnF)
        else .raised
      else .raised

variable {bloom}

theorem startingPrompts_length :
    bloom.startingPrompts.1.length = bloom.prefixLength ∧
      ∀ prompt ∈ bloom.startingPrompts.2, prompt.length = bloom.prefixLength := by
  unfold startingPrompts DistributedBloomModel.prefixLength
  split
  · rename_i htuned
    exact ⟨bloom.promptEmbeddings_length htuned, bloom.prompt_length⟩
  · exact ⟨rfl, nofun⟩

theorem promptBatch_row (bloom : TunedBloomModel TokenId Hidden height) (row : Fin height) :
    ∃ given, (rowPrompts (givenPrompts bloom.promptBatch) height)[row.val]? = some given ∧
      ∀ block, given.getD block [] =
        (bloom.startingPrompts.2.map (batchRow row)).getD block [] := by
  unfold startingPrompts promptBatch
  split
  · exact rowPrompts_ofColumns bloom.prompt_length row
  · exact ⟨[], by simp [rowPrompts, givenPrompts], fun _ => rfl⟩

theorem promptBatch_fits (bloom : TunedBloomModel TokenId Hidden height)
    (columns : List (Fin height → Hidden)) :
    PromptsFit bloom.promptBatch (.ofColumns columns) := by
  intro given hgiven
  obtain ⟨hgiven, -⟩ := givenPrompts_eq_some hgiven
  unfold promptBatch at hgiven
  split at hgiven
  · cases hgiven
    exact List.length_ofFn.trans List.length_ofFn.symm
  · cases hgiven

section training
variable [Add Hidden] {config : ClientConfig} {remote : RemoteModel Hidden}
  {inputIds : List TokenId} {attempts : Nat → List (ForwardAttempt PeerID)}

theorem forwardWithoutSession_returned {trained : List (Fin height → Hidden)}
    (hroutes : ∀ part, ∀ attempt ∈ attempts part, attempt.Contiguous remote)
    (h : bloom.forwardWithoutSession config remote inputIds attempts = .returned trained) :
    ∃ hiddenStates, trained = (hiddenStates.drop bloom.prefixLength).map bloom.lnF ∧
      trained.length = inputIds.length ∧
      ∀ row, chainForward remote (bloom.startingPrompts.2.map (batchRow row)) 0 remote.numBlocks
        (batchRow row (bloom.embedded inputIds)) = some (batchRow row hiddenStates) := by
  unfold forwardWithoutSession at h
  split at h
  · cases h
  · cases h
  · rename_i outputs saved hforward
    split at h
    · rename_i hheight
      dsimp only at h
      split at h
      · rename_i hview
        cases h
        refine ⟨outputs.columns hheight, rfl, by rw [List.length_map, hview], fun row => ?_⟩
        obtain ⟨-, results, hparts, houtputs, -⟩ := autogradForward_parts hroutes hforward
        have hrows := rows_of_parts (bloom.promptBatch_fits _) hparts
        have hinputs : (HiddenBatch.ofColumns (bloom.embedded inputIds)).rows.length = height :=
          List.length_ofFn
        rw [← houtputs, hinputs] at hrows
        obtain ⟨given, hgiven, hprompts⟩ := bloom.promptBatch_row row
        have hrow : outputs.rows[row.val]? = some (batchRow row (outputs.columns hheight)) := by
          rw [HiddenBatch.columns_row, List.get_eq_getElem, List.getElem?_eq_getElem]
        have hbefore : ((HiddenBatch.ofColumns (bloom.embedded inputIds)).rows.zip
            (rowPrompts (givenPrompts bloom.promptBatch) height))[row.val]? =
              some (batchRow row (bloom.embedded inputIds), given) := by
          rw [List.getElem?_zip_eq_some]
          exact ⟨by simp [HiddenBatch.ofColumns], hgiven⟩
        have hpass : RowForward remote _ _ := forall₂_getElem? hrows hbefore hrow
        rw [← chainForward_congr hprompts]
        exact hpass
      · cases h
    · cases h

end training

section generating
variable [Add Hidden] {config : ClientConfig} {model : BlockModel (Fin height → Hidden) Cache}
  {remote : RemoteModel Hidden} {maxLength : Nat}
  {final : InferenceSession PeerID (Fin height → Hidden) Cache}
  {inputIds : List TokenId} {attempts : List (Attempt PeerID)}
  {rest : List (List TokenId × List (Attempt PeerID))} {outputs : List (List (Fin height → Hidden))}

omit [Add Hidden] in
theorem usePrompts_new : bloom.usePrompts (.new maxLength :
    InferenceSession PeerID (Fin height → Hidden) Cache) = bloom.tuningMode.isSome := by
  simp [DistributedBloomModel.usePrompts, InferenceSession.new]

omit [Add Hidden] in
theorem stepCall_length : (bloom.stepCall height bloom.startingPrompts inputIds).inputs.length =
    bloom.prefixLength + inputIds.length := by
  unfold DistributedBloomModel.stepCall
  rw [List.length_map, List.length_append, List.length_map, startingPrompts_length.1]

omit [Add Hidden] in
theorem drop_prompts (hiddenStates : List (Fin height → Hidden)) :
    (if bloom.tuningMode.isSome then hiddenStates.drop bloom.preSeqLen else hiddenStates) =
      hiddenStates.drop bloom.prefixLength := by
  unfold DistributedBloomModel.prefixLength
  split
  · rfl
  · rfl

variable (bloom) in
/-- The step calls that the ids of a session are: the first one brings the prompts with it. -/
def sessionCalls : List (List TokenId × List (Attempt PeerID)) →
    List (StepCall (Fin height → Hidden) × List (Attempt PeerID))
  | [] => []
  | (inputIds, attempts) :: rest =>
      (bloom.stepCall height bloom.startingPrompts inputIds, attempts) ::
        rest.map fun call => (bloom.stepCall height ([], []) call.1, call.2)

/-- No push disturbs the calls of a session if servers push nothing or the blocks have no prompts. -/
theorem sessionCalls_undisturbed {calls : List (List TokenId × List (Attempt PeerID))}
    (hplain : config.useServerToServer = true → bloom.tuningMode ≠ some .deepPtune) :
    EveryStep (InferenceSession.returnedStep config model)
      (InferenceSession.Undisturbed config model) (.new maxLength) (bloom.sessionCalls calls) := by
  refine (InferenceSession.plainPushes_new maxLength).everyStep fun hpushes event hevent => ?_
  cases calls with
  | nil => cases hevent
  | cons call rest =>
      rcases List.mem_cons.mp hevent with rfl | hlater
      · refine ⟨?_, rfl⟩
        unfold DistributedBloomModel.stepCall startingPrompts DistributedBloomModel.getPrompt
        dsimp only
        split
        · rw [if_neg (hplain hpushes)]
          rfl
        · rfl
      · obtain ⟨call, -, rfl⟩ := List.mem_map.mp hlater
        exact ⟨rfl, rfl⟩

theorem forwardAll_new (hcontiguous : ∀ attempt ∈ attempts, attempt.Contiguous model)
    (hundisturbed : EveryStep (InferenceSession.returnedStep config model)
      (InferenceSession.Undisturbed config model) (.new maxLength)
      (bloom.sessionCalls ((inputIds, attempts) :: rest)))
    (h : bloom.forwardAll config model height (.new maxLength) none ((inputIds, attempts) :: rest) =
      some (outputs, final)) :
    ∃ raw, InferenceSession.returnedAll config model (.new maxLength)
        (bloom.sessionCalls ((inputIds, attempts) :: rest)) = some (raw, final) ∧
      outputs.flatten = (raw.flatten.drop bloom.prefixLength).map bloom.lnF ∧
      outputs.flatten.length = (inputIds ++ rest.flatMap Prod.fst).length := by
  obtain ⟨hiddenStates, seen, next, later, hforward, hrest, rfl⟩ :=
    DistributedBloomModel.forwardAll_cons h
  have hhypo : ((none : Option RemotePastKeyValues).getD {}).hypoIds = [] := rfl
  obtain ⟨first, hstep, rfl, hlength, hseen⟩ :=
    DistributedBloomModel.forward_eq_some hhypo hforward
  rw [usePrompts_new] at hstep
  rw [usePrompts_new, drop_prompts] at hlength ⊢
  have hinputs : bloom.usePrompts (.new maxLength :
      InferenceSession PeerID (Fin height → Hidden) Cache) = false ∨
        (bloom.stepCall height bloom.startingPrompts inputIds).inputs ≠ [] := by
    rw [usePrompts_new]
    rcases Bool.eq_false_or_eq_true bloom.tuningMode.isSome with htuned | hplain
    · refine .inr (List.length_pos_iff.mp ?_)
      rw [stepCall_length, DistributedBloomModel.prefixLength, if_pos htuned]
      exact Nat.lt_of_lt_of_le (bloom.preSeqLen_pos htuned) (Nat.le_add_right _ _)
    · exact .inl hplain
  have hlater : ((some seen).getD {}).hypoIds = [] := hseen
  obtain ⟨raw, hreturned, rfl, hrestLength⟩ := DistributedBloomModel.forwardAll_later hlater
    (DistributedBloomModel.usePrompts_step hinputs hstep) hrest
  have hfirst : bloom.prefixLength ≤ first.length := by
    have hgood : InferenceSession.Good model (.new model) True
        (.new maxLength : InferenceSession PeerID (Fin height → Hidden) Cache) :=
      InferenceSession.good_new maxLength
    have hquiet := (hundisturbed next
      (InferenceSession.returnedStep_eq_some.mpr ⟨first, hstep⟩)).1
    rw [(hgood.step_returned hcontiguous hquiet.fits hstep).1, Ideal.outputs, Ideal.hidden_length]
    exact (Nat.le_add_right _ _).trans stepCall_length.ge
  refine ⟨first :: raw, ?_, ?_, ?_⟩
  · exact InferenceSession.returnedAll_of_step hstep hreturned
  · rw [List.flatten_cons, List.flatten_cons, List.drop_append_of_le_length hfirst, List.map_append,
      List.map_flatten]
  · rw [List.flatten_cons, List.length_append, List.length_append, hlength, hrestLength]

theorem chainForward_returnedAll {raw : List (List (Fin height → Hidden))}
    (hsame : SameBlocks model (remote.batched height))
    (hresumes : ∀ block < model.numBlocks, Resumes (model.block block).forward)
    (hcontiguous : ∀ attempt ∈ attempts, attempt.Contiguous model)
    (hrest : ∀ call ∈ rest, ∀ attempt ∈ call.2, attempt.Contiguous model)
    (hundisturbed : EveryStep (InferenceSession.returnedStep config model)
      (InferenceSession.Undisturbed config model) (.new maxLength)
      (bloom.sessionCalls ((inputIds, attempts) :: rest)))
    (hreturned : InferenceSession.returnedAll config model (.new maxLength)
      (bloom.sessionCalls ((inputIds, attempts) :: rest)) = some (raw, final)) :
    chainForward (remote.batched height) bloom.startingPrompts.2 0 model.numBlocks
      (bloom.embedded (inputIds ++ rest.flatMap Prod.fst)) = some raw.flatten := by
  have hinputs : bloom.embedded (inputIds ++ rest.flatMap Prod.fst) =
      (bloom.sessionCalls ((inputIds, attempts) :: rest)).flatMap
        fun event => event.1.inputs := by
    simp [sessionCalls, embedded, DistributedBloomModel.stepCall, List.flatMap_map, List.map_flatMap]
  have hprompts : ∀ layer, (bloom.startingPrompts.2.getD layer []).length ≤
      (bloom.stepCall height bloom.startingPrompts inputIds).inputs.length := by
    intro layer
    rw [stepCall_length]
    refine le_trans ?_ (Nat.le_add_right _ _)
    rw [List.getD_eq_getElem?_getD]
    cases hprompt : bloom.startingPrompts.2[layer]? with
    | none => exact Nat.zero_le _
    | some prompt => exact (startingPrompts_length.2 prompt (List.mem_of_getElem? hprompt)).le
  rw [InferenceSession.returnedAll_flatten hresumes ?_ hundisturbed ?_ hreturned,
    List.range_eq_range', hinputs]
  · refine chainForward_eq_applyOnce hsame
      (bloom.stepCall height bloom.startingPrompts inputIds).tensors hprompts ?_
      (Nat.zero_add _).le ?_
    · intro step hstep
      obtain ⟨event, hevent, rfl⟩ := List.mem_map.mp hstep
      obtain ⟨call, -, rfl⟩ := List.mem_map.mp hevent
      rfl
    · rw [sessionCalls, List.flatMap_cons, List.length_append]
      exact Nat.le_add_right _ _
  · intro event hevent
    rcases List.mem_cons.mp hevent with rfl | hevent
    · exact hcontiguous
    · obtain ⟨call, hcall, rfl⟩ := List.mem_map.mp hevent
      exact hrest call hcall
  · intro event hevent
    rcases List.mem_cons.mp hevent with rfl | hevent
    · rfl
    · obtain ⟨call, hcall, rfl⟩ := List.mem_map.mp hevent
      rfl

/-- What the calls of a session make of a sequence, whatever failures they go through, is what one
pass without a session makes of it, however that is cut. Only the prompts of all the blocks could
come along with a push of a later call. -/
theorem generates_as_trained {calls : List (List TokenId × List (Attempt PeerID))}
    {training : ClientConfig} {trainingAttempts : Nat → List (ForwardAttempt PeerID)}
    {trained : List (Fin height → Hidden)} (hsame : SameBlocks model (remote.batched height))
    (hresumes : ∀ block < model.numBlocks, Resumes (model.block block).forward)
    (hcontiguous : ∀ call ∈ calls, ∀ attempt ∈ call.2, attempt.Contiguous model)
    (hundisturbed : config.useServerToServer = true → bloom.tuningMode = some .deepPtune →
      EveryStep (InferenceSession.returnedStep config model)
        (InferenceSession.Undisturbed config model) (.new maxLength) (bloom.sessionCalls calls))
    (hroutes : ∀ part, ∀ attempt ∈ trainingAttempts part, attempt.Contiguous remote)
    (hgenerated : bloom.forwardAll config model height (.new maxLength) none calls =
      some (outputs, final))
    (htrained : bloom.forwardWithoutSession training remote (calls.flatMap Prod.fst)
      trainingAttempts = .returned trained) :
    outputs.flatten = trained := by
  have hundisturbed : EveryStep (InferenceSession.returnedStep config model)
      (InferenceSession.Undisturbed config model) (.new maxLength) (bloom.sessionCalls calls) := by
    by_cases hdeep : config.useServerToServer = true ∧ bloom.tuningMode = some .deepPtune
    · exact hundisturbed hdeep.1 hdeep.2
    · exact sessionCalls_undisturbed fun hpushes htuned => hdeep ⟨hpushes, htuned⟩
  obtain ⟨hiddenStates, rfl, hlength, hrows⟩ := forwardWithoutSession_returned hroutes htrained
  cases calls with
  | nil =>
      cases hgenerated
      exact (List.length_eq_zero_iff.mp hlength).symm
  | cons call rest =>
      obtain ⟨inputIds, attempts⟩ := call
      obtain ⟨hfirst, hrest⟩ := List.forall_mem_cons.mp hcontiguous
      obtain ⟨raw, hreturned, houtputs, houtputsLength⟩ :=
        forwardAll_new hfirst hundisturbed hgenerated
      have hchain := chainForward_returnedAll hsame hresumes hfirst hrest hundisturbed hreturned
      rw [houtputs, List.length_map] at houtputsLength
      rw [List.length_map] at hlength
      have hsamePass : raw.flatten.drop bloom.prefixLength =
          hiddenStates.drop bloom.prefixLength := by
        refine eq_of_batchRow (houtputsLength.trans hlength.symm) fun row => ?_
        have hrow := chainForward_batchRow remote bloom.startingPrompts.2 row 0 model.numBlocks
          (bloom.embedded (inputIds ++ rest.flatMap Prod.fst))
        have hnumBlocks : remote.numBlocks = model.numBlocks := hsame.numBlocks
        rw [hchain, ← hnumBlocks] at hrow
        have hsameRow : batchRow row raw.flatten = batchRow row hiddenStates :=
          Option.some_injective _ (hrow.trans (hrows row))
        rw [batchRow, batchRow, List.map_drop, List.map_drop]
        exact congrArg (List.drop bloom.prefixLength) hsameRow
      rw [houtputs, hsamePass]

end generating

section deepPrompts
open InferenceRuntime

private def deeplyTuned : TunedBloomModel Nat Nat 2 where
  tuningMode := some .deepPtune
  preSeqLen := 1
  promptEmbeddings := [fun _ => 1]
  intermediatePromptEmbeddings := [[fun row => row.val + 2], [fun row => row.val + 4]]
  wordEmbeddings id := fun row => id + row.val
  wordEmbeddingsLayernorm token := token
  lnF token := token
  promptEmbeddings_length _ := rfl
  preSeqLen_pos _ := Nat.one_pos
  intermediate_length := by simp

private def generatingModel : BlockModel (Fin 2 → Nat) (Past (Fin 2 → Nat) 1) :=
  ⟨2, fun _ => sumsOfRows.toBlock⟩

private def trainingModel : RemoteModel Nat where
  numBlocks := 2
  backend _ :=
    { forward := fun tokens => (summingBlock.toBlock.forward (fun _ => []) tokens).1
      backward := fun inputs _ => inputs
      length_forward := summingBlock.toBlock.length_forward _
      length_backward := fun _ _ => rfl }

private theorem generating_as_training :
    SameBlocks generatingModel (trainingModel.batched 2) where
  numBlocks := rfl
  forward block hblock tokens := by
    have hrows := (sumsOfRows_rows ⟨"block", block⟩).toBlock
    refine eq_of_batchRow ?_ fun row => ?_
    · rw [TransformerBackend.length_forward, Block.length_forward]
    · exact (batchRow_forward row _ tokens).trans (hrows.outputs row (fun _ => []) tokens).symm

private def generatingCalls : List (List Nat × List (Attempt Unit)) :=
  [([5], [.failed true true, .served, .served]), ([6, 7], [.served, .served])].map fun call =>
    (call.1, call.2.map (InferenceSession.throughTwoServers []))

private theorem generatingCalls_contiguous :
    ∀ call ∈ generatingCalls, ∀ attempt ∈ call.2, attempt.Contiguous generatingModel := by
  intro call hcall attempt hattempt
  obtain ⟨requests, -, rfl⟩ := List.mem_map.mp hcall
  obtain ⟨request, -, rfl⟩ := List.mem_map.mp hattempt
  exact InferenceSession.throughTwoServers_contiguous [] request rfl

private theorem generatingCalls_undisturbed
    (session : InferenceSession Unit (Fin 2 → Nat) (Past (Fin 2 → Nat) 1)) :
    EveryStep (InferenceSession.returnedStep ⟨true, none⟩ generatingModel)
      (InferenceSession.Undisturbed ⟨true, none⟩ generatingModel) session
      (deeplyTuned.sessionCalls generatingCalls) :=
  fun _ _ => ⟨InferenceSession.undisturbed_of_none (by simp [InferenceSession.throughTwoServers]),
    fun _ _ => ⟨InferenceSession.undisturbed_of_none (by simp [InferenceSession.throughTwoServers]),
      trivial⟩⟩

private def trainingAttempt : ForwardAttempt Unit where
  makeSequence first last := some [⟨(), first, last, { state := .online, throughput := 1 }⟩]
  answered := true

private theorem trainingAttempt_contiguous : trainingAttempt.Contiguous trainingModel := by
  intro first last spans hfirst hlt hlast hspans
  cases hspans
  exact ⟨[], _, rfl, rfl, hlt, le_rfl⟩

theorem generates_as_trained_deeplyTuned :
    ∃ outputs final trained,
      deeplyTuned.forwardAll ⟨true, none⟩ generatingModel 2 (.new 4) none generatingCalls =
          some (outputs, final) ∧
        deeplyTuned.forwardWithoutSession ⟨true, none⟩ trainingModel [5, 6, 7]
          (fun _ => [trainingAttempt]) = .returned trained ∧ outputs.flatten = trained := by
  have hgenerates : (deeplyTuned.forwardAll ⟨true, none⟩ generatingModel 2 (.new 4) none
      generatingCalls).isSome = true := by decide +kernel
  have htrains : (match deeplyTuned.forwardWithoutSession ⟨true, none⟩ trainingModel [5, 6, 7]
      (fun _ => [trainingAttempt]) with
    | .returned trained => trained.length
    | _ => 0) = 3 := by decide +kernel
  obtain ⟨⟨outputs, final⟩, hgenerated⟩ := Option.isSome_iff_exists.mp hgenerates
  split at htrains
  · rename_i trained htrained
    exact ⟨outputs, final, trained, hgenerated, htrained,
      generates_as_trained generating_as_training
        (fun _ _ => sumsOfRows.toBlock_resumes) generatingCalls_contiguous
        (fun _ _ => generatingCalls_undisturbed _)
        (fun _ => by simp [trainingAttempt_contiguous]) hgenerated htrained⟩
  · cases htrains

end deepPrompts
end TunedBloomModel
end Peerz.Models
