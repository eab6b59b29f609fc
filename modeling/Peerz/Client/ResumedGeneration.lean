import Peerz.Client.FaultTolerance
import Peerz.Client.RemoteGeneration

/-! Which tokens the calls of `generate` in one session pass to the transformer. A call starts its
cache at the position of the session, where the servers have counted the tuned prompts too. -/
namespace Peerz.Client
open Library Models

variable {PeerID TokenId Token Cache : Type}

def GreedyState.unseen (state : GreedyState PeerID TokenId Token Cache) : List TokenId :=
  if state.pastKeyValues.seenTokens < state.inputIds.length then
    state.inputIds.drop state.pastKeyValues.seenTokens
  else state.inputIds

/-- All the tokens but the last one are on the servers, each once. -/
structure GreedyState.InStep (state : GreedyState PeerID TokenId Token Cache) : Prop where
  seen_lt : state.pastKeyValues.seenTokens < state.inputIds.length
  fed : state.fed = state.inputIds.take state.pastKeyValues.seenTokens

namespace CausalLM
variable [Add Token] {lm : CausalLM TokenId Token Cache}

def servedLength (lm : CausalLM TokenId Token Cache) (fed : List TokenId) : Nat :=
  if fed = [] then 0 else lm.transformer.prefixLength + fed.length

section loop
variable {state next final : GreedyState PeerID TokenId Token Cache}
  {attempts first : List (Attempt PeerID)} {later : List (List (Attempt PeerID))}

theorem greedyStep_cases (h : lm.greedyStep state attempts = some next) :
    ∃ token, state.unseen ≠ [] ∧ next.inputIds = state.inputIds ++ [token] ∧
      next.fed = state.fed ++ state.unseen ∧
      next.pastKeyValues.seenTokens = state.pastKeyValues.seenTokens + state.unseen.length ∧
      next.session.position = state.session.position +
        (if state.session.position = 0 then lm.transformer.prefixLength else 0) +
        state.unseen.length := by
  have hprepared : prepareInputsForGeneration state.inputIds (some state.pastKeyValues)
      (some state.inputIds.length) = state.unseen := prepareInputsForGeneration_eq _ _
  unfold greedyStep at h
  rw [hprepared] at h
  dsimp only at h
  split at h
  · cases h
  · rename_i hiddenStates seen session hforward
    obtain ⟨hlength, hseen, hposition⟩ := DistributedBloomModel.forward_counts hforward
    obtain ⟨last, hlast, rfl⟩ := Option.map_eq_some_iff.mp h
    refine ⟨_, fun hnil => ?_, rfl, rfl, hseen, hposition⟩
    rw [hnil, List.length_nil, List.length_eq_zero_iff] at hlength
    rw [hlength] at hlast
    cases hlast

theorem greedyStep_counted (h : lm.greedyStep state attempts = some next)
    (hcounted : state.session.position = lm.servedLength state.fed) :
    next.fed ≠ [] ∧ next.session.position = lm.servedLength next.fed := by
  obtain ⟨token, hunseen, -, hfed, -, hposition⟩ := greedyStep_cases h
  have hnext : next.fed ≠ [] := by simp [hfed, hunseen]
  have hpositive := List.length_pos_iff.mpr hunseen
  refine ⟨hnext, ?_⟩
  unfold servedLength at hcounted ⊢
  rw [if_neg hnext, hposition, hfed, List.length_append]
  by_cases hnone : state.fed = []
  · rw [if_pos hnone] at hcounted
    rw [hcounted, if_pos rfl, hnone, List.length_nil]
    omega
  · rw [if_neg hnone] at hcounted
    have hsome := List.length_pos_iff.mpr hnone
    rw [if_neg (by omega), hcounted]
    omega

theorem loop_counted (h : LeadsTo lm.greedyStep state (first :: later) final)
    (hcounted : state.session.position = lm.servedLength state.fed) :
    final.fed ≠ [] ∧ final.session.position = lm.servedLength final.fed := by
  obtain ⟨middle, hfirst, hlater⟩ := leadsTo_cons.mp h
  exact hlater.invariant (fun _ _ _ hinv hstep => greedyStep_counted hstep hinv.2)
    (greedyStep_counted hfirst hcounted)

theorem greedyStep_seen (h : lm.greedyStep state attempts = some next)
    (hlt : state.pastKeyValues.seenTokens < state.inputIds.length) :
    next.pastKeyValues.seenTokens + 1 = next.inputIds.length := by
  obtain ⟨token, -, hinputs, -, hseen, -⟩ := greedyStep_cases h
  rw [hseen, hinputs, GreedyState.unseen, if_pos hlt, List.length_drop, List.length_append,
    List.length_singleton]
  omega

theorem loop_seen (h : LeadsTo lm.greedyStep state (first :: later) final)
    (hlt : state.pastKeyValues.seenTokens < state.inputIds.length) :
    final.pastKeyValues.seenTokens + 1 = final.inputIds.length := by
  obtain ⟨middle, hfirst, hlater⟩ := leadsTo_cons.mp h
  exact hlater.invariant (fun _ _ _ hinv hstep => greedyStep_seen hstep (by omega))
    (greedyStep_seen hfirst hlt)

theorem greedyStep_inStep (h : lm.greedyStep state attempts = some next) (hstate : state.InStep) :
    next.InStep := by
  have hseen := greedyStep_seen h hstate.seen_lt
  obtain ⟨token, -, hinputs, hfed, -, -⟩ := greedyStep_cases h
  have hlength : next.pastKeyValues.seenTokens = state.inputIds.length := by
    rw [hinputs, List.length_append, List.length_singleton] at hseen
    omega
  refine ⟨by omega, ?_⟩
  rw [hfed, hstate.fed, GreedyState.unseen, if_pos hstate.seen_lt, List.take_append_drop, hinputs,
    hlength, List.take_left]

theorem loop_ahead {ahead : Nat} {turns : List (List (Attempt PeerID))}
    (h : LeadsTo lm.greedyStep state turns final)
    (hahead : state.pastKeyValues.seenTokens = ahead + state.fed.length) :
    final.pastKeyValues.seenTokens = ahead + final.fed.length := by
  have hturn : ∀ (current : GreedyState PeerID TokenId Token Cache) attempts next,
      current.pastKeyValues.seenTokens = ahead + current.fed.length →
      lm.greedyStep current attempts = some next →
      next.pastKeyValues.seenTokens = ahead + next.fed.length := by
    intro current attempts next hcurrent hstep
    obtain ⟨token, -, -, hfed, hseen, -⟩ := greedyStep_cases hstep
    rw [hseen, hcurrent, hfed, List.length_append, Nat.add_assoc]
  exact h.invariant hturn hahead

theorem greedyStep_refeeds (h : lm.greedyStep state attempts = some next)
    (hle : state.inputIds.length ≤ state.pastKeyValues.seenTokens) (hfed : state.fed ≠ []) :
    next.inputIds.length ≤ next.pastKeyValues.seenTokens ∧ next.fed ≠ [] ∧
      next.inputIds.length ≤ next.fed.length := by
  obtain ⟨token, hunseen, hinputs, hnext, hseen, -⟩ := greedyStep_cases h
  rw [GreedyState.unseen, if_neg (Nat.not_lt.mpr hle)] at hunseen hnext hseen
  have htokens := List.length_pos_iff.mpr hunseen
  have hbefore := List.length_pos_iff.mpr hfed
  rw [hinputs, hnext, hseen, List.length_append, List.length_append, List.length_singleton]
  exact ⟨by omega, List.append_ne_nil_of_left_ne_nil hfed _, by omega⟩

theorem loop_refeeds (h : LeadsTo lm.greedyStep state (first :: later) final)
    (hle : state.inputIds.length ≤ state.pastKeyValues.seenTokens) (hfed : state.fed ≠ []) :
    final.inputIds.length ≤ final.fed.length := by
  obtain ⟨middle, hfirst, hlater⟩ := leadsTo_cons.mp h
  exact (hlater.invariant (fun _ _ _ hinv hstep => greedyStep_refeeds hstep hinv.1 hinv.2.1)
    (greedyStep_refeeds hfirst hle hfed)).2.2

end loop

section calls
variable {generation next : Generation PeerID TokenId Token Cache}
  {call : GenerateCall PeerID TokenId}

theorem generateStep_cases (h : lm.generateStep generation call = some next) :
    ∃ inputs final, lm.allInputs (generation.outputIds.getD []) call.inputs = some inputs ∧
      LeadsTo lm.greedyStep ⟨generation.session, { seenTokens := generation.session.position },
        inputs, generation.fed⟩ (call.first :: call.later) final ∧
      next.session = final.session ∧ next.outputIds = some final.inputIds ∧
      next.fed = final.fed := by
  obtain ⟨⟨tokens, returned⟩, hgenerate, rfl⟩ := Option.map_eq_some_iff.mp h
  obtain ⟨inputs, hinputs, hgenerate⟩ := Option.bind_eq_some_iff.mp hgenerate
  obtain ⟨final, hloop, hreturned⟩ := Option.bind_eq_some_iff.mp hgenerate
  cases hreturned
  rw [RemotePastKeyValues.updateSeen, Nat.zero_add] at hloop
  exact ⟨inputs, final, hinputs, hloop, rfl, rfl, rfl⟩

theorem generateStep_counted (h : lm.generateStep generation call = some next)
    (hcounted : generation.session.position = lm.servedLength generation.fed) :
    next.fed ≠ [] ∧ next.session.position = lm.servedLength next.fed := by
  obtain ⟨inputs, final, -, hloop, hsession, -, hfed⟩ := generateStep_cases h
  rw [hsession, hfed]
  exact loop_counted hloop hcounted

/-- A call feeds what is missing and then its new tokens but the last one, if the servers have
counted the fed tokens and no others. -/
theorem generateStep_inStep (h : lm.generateStep generation call = some next)
    (hfed : generation.fed = (generation.outputIds.getD []).dropLast)
    (hcounted : generation.session.position = generation.fed.length) :
    next.fed = (next.outputIds.getD []).dropLast := by
  obtain ⟨inputs, final, hinputs, hloop, -, houtput, hnext⟩ := generateStep_cases h
  have hstart : GreedyState.InStep ⟨generation.session,
      { seenTokens := generation.session.position }, inputs, generation.fed⟩ := by
    unfold allInputs at hinputs
    rw [hfed, List.length_dropLast] at hcounted
    split at hinputs
    · rename_i hprevious
      cases hinputs
      refine ⟨?_, ?_⟩
      · rw [List.length_append]
        dsimp only
        omega
      · dsimp only
        rw [hcounted, List.take_append_of_le_length (Nat.sub_le _ 1), ← List.dropLast_eq_take, hfed]
    · rename_i hnone
      have hempty : generation.outputIds.getD [] = [] :=
        List.length_eq_zero_iff.mp (Nat.eq_zero_of_not_pos hnone)
      rw [hempty] at hfed hcounted
      obtain ⟨middle, hfirst, -⟩ := leadsTo_cons.mp hloop
      obtain ⟨token, hunseen, -⟩ := greedyStep_cases hfirst
      have hsome : inputs ≠ [] := by
        rintro rfl
        simp [GreedyState.unseen] at hunseen
      refine ⟨?_, ?_⟩
      · dsimp only
        rw [hcounted]
        exact List.length_pos_iff.mpr hsome
      · dsimp only
        rw [hcounted, hfed]
        rfl
  obtain ⟨middle, hfirst, hlater⟩ := leadsTo_cons.mp hloop
  have hfinal := hlater.invariant (fun _ _ _ hinv hstep => greedyStep_inStep hstep hinv)
    (greedyStep_inStep hfirst hstart)
  have hseen := loop_seen hloop hstart.seen_lt
  rw [hnext, houtput, Option.getD_some, hfinal.fed, List.dropLast_eq_take]
  congr 1
  omega

/-- A call that resumes a session leaves out as many tokens as the servers have counted besides
the fed ones, or feeds all of them again. -/
theorem generateStep_resumed (h : lm.generateStep generation call = some next) {ahead : Nat}
    (hfed : generation.fed ≠ [])
    (hcounted : generation.session.position = ahead + generation.fed.length) :
    ahead + next.fed.length + 1 = (next.outputIds.getD []).length ∨
      (next.outputIds.getD []).length ≤ next.fed.length := by
  obtain ⟨inputs, final, -, hloop, -, houtput, hnext⟩ := generateStep_cases h
  rw [hnext, houtput, Option.getD_some]
  rcases Nat.lt_or_ge generation.session.position inputs.length with hlt | hge
  · rw [← loop_seen hloop hlt, loop_ahead hloop hcounted]
    exact .inl rfl
  · exact .inr (loop_refeeds hloop hge hfed)

end calls

section runs
variable {maxLength : Nat} {calls : List (GenerateCall PeerID TokenId)}
  {final : Generation PeerID TokenId Token Cache}
  (hruns : LeadsTo lm.generateStep (.new maxLength) calls final)
include hruns

theorem generate_counted : final.session.position = lm.servedLength final.fed ∧
    (calls ≠ [] → final.fed ≠ []) := by
  have hcall : ∀ (past : List (GenerateCall PeerID TokenId))
      (generation : Generation PeerID TokenId Token Cache) call next,
      generation.session.position = lm.servedLength generation.fed ∧
        (past ≠ [] → generation.fed ≠ []) →
      lm.generateStep generation call = some next →
      next.session.position = lm.servedLength next.fed ∧ (past ++ [call] ≠ [] → next.fed ≠ []) := by
    intro past generation call next hinv hstep
    obtain ⟨hfed, hcounted⟩ := generateStep_counted hstep hinv.1
    exact ⟨hcounted, fun _ => hfed⟩
  exact hruns.history hcall ⟨rfl, fun hnil => absurd rfl hnil⟩

theorem generate_inStep (hzero : lm.transformer.prefixLength = 0) :
    final.fed = (final.outputIds.getD []).dropLast := by
  have hcall : ∀ (generation : Generation PeerID TokenId Token Cache) call next,
      generation.session.position = lm.servedLength generation.fed ∧
        generation.fed = (generation.outputIds.getD []).dropLast →
      lm.generateStep generation call = some next →
      next.session.position = lm.servedLength next.fed ∧
        next.fed = (next.outputIds.getD []).dropLast := by
    intro generation call next hinv hstep
    refine ⟨(generateStep_counted hstep hinv.1).2, generateStep_inStep hstep hinv.2 ?_⟩
    rw [hinv.1, servedLength, hzero, Nat.zero_add, ite_eq_right_iff]
    intro hnone
    rw [hnone, List.length_nil]
  exact (hruns.invariant hcall ⟨rfl, rfl⟩).2

/-- In every run of calls that return, the ids passed to the transformer are all the tokens but the
last one, in order and each once, if and only if the servers count no tuned prompts or there is at
most one call. -/
theorem fed_eq_dropLast_iff : final.fed = (final.outputIds.getD []).dropLast ↔
    lm.transformer.prefixLength = 0 ∨ calls.length ≤ 1 := by
  constructor
  · intro hfed
    by_contra hresumed
    obtain ⟨hprompts, hcalls⟩ := not_or.mp hresumed
    rcases List.eq_nil_or_concat' calls with rfl | ⟨before, last, rfl⟩
    · exact hcalls (Nat.zero_le 1)
    · obtain ⟨previous, hbefore, hlast⟩ := leadsTo_append.mp hruns
      obtain ⟨_, hstep, hfinal⟩ := leadsTo_cons.mp hlast
      obtain rfl := leadsTo_nil.mp hfinal
      obtain ⟨hcounted, hstarted⟩ := generate_counted hbefore
      have hprevious : previous.fed ≠ [] := by
        apply hstarted
        rintro rfl
        exact hcalls (Nat.le_refl 1)
      rw [servedLength, if_neg hprevious] at hcounted
      have hnonempty := List.length_pos_iff.mpr ((generate_counted hruns).2 (by simp))
      have hlength := congrArg List.length hfed
      rw [List.length_dropLast] at hlength
      rcases generateStep_resumed hstep hprevious hcounted with hdropped | hrefed
      · omega
      · omega
  · rintro (hzero | hone)
    · exact generate_inStep hruns hzero
    · match calls, hone with
      | [], _ =>
          obtain rfl := leadsTo_nil.mp hruns
          rfl
      | [call], _ =>
          obtain ⟨_, hstep, hfinal⟩ := leadsTo_cons.mp hruns
          obtain rfl := leadsTo_nil.mp hfinal
          exact generateStep_inStep hstep rfl rfl

end runs

/-! Three calls in one session, the last two of which only resume it. -/

private def oneBlockLM (tuningMode : Option TuningMode) : CausalLM Nat Nat (List Nat) where
  config := ⟨true, none⟩
  blocks := InferenceSession.oneBlock
  transformer :=
    { tuningMode := tuningMode
      preSeqLen := 1
      promptEmbeddings := [9]
      intermediatePromptEmbeddings := [[9]]
      wordEmbeddings := id
      wordEmbeddingsLayernorm := id
      lnF := id
      promptEmbeddings_length := fun _ => rfl }
  bosTokenId := some 1
  batchSize := 1
  nextToken := fun inputIds _ => inputIds.length

private def newTokens (inputs : Option (List Nat)) (maxNewTokens : Nat) : GenerateCall Unit Nat where
  inputs := inputs
  first := [InferenceSession.throughOneServer .served]
  later := List.replicate (maxNewTokens - 1) [InferenceSession.throughOneServer .served]

private def generateCalls : List (GenerateCall Unit Nat) :=
  [newTokens (some [5, 6]) 1, newTokens none 2, newTokens none 1]

theorem fed_eq_dropLast_untuned :
    ∃ final, LeadsTo (oneBlockLM none).generateStep (.new 32) generateCalls final ∧
      final.fed = (final.outputIds.getD []).dropLast := by
  have hsome : (generateCalls.foldlM (oneBlockLM none).generateStep (.new 32)).isSome = true := by
    decide +kernel
  obtain ⟨final, hruns⟩ := Option.isSome_iff_exists.mp hsome
  exact ⟨final, hruns, (fed_eq_dropLast_iff hruns).mpr (.inl rfl)⟩

/-- With a tuned prompt the second call feeds the text again, at each of its turns. -/
theorem fed_again_tuned :
    ∃ final, LeadsTo (oneBlockLM (some .ptune)).generateStep (.new 32) generateCalls final ∧
      final.outputIds = some [5, 6, 2, 3, 4, 5] ∧
      final.fed = [5, 6] ++ [5, 6, 2] ++ [5, 6, 2, 3] ++ [5, 6, 2, 3, 4] ∧
      final.fed ≠ (final.outputIds.getD []).dropLast := by
  have hrun : (generateCalls.foldlM (oneBlockLM (some .ptune)).generateStep (.new 32)).map
      (fun final => (final.outputIds, final.fed)) =
        some (some [5, 6, 2, 3, 4, 5], [5, 6, 5, 6, 2, 5, 6, 2, 3, 5, 6, 2, 3, 4]) := by
    decide +kernel
  obtain ⟨final, hruns, hfinal⟩ := Option.map_eq_some_iff.mp hrun
  obtain ⟨houtput, hfed⟩ := Prod.mk.inj hfinal
  refine ⟨final, hruns, houtput, hfed, ?_⟩
  rw [houtput, hfed]
  decide

end CausalLM
end Peerz.Client
