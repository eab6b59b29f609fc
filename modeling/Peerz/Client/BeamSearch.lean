import Peerz.Client.FaultTolerance
import Peerz.Server.Hypotheses

/-! Beam search through a chain of servers: whatever failures the calls of a session have gone
through, each hypothesis gets what the model's blocks make of its own tokens. -/
namespace Peerz.Client
open Library Server

variable {PeerID Token Cache : Type}

def StepCall.tensors (call : StepCall Token) : InferenceTensors Token :=
  ⟨call.inputs, call.prompts, call.hypoIds⟩

variable [Add Token]

namespace InferenceSession

def returnedAll (config : ClientConfig) (model : BlockModel Token Cache) :
    InferenceSession PeerID Token Cache → List (StepCall Token × List (Attempt PeerID)) →
      Option (List (List Token) × InferenceSession PeerID Token Cache)
  | session, [] => some ([], session)
  | session, (call, attempts) :: rest =>
      match session.step config model call attempts with
      | .returned outputs next =>
          (returnedAll config model next rest).map fun done => (outputs :: done.1, done.2)
      | _ => none

section whole
variable {config : ClientConfig} {model : BlockModel Token Cache} {ideal : Ideal Token Cache}
  {strict : Prop} {maxLength : Nat} {session final : InferenceSession PeerID Token Cache}
  {call : StepCall Token} {server : ServerSession Token Cache}

theorem returnedAll_cons {attempts : List (Attempt PeerID)}
    {rest : List (StepCall Token × List (Attempt PeerID))} {outputs : List (List Token)}
    (h : session.returnedAll config model ((call, attempts) :: rest) = some (outputs, final)) :
    ∃ first next later, session.step config model call attempts = .returned first next ∧
      next.returnedAll config model rest = some (later, final) ∧ outputs = first :: later := by
  rw [returnedAll] at h
  split at h
  · rename_i first next hstep
    obtain ⟨⟨later, last⟩, hrest, hresult⟩ := Option.map_eq_some_iff.mp h
    cases hresult
    exact ⟨first, next, later, hstep, hrest, rfl⟩
  · cases h

theorem returnedAll_of_step {attempts : List (Attempt PeerID)}
    {rest : List (StepCall Token × List (Attempt PeerID))} {first : List Token}
    {later : List (List Token)} {next : InferenceSession PeerID Token Cache}
    (hstep : session.step config model call attempts = .returned first next)
    (hrest : next.returnedAll config model rest = some (later, final)) :
    session.returnedAll config model ((call, attempts) :: rest) = some (first :: later, final) := by
  rw [returnedAll]
  simp only [hstep, hrest, Option.map_some]

/-- To a server, dummy prompts are as good as none. -/
theorem process_withoutDummies (server : ServerSession Token Cache) (call : StepCall Token) :
    server.process (withoutDummies call).tensors = server.process call.tensors := by
  have hprompts : server.blockPrompts (withoutDummies call).tensors =
      server.blockPrompts call.tensors := by
    unfold ServerSession.blockPrompts StepCall.tensors withoutDummies
    dsimp only
    by_cases hdummy : call.prompts.all List.isEmpty = true
    · rw [if_pos hdummy, if_pos hdummy]
      rfl
    · rw [if_neg hdummy]
  rw [ServerSession.process_eq, ServerSession.process_eq, hprompts]
  rfl

theorem accepts_of_returned {attempts : List (Attempt PeerID)} {outputs : List Token}
    (h : session.step config model call attempts = .returned outputs final) :
    session.Accepts model call := by
  by_contra hrejects
  unfold step at h
  rw [if_neg hrejects] at h
  cases h

theorem Good.process_whole (h : Good model ideal strict session)
    (haccepts : session.Accepts model call)
    (hfollows : Follows model ideal maxLength session.position 0 model.numBlocks server)
    (hlength : session.position + call.inputs.length ≤ maxLength) :
    ∃ next, server.process call.tensors = some (ideal.outputs model call, next) ∧
      Follows model (ideal.step model call) maxLength (session.position + call.inputs.length) 0
        model.numBlocks next := by
  have hprompted : Prompted model (withoutDummies call) := (h.callAt haccepts).prompted
  obtain ⟨next, hprocess, hnext⟩ := hfollows.process hprompted (Nat.zero_le _) le_rfl hlength
  rw [withoutDummies_step] at hnext
  refine ⟨next, ?_, hnext⟩
  rw [← process_withoutDummies, ← withoutDummies_outputs]
  have hlayers : (withoutDummies call).prompts.length ≤ model.numBlocks := by
    rcases hprompted.layers with hnone | hall
    · rw [hnone]
      exact Nat.zero_le _
    · exact hall.1.le
  rw [pySlice_all hlayers] at hprocess
  exact hprocess

/-- Together, the calls that return are served as one server with all the blocks serves them. -/
theorem Good.processAll_whole {events : List (StepCall Token × List (Attempt PeerID))}
    {outputs : List (List Token)} (h : Good model ideal strict session)
    (hcontiguous : ∀ event ∈ events, ∀ attempt ∈ event.2, attempt.Contiguous model)
    (hundisturbed : EveryStep (returnedStep config model) (Undisturbed config model) session events)
    (hfollows : Follows model ideal maxLength session.position 0 model.numBlocks server)
    (hlength : session.position + (events.map fun event => event.1.inputs.length).sum ≤ maxLength)
    (hreturned : session.returnedAll config model events = some (outputs, final)) :
    ∃ next, server.processAll (events.map fun event => event.1.tensors) =
      some (outputs, next) := by
  induction events generalizing session ideal server outputs with
  | nil =>
      cases hreturned
      exact ⟨server, rfl⟩
  | cons event rest ih =>
      obtain ⟨call, attempts⟩ := event
      obtain ⟨hfirst, hrest⟩ := List.forall_mem_cons.mp hcontiguous
      obtain ⟨first, next, later, hstep, hlater, rfl⟩ := returnedAll_cons hreturned
      rw [List.map_cons, List.sum_cons] at hlength
      dsimp only at hlength
      obtain ⟨middle, hprocess, hmiddle⟩ := h.process_whole (accepts_of_returned hstep) hfollows
        (by omega)
      obtain ⟨hquiet, hundisturbed⟩ :=
        hundisturbed next (returnedStep_eq_some.mpr ⟨first, hstep⟩)
      obtain ⟨rfl, hnext⟩ := h.step_returned hfirst hquiet.fits hstep
      have hposition := step_position hstep
      rw [← hposition] at hmiddle
      obtain ⟨last, hlast⟩ := ih hnext hrest hundisturbed hmiddle (by omega) hlater
      exact ⟨last, Option.bind_eq_some_iff.mpr ⟨_, hprocess, Option.bind_eq_some_iff.mpr
        ⟨_, hlast, rfl⟩⟩⟩

theorem returnedAll_served {events : List (StepCall Token × List (Attempt PeerID))}
    {outputs : List (List Token)}
    (hcontiguous : ∀ event ∈ events, ∀ attempt ∈ event.2, attempt.Contiguous model)
    (hundisturbed : EveryStep (returnedStep config model) (Undisturbed config model)
      (new maxLength) events)
    (hreturned : (new maxLength).returnedAll config model events = some (outputs, final)) :
    ∃ server, (ServerSession.new ((List.range model.numBlocks).map model.block)
        (events.map fun event => event.1.inputs.length).sum).processAll
          (events.map fun event => event.1.tensors) = some (outputs, server) := by
  have hgood : Good model (.new model) True (new maxLength : InferenceSession PeerID Token Cache) :=
    good_new maxLength
  have hfollows : Follows model (.new model) (events.map fun event => event.1.inputs.length).sum 0 0
      model.numBlocks _ := follows_new (Nat.zero_le _) le_rfl
  rw [pySlice_range (Nat.zero_le _) le_rfl, Nat.sub_zero, ← List.range_eq_range'] at hfollows
  exact hgood.processAll_whole hcontiguous hundisturbed hfollows (by simp [new]) hreturned

theorem returnedAll_flatten {events : List (StepCall Token × List (Attempt PeerID))}
    {outputs : List (List Token)}
    (hresumes : ∀ block < model.numBlocks, Resumes (model.block block).forward)
    (hcontiguous : ∀ event ∈ events, ∀ attempt ∈ event.2, attempt.Contiguous model)
    (hundisturbed : EveryStep (returnedStep config model) (Undisturbed config model)
      (new maxLength) events)
    (hhypo : ∀ event ∈ events, event.1.hypoIds = [])
    (hreturned : (new maxLength).returnedAll config model events = some (outputs, final)) :
    outputs.flatten = applyOnce (events.map fun event => event.1.tensors) 0
      ((List.range model.numBlocks).map fun block =>
        (model.block block, (model.block block).emptyCache))
      (events.flatMap fun event => event.1.inputs) := by
  obtain ⟨server, hprocessed⟩ := returnedAll_served hcontiguous hundisturbed hreturned
  rw [ServerSession.processAll_flatten ?_ ?_ ?_ hprocessed]
  · unfold ServerSession.new
    rw [List.map_map, List.zip_map', List.flatMap_map]
    rfl
  · intro block hblock
    obtain ⟨idx, hidx, rfl⟩ := List.mem_map.mp hblock
    exact hresumes idx (List.mem_range.mp hidx)
  · simp [ServerSession.new]
  · intro request hrequest
    obtain ⟨event, hevent, rfl⟩ := List.mem_map.mp hrequest
    exact hhypo event hevent

end whole

section rows
variable {height : Nat} {RowCache : Type} {config : ClientConfig}
  {model : BlockModel (Fin height → Token) Cache} {rowModel : BlockModel Token RowCache}
  {rowCache : Fin height → Cache → RowCache} {maxLength : Nat}
  {final : InferenceSession PeerID (Fin height → Token) Cache}

omit [Add Token] in
theorem forall₂_blocks
    (hrows : ∀ block < model.numBlocks, (model.block block).Rows (rowModel.block block) rowCache) :
    List.Forall₂ (Block.Rows · · rowCache) ((List.range model.numBlocks).map model.block)
      ((List.range model.numBlocks).map rowModel.block) := by
  refine List.forall₂_map_left_iff.mpr (List.forall₂_map_right_iff.mpr ?_)
  exact List.forall₂_same.mpr fun block hmem => hrows block (List.mem_range.mp hmem)

/-- The outputs of a hypothesis and of those it comes from are, together, what the model's blocks
applied once to all its tokens return, where no server takes a push that names other ones. -/
theorem beamSearch_independent
    (hrows : ∀ block < model.numBlocks, (model.block block).Rows (rowModel.block block) rowCache)
    (hresumes : ∀ block < model.numBlocks, Resumes (rowModel.block block).forward)
    {events : List (StepCall (Fin height → Token) × List (Attempt PeerID))}
    (hcontiguous : ∀ event ∈ events, ∀ attempt ∈ event.2, attempt.Contiguous model)
    (hundisturbed : EveryStep (returnedStep config model) (Undisturbed config model)
      (new maxLength) events)
    {outputs : List (List (Fin height → Token))}
    (hreturned : (new maxLength).returnedAll config model events = some (outputs, final))
    (row : Fin height) :
    let requests := events.map fun event => event.1.tensors
    (rowOutputs requests outputs row).flatten =
      applyOnce (rowRequests requests row) 0
        ((List.range model.numBlocks).map fun block =>
          (rowModel.block block, (rowModel.block block).emptyCache))
        ((rowRequests requests row).flatMap InferenceTensors.hiddenStates) := by
  intro requests
  obtain ⟨server, hprocessed⟩ := returnedAll_served hcontiguous hundisturbed hreturned
  obtain ⟨rowServer, hrow, -⟩ := ServerSession.Row.processAll
    (fun row => ServerSession.new_row (forall₂_blocks hrows) _ row) hprocessed row
  have hflatten := ServerSession.processAll_flatten ?_ ?_ ?_ hrow
  · rw [hflatten]
    unfold ServerSession.new
    rw [List.map_map, List.zip_map']
    rfl
  · intro block hblock
    obtain ⟨idx, hidx, rfl⟩ := List.mem_map.mp hblock
    exact hresumes idx (List.mem_range.mp hidx)
  · simp [ServerSession.new]
  · intro request hrequest
    obtain ⟨_, -, _, rfl⟩ := mem_lineage _ _ hrequest
    rfl

end rows

section beams
open InferenceRuntime

private def beamModel : BlockModel (Fin 2 → Nat) (Past (Fin 2 → Nat) 1) :=
  ⟨2, fun _ => sumsOfRows.toBlock⟩

/-- The first request fails and is sent to another server; the second call drops a hypothesis. -/
private def beamCalls : List (StepCall (Fin 2 → Nat) × List (Attempt Unit)) :=
  [(⟨[fun row => row.val + 1], 2, [], []⟩,
      [.failed true true, .served, .served].map (throughTwoServers [])),
    (⟨[fun row => row.val + 10], 2, [], [0, 0]⟩,
      [.served, .served].map (throughTwoServers []))]

private theorem beamCalls_through :
    ∀ event ∈ beamCalls, ∀ attempt ∈ event.2,
      ∃ request, attempt = throughTwoServers [] request := by
  intro event hevent attempt hattempt
  simp only [beamCalls, List.mem_cons, List.not_mem_nil, or_false] at hevent
  rcases hevent with rfl | rfl
  · obtain ⟨request, -, rfl⟩ := List.mem_map.mp hattempt
    exact ⟨request, rfl⟩
  · obtain ⟨request, -, rfl⟩ := List.mem_map.mp hattempt
    exact ⟨request, rfl⟩

private theorem beamCalls_contiguous :
    ∀ event ∈ beamCalls, ∀ attempt ∈ event.2, attempt.Contiguous beamModel := by
  intro event hevent attempt hattempt
  obtain ⟨request, rfl⟩ := beamCalls_through event hevent attempt hattempt
  exact throughTwoServers_contiguous [] request rfl

private theorem beamCalls_undisturbed (session : InferenceSession Unit (Fin 2 → Nat) _) :
    EveryStep (returnedStep ⟨true, none⟩ beamModel) (Undisturbed ⟨true, none⟩ beamModel) session
      beamCalls := by
  have hquiet : ∀ (session : InferenceSession Unit (Fin 2 → Nat) _), ∀ event ∈ beamCalls,
      session.Undisturbed ⟨true, none⟩ beamModel event := by
    intro session event hevent
    refine undisturbed_of_none fun attempt hattempt => ?_
    obtain ⟨request, rfl⟩ := beamCalls_through event hevent attempt hattempt
    rfl
  exact fun next _ => ⟨hquiet session _ (by simp [beamCalls]), fun last _ =>
    ⟨hquiet next _ (by simp [beamCalls]), trivial⟩⟩

private def rowOfBeamModel : BlockModel Nat (Past Nat 1) :=
  ⟨2, fun _ => summingBlock.toBlock⟩

private theorem beamModel_rows (block : Nat) :
    (beamModel.block block).Rows (rowOfBeamModel.block block) (rowPast fun row slot => slot row) :=
  (sumsOfRows_rows ⟨"block", 0⟩).toBlock

theorem beamSearch_independent_secondDropped :
    ∃ outputs final, (new 4 : InferenceSession Unit _ _).returnedAll ⟨true, none⟩ beamModel
        beamCalls = some (outputs, final) ∧
      (rowOutputs (beamCalls.map fun event => event.1.tensors) outputs 1).flatten =
        applyOnce [⟨[1], [], []⟩, ⟨[11], [], []⟩] 0
          [(summingBlock.toBlock, fun _ => []), (summingBlock.toBlock, fun _ => [])] [1, 11] := by
  have hreturns : ((new 4 : InferenceSession Unit _ _).returnedAll ⟨true, none⟩ beamModel
      beamCalls).isSome = true := by decide +kernel
  obtain ⟨⟨outputs, final⟩, hreturned⟩ := Option.isSome_iff_exists.mp hreturns
  exact ⟨outputs, final, hreturned, beamSearch_independent
    (fun block _ => beamModel_rows block) (fun _ _ => summingBlock.toBlock_resumes)
    beamCalls_contiguous (beamCalls_undisturbed _) hreturned 1⟩

end beams
end InferenceSession
end Peerz.Client
