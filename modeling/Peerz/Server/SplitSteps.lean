import Peerz.Server.PooledSteps

/-! Splitting into steps is invisible: over any run of the runtime, a session's outputs are those
of its blocks applied once to the whole sequence. -/
namespace Peerz.Server
open Library

variable {Token Slot Handle SessionId : Type} {width : Nat}

structure SameSession (loop other : StepLoop Token Handle width) : Prop where
  requestedUids : other.requestedUids = loop.requestedUids
  cacheHandles : other.cacheHandles = loop.cacheHandles
  maxLength : other.maxLength = loop.maxLength
  batchSize : other.batchSize = loop.batchSize

theorem SameSession.trans {first second third : StepLoop Token Handle width}
    (h : SameSession first second) (hnext : SameSession second third) : SameSession first third where
  requestedUids := hnext.requestedUids.trans h.requestedUids
  cacheHandles := hnext.cacheHandles.trans h.cacheHandles
  maxLength := hnext.maxLength.trans h.maxLength
  batchSize := hnext.batchSize.trans h.batchSize

theorem StepLoop.receive_sameSession (server : InferenceServer Token Slot width)
    (loop : StepLoop Token Handle width) (tensors : InferenceTensors Token) :
    SameSession loop (loop.receive server tensors) := by
  unfold receive
  dsimp only
  generalize (if tensors.prompts.all List.isEmpty then loop.requestedUids.map fun _ => []
    else tensors.prompts) = prompts
  split
  · exact ⟨rfl, rfl, rfl, rfl⟩
  · split
    · exact ⟨rfl, rfl, rfl, rfl⟩
    · split
      · exact ⟨rfl, rfl, rfl, rfl⟩
      · exact ⟨rfl, rfl, rfl, rfl⟩

theorem StepLoop.resume_sameSession (loop : StepLoop Token Handle width) (lengthIncrement : Nat)
    (later : List (InferenceTask Token Handle width)) (hiddenStates : Option (List Token)) :
    SameSession loop (loop.resume lengthIncrement later hiddenStates) := by
  unfold resume
  split
  · exact ⟨rfl, rfl, rfl, rfl⟩
  · split
    · exact ⟨rfl, rfl, rfl, rfl⟩
    · exact ⟨rfl, rfl, rfl, rfl⟩

namespace InferenceRuntime

/-- Sessions that have just been opened: their cache tensors are allocated, whatever they hold,
and no two share a handle. -/
structure Fresh (runtime : InferenceRuntime Token Slot Handle SessionId width) : Prop where
  waiting : ∀ sessionId, (runtime.loops sessionId).phase = .waiting
  noPrefix : ∀ sessionId, (runtime.loops sessionId).prefixLength = 0
  nothingYielded : ∀ sessionId, (runtime.loops sessionId).yielded = []
  allocated : ∀ sessionId, ∀ handle ∈ handlesOf (runtime.loops sessionId).cacheHandles,
    (runtime.tensors handle).length = (runtime.loops sessionId).maxLength
  distinct : ∀ sessionId, (handlesOf (runtime.loops sessionId).cacheHandles).Nodup
  disjoint : ∀ left right, left ≠ right → ∀ handle ∈ handlesOf (runtime.loops left).cacheHandles,
    handle ∉ handlesOf (runtime.loops right).cacheHandles

def requestsOf [DecidableEq SessionId] (sessionId : SessionId)
    (events : List (InferenceEvent Token SessionId)) : List (InferenceTensors Token) :=
  events.filterMap fun event =>
    match event with
    | .request other tensors => if other = sessionId then some tensors else none
    | .resolve _ => none

variable [Add Token] {server : InferenceServer Token Slot width}

theorem Fresh.follows {runtime : InferenceRuntime Token Slot Handle SessionId width}
    (h : runtime.Fresh) (sessionId : SessionId) :
    (runtime.loops sessionId).Follows server runtime.tensors [] := by
  unfold StepLoop.Follows
  rw [h.waiting sessionId]
  refine ⟨fun _ hmem => absurd hmem List.not_mem_nil, (runtime.loops sessionId).opened server, ?_,
    ⟨rfl, rfl, ?_, ?_⟩⟩
  · rw [h.nothingYielded sessionId]
    rfl
  · exact (h.noPrefix sessionId).symm
  · rw [h.noPrefix sessionId]
    refine List.forall₂_iff_get.mpr ⟨?_, fun i hhandles hcaches => ?_⟩
    · simp [StepLoop.opened, ServerSession.new, StepLoop.sameCount]
    · have hempty : (((runtime.loops sessionId).opened server).caches.get ⟨i, hcaches⟩) =
          fun _ => [] := by
        simp [StepLoop.opened, ServerSession.new, AttentionBlock.toBlock]
      rw [hempty]
      constructor
      · intro j
        rfl
      · intro j
        exact List.nil_prefix
      · intro j
        exact h.allocated sessionId _
          (mem_handlesOf.mpr ⟨_, List.get_mem _ ⟨i, hhandles⟩, j, rfl⟩)

variable [DecidableEq Handle] [DecidableEq SessionId]

theorem runTask_other (batchSize : Nat) (task : InferenceTask Token Handle width)
    (hiddenStates : List Token) (tensors : Tensors Handle Slot) {handle : Handle}
    (hother : handle ∉ handlesOf (task.blocks.map fun block => block.1.cacheHandles)) :
    (runTask server batchSize task hiddenStates tensors).2 handle = tensors handle := by
  unfold runTask
  split
  · rfl
  · exact mergedInferenceStep_other _ _ _ _ _ _ hother

omit [DecidableEq Handle] in
theorem task_handles {loop : StepLoop Token Handle width} {tensors : Tensors Handle Slot}
    {requests : List (InferenceTensors Token)} {lengthIncrement : Nat} {hiddenStates : List Token}
    {task : InferenceTask Token Handle width} {later : List (InferenceTask Token Handle width)}
    (hphase : loop.phase = .running lengthIncrement hiddenStates (task :: later))
    (h : loop.Follows server tensors requests) {handle : Handle}
    (hhandle : handle ∈ handlesOf (task.blocks.map fun block => block.1.cacheHandles)) :
    handle ∈ handlesOf loop.cacheHandles := by
  unfold StepLoop.Follows at h
  rw [hphase] at h
  obtain ⟨_, _, _, _, _, blocks, -, -, -, -, -, hpending, hpartway⟩ := h
  obtain ⟨now, rest, rfl, hnow, -⟩ := hpending.split
  rw [hnow, List.map_map] at hhandle
  rw [hpartway.layout, List.map_append, handlesOf_append, handlesOf_append]
  exact List.mem_append_right _ (List.mem_append_left _ hhandle)

def AllFollow (server : InferenceServer Token Slot width)
    (start : InferenceRuntime Token Slot Handle SessionId width)
    (events : List (InferenceEvent Token SessionId))
    (runtime : InferenceRuntime Token Slot Handle SessionId width) : Prop :=
  ∀ sessionId, SameSession (start.loops sessionId) (runtime.loops sessionId) ∧
    (runtime.loops sessionId).Follows server runtime.tensors (requestsOf sessionId events)

omit [Add Token] in
theorem requestsOf_concat (sessionId : SessionId) (events : List (InferenceEvent Token SessionId))
    (event : InferenceEvent Token SessionId) :
    requestsOf sessionId (events ++ [event]) =
      requestsOf sessionId events ++ requestsOf sessionId [event] := List.filterMap_append

theorem AllFollow.step {start runtime next : InferenceRuntime Token Slot Handle SessionId width}
    (hfresh : start.Fresh) {events : List (InferenceEvent Token SessionId)}
    {event : InferenceEvent Token SessionId} (h : AllFollow server start events runtime)
    (hstep : runtime.step server event = some next) :
    AllFollow server start (events ++ [event]) next := by
  intro sessionId
  obtain ⟨hsame, hfollows⟩ := h sessionId
  rw [requestsOf_concat]
  cases event with
  | request taking tensors =>
      unfold InferenceRuntime.step at hstep
      dsimp only at hstep
      split at hstep
      · rename_i hphase
        cases hstep
        by_cases hsession : taking = sessionId
        · subst hsession
          simp only [Function.update_self, requestsOf, List.filterMap_cons, if_true,
            List.filterMap_nil]
          exact ⟨hsame.trans (StepLoop.receive_sameSession ..), hfollows.receive hphase tensors⟩
        · simp only [Function.update_of_ne (Ne.symm hsession)]
          have hnone : requestsOf sessionId [InferenceEvent.request taking tensors] = [] := by
            simp [requestsOf, hsession]
          rw [hnone, List.append_nil]
          exact ⟨hsame, hfollows⟩
      · cases hstep
      · cases hstep
  | resolve resolving =>
      have hnone : requestsOf sessionId
          [(.resolve resolving : InferenceEvent Token SessionId)] = [] := rfl
      rw [hnone, List.append_nil]
      unfold InferenceRuntime.step at hstep
      dsimp only at hstep
      split at hstep
      · rename_i lengthIncrement hiddenStates task later hphase
        cases hstep
        have hdistinct := hfresh.distinct resolving
        obtain ⟨hsameResolving, hfollowsResolving⟩ := h resolving
        rw [← hsameResolving.cacheHandles] at hdistinct
        by_cases hsession : sessionId = resolving
        · subst hsession
          simp only [Function.update_self]
          exact ⟨hsame.trans (StepLoop.resume_sameSession ..), hfollows.resolve hphase hdistinct⟩
        · simp only [Function.update_of_ne hsession]
          refine ⟨hsame, hfollows.congr fun handle hhandle => runTask_other _ _ _ _ fun hmem => ?_⟩
          have hown := task_handles hphase hfollowsResolving hmem
          rw [hsameResolving.cacheHandles] at hown
          rw [hsame.cacheHandles] at hhandle
          exact hfresh.disjoint sessionId resolving hsession handle hhandle hown
      · cases hstep
      · cases hstep
      · cases hstep

theorem allFollow_run {start final : InferenceRuntime Token Slot Handle SessionId width}
    (hfresh : start.Fresh) {events : List (InferenceEvent Token SessionId)}
    (hrun : LeadsTo (step server) start events final) : AllFollow server start events final := by
  have hstart : AllFollow server start [] start :=
    fun sessionId => ⟨⟨rfl, rfl, rfl, rfl⟩, hfresh.follows sessionId⟩
  exact hrun.history (fun _ _ _ _ hall hstep => hall.step hfresh hstep) hstart

theorem running_finishes (server : InferenceServer Token Slot width) (sessionId : SessionId)
    {tasks : List (InferenceTask Token Handle width)} (htasks : tasks ≠ [])
    {runtime : InferenceRuntime Token Slot Handle SessionId width} {lengthIncrement : Nat}
    {hiddenStates : List Token}
    (hphase : (runtime.loops sessionId).phase = .running lengthIncrement hiddenStates tasks) :
    ∃ count after, count ≤ tasks.length ∧
      LeadsTo (step server) runtime (List.replicate count (.resolve sessionId)) after ∧
      ((after.loops sessionId).phase = .waiting ∨ (after.loops sessionId).phase = .failed) := by
  induction tasks generalizing runtime hiddenStates with
  | nil => exact absurd rfl htasks
  | cons task later ih =>
      let result := runTask server (runtime.loops sessionId).batchSize task hiddenStates
        runtime.tensors
      let next : InferenceRuntime Token Slot Handle SessionId width :=
        ⟨result.2, Function.update runtime.loops sessionId
          ((runtime.loops sessionId).resume lengthIncrement later result.1)⟩
      have hstep : runtime.step server (.resolve sessionId) = some next := by
        unfold InferenceRuntime.step
        simp only [hphase]
        rfl
      have hnext : next.loops sessionId =
          (runtime.loops sessionId).resume lengthIncrement later result.1 :=
        Function.update_self ..
      have hone : LeadsTo (step server) runtime (List.replicate 1 (.resolve sessionId)) next :=
        leadsTo_cons.mpr ⟨next, hstep, leadsTo_nil.mpr rfl⟩
      cases hresult : result.1 with
      | none =>
          refine ⟨1, next, by simp, hone, .inr ?_⟩
          rw [hnext, hresult, StepLoop.resume]
      | some outputs =>
          rw [hresult, StepLoop.resume] at hnext
          split at hnext
          · exact ⟨1, next, by simp, hone, .inl (by rw [hnext])⟩
          · rename_i hmore
            obtain ⟨count, after, hcount, hrest, hended⟩ := @ih hmore next outputs (by rw [hnext])
            refine ⟨count + 1, after, Nat.succ_le_succ hcount, ?_, hended⟩
            exact leadsTo_cons.mpr ⟨next, hstep, hrest⟩

omit [DecidableEq Handle] [DecidableEq SessionId] in
theorem waiting_outputs {loop : StepLoop Token Handle width} {tensors : Tensors Handle Slot}
    {requests : List (InferenceTensors Token)} (hphase : loop.phase = .waiting)
    (h : loop.Follows server tensors requests)
    (hhypo : ∀ request ∈ requests, request.hypoIds = []) :
    loop.yielded.flatten = applyOnce requests 0
      (loop.requestedUids.map fun uid => ((server.moduleBackends uid).toBlock, fun _ => []))
      (requests.flatMap InferenceTensors.hiddenStates) := by
  unfold StepLoop.Follows at h
  rw [hphase] at h
  obtain ⟨-, session, hprocessed, -⟩ := h
  have hresumes : ∀ block ∈ (loop.opened server).backends, Resumes block.forward := by
    intro block hblock
    obtain ⟨uid, -, rfl⟩ := List.mem_map.mp hblock
    exact (server.moduleBackends uid).toBlock_resumes
  have hflatten := ServerSession.processAll_flatten hresumes
    (by simp [StepLoop.opened, ServerSession.new]) hhypo hprocessed
  have hblocks : (loop.opened server).backends.zip (loop.opened server).caches =
      loop.requestedUids.map fun uid => ((server.moduleBackends uid).toBlock, fun _ => []) := by
    simp only [StepLoop.opened, ServerSession.new, List.map_map]
    exact List.zip_map' ..
  rwa [hblocks] at hflatten

/-- The server can take the requests: their prompts fit, no step is larger than the pool allows,
and together they are within the maximal length. -/
structure Acceptable (server : InferenceServer Token Slot width)
    (loop : StepLoop Token Handle width) (requests : List (InferenceTensors Token)) : Prop where
  prompts : ∀ request ∈ requests, ServerSession.Fits loop.requestedUids.length request
  sizes : ∀ request ∈ requests, loop.Admissible server request
  within : ServerSession.totalLength requests ≤ loop.maxLength

omit [DecidableEq Handle] [DecidableEq SessionId] in
theorem opened_processAll_isSome_iff (loop : StepLoop Token Handle width)
    (requests : List (InferenceTensors Token)) :
    ((loop.opened server).processAll requests).isSome = true ↔
      (∀ request ∈ requests, ServerSession.Fits loop.requestedUids.length request) ∧
        ServerSession.totalLength requests ≤ loop.maxLength := by
  have hcaches : (loop.opened server).caches.length = (loop.opened server).backends.length := by
    simp [StepLoop.opened, ServerSession.new]
  have hcount : (loop.opened server).backends.length = loop.requestedUids.length := by
    simp [StepLoop.opened, ServerSession.new]
  rw [ServerSession.processAll_isSome_iff hcaches (Nat.zero_le _), hcount]
  change _ ∧ 0 + _ ≤ _ ↔ _
  rw [Nat.zero_add]
  rfl

omit [DecidableEq Handle] [DecidableEq SessionId] in
theorem waiting_acceptable {loop : StepLoop Token Handle width} {tensors : Tensors Handle Slot}
    {requests : List (InferenceTensors Token)} (hphase : loop.phase = .waiting)
    (h : loop.Follows server tensors requests) : Acceptable server loop requests := by
  unfold StepLoop.Follows at h
  rw [hphase] at h
  obtain ⟨hsizes, session, hprocessed, -⟩ := h
  obtain ⟨hprompts, hwithin⟩ := (opened_processAll_isSome_iff loop requests).mp
    (Option.isSome_iff_exists.mpr ⟨_, hprocessed⟩)
  exact ⟨hprompts, hsizes, hwithin⟩

omit [DecidableEq Handle] [DecidableEq SessionId] in
theorem failed_not_acceptable {loop : StepLoop Token Handle width} {tensors : Tensors Handle Slot}
    {requests : List (InferenceTensors Token)} (hphase : loop.phase = .failed)
    (h : loop.Follows server tensors requests) : ¬ Acceptable server loop requests := by
  unfold StepLoop.Follows at h
  rw [hphase] at h
  intro hacceptable
  apply h
  refine ⟨hacceptable.sizes, (opened_processAll_isSome_iff loop requests).mpr ?_⟩
  exact ⟨hacceptable.prompts, hacceptable.within⟩

omit [Add Token] [DecidableEq Handle] [DecidableEq SessionId] in
theorem Acceptable.congr {loop other : StepLoop Token Handle width}
    (hsame : SameSession loop other) (requests : List (InferenceTensors Token)) :
    Acceptable server other requests ↔ Acceptable server loop requests := by
  have hsize : ∀ request, other.Admissible server request ↔ loop.Admissible server request := by
    intro request
    rw [StepLoop.Admissible, StepLoop.Admissible, hsame.batchSize]
  constructor
  · rintro ⟨hprompts, hsizes, hwithin⟩
    rw [hsame.requestedUids] at hprompts
    rw [hsame.maxLength] at hwithin
    exact ⟨hprompts, fun request hmem => (hsize request).mp (hsizes request hmem), hwithin⟩
  · rintro ⟨hprompts, hsizes, hwithin⟩
    rw [← hsame.requestedUids] at hprompts
    rw [← hsame.maxLength] at hwithin
    exact ⟨hprompts, fun request hmem => (hsize request).mpr (hsizes request hmem), hwithin⟩

/-- However a sequence is cut into steps, and whatever other sessions do meanwhile: a session that
waits has taken all its steps and returned what the blocks applied once return, one that failed
was asked for more than the server can take, and a step underway ends. -/
theorem splitting_invisible {start final : InferenceRuntime Token Slot Handle SessionId width}
    (hfresh : start.Fresh) {events : List (InferenceEvent Token SessionId)}
    (hrun : LeadsTo (step server) start events final) (sessionId : SessionId)
    (hhypo : ∀ request ∈ requestsOf sessionId events, request.hypoIds = []) :
    match (final.loops sessionId).phase with
    | .waiting =>
        Acceptable server (start.loops sessionId) (requestsOf sessionId events) ∧
          (final.loops sessionId).yielded.flatten = applyOnce (requestsOf sessionId events) 0
            ((start.loops sessionId).requestedUids.map fun uid =>
              ((server.moduleBackends uid).toBlock, fun _ => []))
            ((requestsOf sessionId events).flatMap InferenceTensors.hiddenStates)
    | .running _ _ _ => ∃ count after,
        LeadsTo (step server) final (List.replicate count (.resolve sessionId)) after ∧
          ((after.loops sessionId).phase = .waiting ∨ (after.loops sessionId).phase = .failed)
    | .failed => ¬ Acceptable server (start.loops sessionId) (requestsOf sessionId events) := by
  obtain ⟨hsame, hfollows⟩ := allFollow_run hfresh hrun sessionId
  split
  · rename_i hphase
    refine ⟨(Acceptable.congr hsame _).mp (waiting_acceptable hphase hfollows), ?_⟩
    rw [waiting_outputs hphase hfollows hhypo, hsame.requestedUids]
  · rename_i lengthIncrement hiddenStates tasks hphase
    have htasks : tasks ≠ [] := by
      unfold StepLoop.Follows at hfollows
      rw [hphase] at hfollows
      obtain ⟨_, _, _, _, _, _, -, -, -, -, htasks, -, -⟩ := hfollows
      exact htasks
    obtain ⟨count, after, -, hleads, hended⟩ := running_finishes server sessionId htasks hphase
    exact ⟨count, after, hleads, hended⟩
  · rename_i hphase
    exact fun h => failed_not_acceptable hphase hfollows ((Acceptable.congr hsame _).mpr h)

def summingBlock : AttentionBlock Nat Nat 1 where
  forward := transduce (extendPast fun past token =>
    (token + (past (Fin.last 0)).sum, fun _ => token))
  decode past token := (token + (past (Fin.last 0)).sum, fun _ => token)
  forward_eq _ _ _ := rfl
  reorderSlot _ slot := slot
  maxChunkSizeBytes := 400
  maxShardNumHeads := 1
  dtypeBytes := 2

def summingServer (maxBatchSize : Nat) : InferenceServer Nat Nat 1 :=
  ⟨fun _ => summingBlock, .none, maxBatchSize⟩

def summingLoop (batchSize : Nat) (hbatch : 0 < batchSize) (maxLength handle : Nat) :
    StepLoop Nat Nat 1 where
  requestedUids := [⟨"block", 0⟩, ⟨"block", 1⟩]
  cacheHandles := [fun _ => handle, fun _ => handle + 1]
  sameCount := rfl
  nonempty := List.cons_ne_nil _ _
  maxLength := maxLength
  batchSize := batchSize
  positiveBatch := hbatch
  prefixLength := 0
  phase := .waiting
  yielded := []

/-- Two sessions with 100 sequences each, for which a step of two tokens is not merged. -/
def twoSessions : InferenceRuntime Nat Nat Nat Bool 1 where
  tensors _ := [7, 7, 7]
  loops sessionId := summingLoop 100 (by decide) 3 (if sessionId then 2 else 0)

theorem twoSessions_fresh : twoSessions.Fresh where
  waiting _ := rfl
  noPrefix _ := rfl
  nothingYielded _ := rfl
  allocated := by decide
  distinct := by decide
  disjoint := by decide

def twoSessionsEvents : List (InferenceEvent Nat Bool) :=
  [.request false ⟨[1, 2], [], []⟩, .resolve false, .request true ⟨[5], [], []⟩, .resolve true,
    .resolve false, .request false ⟨[], [], []⟩, .request false ⟨[3], [], []⟩, .resolve false]

theorem twoSessions_splitting :
    ∃ final, LeadsTo (step (summingServer 2048)) twoSessions twoSessionsEvents final ∧
      (final.loops false).yielded = [[1, 4], [], [10]] ∧
      [1, 4, 10] = applyOnce [⟨[1, 2], [], []⟩, ⟨[], [], []⟩, ⟨[3], [], []⟩] 0
        [(summingBlock.toBlock, fun _ => []), (summingBlock.toBlock, fun _ => [])] [1, 2, 3] := by
  have houtcome : (twoSessionsEvents.foldlM (step (summingServer 2048)) twoSessions).map (fun final =>
      ((final.loops false).phase matches .waiting, (final.loops false).yielded)) =
        some (true, [[1, 4], [], [10]]) := by decide +kernel
  obtain ⟨final, hrun, hresult⟩ := Option.map_eq_some_iff.mp houtcome
  obtain ⟨hphase, hyielded⟩ := Prod.mk.inj hresult
  refine ⟨final, hrun, hyielded, ?_⟩
  have h := splitting_invisible twoSessions_fresh hrun false (by decide)
  cases hloop : (final.loops false).phase with
  | waiting =>
      rw [hloop, hyielded] at h
      exact h.2
  | running lengthIncrement hiddenStates tasks =>
      rw [hloop] at hphase
      cases hphase
  | failed =>
      rw [hloop] at hphase
      cases hphase

/-- A step within the maximal length that the pool refuses: two tokens of 1025 sequences, where
the largest batch is 2048. -/
theorem step_too_large :
    ∃ start final : InferenceRuntime Nat Nat Nat Unit 1, start.Fresh ∧
      LeadsTo (step (summingServer 2048)) start [.request () ⟨[1, 2], [], []⟩, .resolve ()] final ∧
      ServerSession.totalLength [(⟨[1, 2], [], []⟩ : InferenceTensors Nat)] ≤
        (start.loops ()).maxLength ∧
      (final.loops ()).phase = .failed := by
  let start : InferenceRuntime Nat Nat Nat Unit 1 :=
    ⟨fun _ => [7, 7], fun _ => summingLoop 1025 (by decide) 2 0⟩
  have hfresh : start.Fresh := by
    constructor
    · exact fun _ => rfl
    · exact fun _ => rfl
    · exact fun _ => rfl
    · rintro ⟨⟩
      decide
    · rintro ⟨⟩
      decide
    · exact fun left right hne => absurd rfl hne
  have houtcome : ([InferenceEvent.request () ⟨[1, 2], [], []⟩, .resolve ()].foldlM
      (step (summingServer 2048)) start).map (fun final =>
        (final.loops ()).phase matches .failed) = some true := by decide +kernel
  obtain ⟨final, hrun, hfailed⟩ := Option.map_eq_some_iff.mp houtcome
  refine ⟨start, final, hfresh, hrun, by decide, ?_⟩
  cases hloop : (final.loops ()).phase with
  | waiting =>
      rw [hloop] at hfailed
      cases hfailed
  | running lengthIncrement hiddenStates tasks =>
      rw [hloop] at hfailed
      cases hfailed
  | failed => rfl

end InferenceRuntime
end Peerz.Server
