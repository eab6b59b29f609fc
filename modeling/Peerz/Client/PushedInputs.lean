import Peerz.Client.ExactlyOnce

/-! What a server pushes for a step, against what the client sends for the same step: the outputs
as the server serialized them, with the hypothesis ids of the session's first step. -/
namespace Peerz.Client
open Library Server

variable {PeerID SessionId StepId Token Wire : Type}

structure Grows (stream later : InferenceStream PeerID SessionId StepId Token Wire) : Prop where
  outputs : stream.read ++ stream.responses <+: later.read ++ later.responses
  read : stream.read <+: later.read
  opening : ∀ tensors, stream.opening = some tensors → later.opening = some tensors

namespace Grows

variable {stream : InferenceStream PeerID SessionId StepId Token Wire}

theorem refl (stream : InferenceStream PeerID SessionId StepId Token Wire) :
    Grows stream stream where
  outputs := List.prefix_refl _
  read := List.prefix_refl _
  opening _ h := h

theorem rpcPush (request : StepRequest PeerID SessionId StepId Token Wire) :
    Grows stream (stream.rpcPush request) := by
  unfold InferenceStream.rpcPush
  split
  · exact { refl stream with }
  · exact refl stream

theorem of_takesTurn {result : InferenceStream PeerID SessionId StepId Token Wire ×
      List (NextServer PeerID SessionId × StepRequest PeerID SessionId StepId Token Wire)}
    (h : stream.TakesTurn result) : Grows stream result.1 where
  outputs := by
    rw [h.read]
    exact (List.prefix_append_right_inj _).mpr h.responses
  read := h.read ▸ List.prefix_refl _
  opening := by
    intro tensors htensors
    obtain ⟨opening, hopening, hbefore | ⟨hnone, -⟩⟩ := h.opening
    · rw [hopening, ← hbefore, htensors]
    · rw [htensors] at hnone
      cases hnone

end Grows

section growing
variable [DecidableEq SessionId] [DecidableEq StepId]
  {pipeline : Pipeline PeerID SessionId StepId Token Wire}
  {state next : PipelineState PeerID SessionId StepId Token Wire}

omit [DecidableEq StepId] in
theorem update_grows {sessionId : SessionId}
    {stream : InferenceStream PeerID SessionId StepId Token Wire}
    (h : Grows (state.streams sessionId) stream) (other : SessionId) :
    Grows (state.streams other) (Function.update state.streams sessionId stream other) := by
  by_cases hother : other = sessionId
  · subst hother
    rw [Function.update_self]
    exact h
  · rw [Function.update_of_ne hother]
    exact .refl _

theorem step_grows {event : PipelineEvent SessionId StepId Token}
    (hstep : pipeline.step state event = some next) :
    state.steps <+: next.steps ∧
      ∀ sessionId, Grows (state.streams sessionId) (next.streams sessionId) := by
  cases event with
  | beginStep step =>
      unfold Pipeline.step at hstep
      dsimp only at hstep
      split at hstep
      · split at hstep
        · cases hstep
        · cases hstep
          exact ⟨List.prefix_append _ _, fun sessionId => .refl _⟩
      · cases hstep
  | send =>
      unfold Pipeline.step at hstep
      dsimp only at hstep
      split at hstep
      · obtain ⟨session, -, rfl⟩ := Option.map_eq_some_iff.mp hstep
        refine ⟨List.prefix_refl _, fun sessionId => update_grows ?_ sessionId⟩
        exact { Grows.refl (state.streams session.sessionId) with }
      · cases hstep
  | receive =>
      unfold Pipeline.step at hstep
      dsimp only at hstep
      split at hstep
      · obtain ⟨session, -, hstep⟩ := Option.bind_eq_some_iff.mp hstep
        split at hstep
        · cases hstep
        · rename_i response rest hresponses
          cases hstep
          refine ⟨List.prefix_refl _, fun sessionId => update_grows ?_ sessionId⟩
          refine { Grows.refl (state.streams session.sessionId) with outputs := ?_, read := ?_ }
          · refine ⟨[], ?_⟩
            rw [List.append_nil, hresponses, List.append_assoc, List.singleton_append]
          · exact List.prefix_append _ _
      · cases hstep
  | close =>
      unfold Pipeline.step at hstep
      dsimp only at hstep
      split at hstep
      · cases hstep
        exact ⟨List.prefix_refl _, fun sessionId =>
          { Grows.refl (state.streams sessionId) with }⟩
      · cases hstep
  | takeRequest sessionId =>
      obtain ⟨result, htake, rfl⟩ := Option.map_eq_some_iff.mp hstep
      exact ⟨List.prefix_refl _, fun other => update_grows
        (Grows.of_takesTurn (InferenceStream.takeRequest_takesTurn htake)) other⟩
  | takePush sessionId =>
      obtain ⟨result, htake, rfl⟩ := Option.map_eq_some_iff.mp hstep
      exact ⟨List.prefix_refl _, fun other => update_grows
        (Grows.of_takesTurn (InferenceStream.takePush_takesTurn htake)) other⟩
  | arrive index =>
      obtain ⟨push, -, rfl⟩ := Option.map_eq_some_iff.mp hstep
      exact ⟨List.prefix_refl _, fun other => update_grows (Grows.rpcPush _) other⟩
  | drop index =>
      obtain ⟨push, -, rfl⟩ := Option.map_eq_some_iff.mp hstep
      exact ⟨List.prefix_refl _, fun other => .refl _⟩

end growing
/-- The request goes to the session at the place, and its pushes from there along the chain. -/
def Addressed (pipeline : Pipeline PeerID SessionId StepId Token Wire) (sessionId : SessionId)
    (request : StepRequest PeerID SessionId StepId Token Wire) : Prop :=
  ∃ serverIdx session, pipeline.chain[serverIdx]? = some session ∧
    session.sessionId = sessionId ∧
    request.metadata.nextServers <+: pipeline.chain.drop (serverIdx + 1)

/-- The client's request for a step: the inputs of a later server are what the client makes of the
outputs of the one before it. -/
structure SentFor (pipeline : Pipeline PeerID SessionId StepId Token Wire)
    (state : PipelineState PeerID SessionId StepId Token Wire) (serverIdx : Nat)
    (session : NextServer PeerID SessionId) (stepIdx : Nat)
    (request : StepRequest PeerID SessionId StepId Token Wire) : Prop where
  step : ∃ step, state.steps[stepIdx]? = some step ∧
    request.metadata.stepId = some step.stepId ∧
    request.tensors.prompts = Pipeline.sessionPrompts step session ∧
    request.tensors.hypoIds = step.hypoIds
  inputs : ∀ earlier before, serverIdx = earlier + 1 → pipeline.chain[earlier]? = some before →
    ∃ outputs, (state.streams before.sessionId).read[stepIdx]? = some outputs ∧
      request.tensors.hiddenStates = pipeline.serialize (pipeline.deserialize outputs)

/-- What a server pushes to the next one for a step. -/
structure PushedFor (pipeline : Pipeline PeerID SessionId StepId Token Wire)
    (state : PipelineState PeerID SessionId StepId Token Wire)
    (push : NextServer PeerID SessionId × StepRequest PeerID SessionId StepId Token Wire)
    (serverIdx : Nat) (session : NextServer PeerID SessionId) (stepIdx : Nat) (outputs : Wire)
    (opening : RequestTensors Token Wire) : Prop where
  sender : pipeline.chain[serverIdx]? = some session
  receiver : pipeline.chain[serverIdx + 1]? = some push.1
  stepId : push.2.metadata.stepId.isSome = true ∧ push.2.metadata.stepId = state.stepIds[stepIdx]?
  answered : ((state.streams session.sessionId).read ++
    (state.streams session.sessionId).responses)[stepIdx]? = some outputs
  opened : (state.streams session.sessionId).opening = some opening
  tensors : push.2.tensors = { opening with hiddenStates := outputs }

structure StreamFed (pipeline : Pipeline PeerID SessionId StepId Token Wire)
    (sessionId : SessionId) (stream : InferenceStream PeerID SessionId StepId Token Wire) :
    Prop where
  waiting : ∀ request ∈ stream.requests ++ stream.sessionQueue,
    Addressed pipeline sessionId request
  unread : stream.opening = none → stream.requests = stream.sent
  opened : ∀ tensors, stream.opening = some tensors →
    stream.sent.head?.map StepRequest.tensors = some tensors

structure Fed (pipeline : Pipeline PeerID SessionId StepId Token Wire)
    (state : PipelineState PeerID SessionId StepId Token Wire) : Prop where
  streams : ∀ sessionId, StreamFed pipeline sessionId (state.streams sessionId)
  flying : ∀ push ∈ state.inFlight, Addressed pipeline push.1.sessionId push.2
  sentCount : ∀ serverIdx session, pipeline.chain[serverIdx]? = some session →
    (state.streams session.sessionId).sent.length =
      state.phase.sends state.stepIds.length serverIdx
  sent : ∀ serverIdx session, pipeline.chain[serverIdx]? = some session → ∀ stepIdx request,
    (state.streams session.sessionId).sent[stepIdx]? = some request →
      SentFor pipeline state serverIdx session stepIdx request
  inputs : ∀ step serverIdx inputs session,
    state.phase = .sending step (serverIdx + 1) inputs →
    pipeline.chain[serverIdx]? = some session →
      ∃ outputs, (state.streams session.sessionId).read.getLast? = some outputs ∧
        inputs = pipeline.deserialize outputs
  pushed : ∀ push ∈ state.pushed, ∃ serverIdx session stepIdx outputs opening,
    PushedFor pipeline state push serverIdx session stepIdx outputs opening

theorem getElem?_grows {α : Type} {before after : List α} (h : before <+: after) {index : Nat}
    {item : α} (hitem : before[index]? = some item) : after[index]? = some item := by
  obtain ⟨rest, rfl⟩ := h
  rw [List.getElem?_append_left (List.getElem?_eq_some_iff.mp hitem).1, hitem]

section monotone
variable {pipeline : Pipeline PeerID SessionId StepId Token Wire}
  {state next : PipelineState PeerID SessionId StepId Token Wire}

theorem SentFor.mono {serverIdx stepIdx : Nat} {session : NextServer PeerID SessionId}
    {request : StepRequest PeerID SessionId StepId Token Wire}
    (h : SentFor pipeline state serverIdx session stepIdx request)
    (hsteps : state.steps <+: next.steps)
    (hgrows : ∀ sessionId, Grows (state.streams sessionId) (next.streams sessionId)) :
    SentFor pipeline next serverIdx session stepIdx request where
  step := by
    obtain ⟨step, hstep, hrequest⟩ := h.step
    exact ⟨step, getElem?_grows hsteps hstep, hrequest⟩
  inputs := by
    intro earlier before hearlier hbefore
    obtain ⟨outputs, houtputs, hinputs⟩ := h.inputs earlier before hearlier hbefore
    exact ⟨outputs, getElem?_grows (hgrows before.sessionId).read houtputs, hinputs⟩

theorem PushedFor.mono
    {push : NextServer PeerID SessionId × StepRequest PeerID SessionId StepId Token Wire}
    {serverIdx stepIdx : Nat} {session : NextServer PeerID SessionId} {outputs : Wire}
    {opening : RequestTensors Token Wire}
    (h : PushedFor pipeline state push serverIdx session stepIdx outputs opening)
    (hsteps : state.steps <+: next.steps)
    (hgrows : ∀ sessionId, Grows (state.streams sessionId) (next.streams sessionId)) :
    PushedFor pipeline next push serverIdx session stepIdx outputs opening := by
  have hids : state.stepIds <+: next.stepIds := hsteps.map ClientStep.stepId
  refine { h with stepId := ?_, answered := ?_, opened := ?_ }
  · obtain ⟨stepId, hstepId⟩ := Option.isSome_iff_exists.mp h.stepId.1
    refine ⟨h.stepId.1, ?_⟩
    rw [hstepId]
    exact (getElem?_grows hids (h.stepId.2.symm.trans hstepId)).symm
  · exact getElem?_grows (hgrows session.sessionId).outputs h.answered
  · exact (hgrows session.sessionId).opening opening h.opened

end monotone

theorem StreamFed.takesTurn {pipeline : Pipeline PeerID SessionId StepId Token Wire}
    {sessionId : SessionId} {stream : InferenceStream PeerID SessionId StepId Token Wire}
    {result : InferenceStream PeerID SessionId StepId Token Wire ×
      List (NextServer PeerID SessionId × StepRequest PeerID SessionId StepId Token Wire)}
    (h : StreamFed pipeline sessionId stream) (hturn : stream.TakesTurn result) :
    StreamFed pipeline sessionId result.1 := by
  obtain ⟨opening, hopening, hbefore⟩ := hturn.opening
  constructor
  · intro request hrequest
    exact h.waiting request (hturn.waiting request hrequest)
  · intro hnone
    rw [hopening] at hnone
    cases hnone
  · intro tensors htensors
    rw [hopening] at htensors
    cases htensors
    rw [hturn.sent]
    obtain hbefore | ⟨hnone, hfirst⟩ := hbefore
    · exact h.opened opening hbefore
    · rwa [← h.unread hnone]

theorem StreamFed.rpcPush {pipeline : Pipeline PeerID SessionId StepId Token Wire}
    {sessionId : SessionId} {stream : InferenceStream PeerID SessionId StepId Token Wire}
    (h : StreamFed pipeline sessionId stream)
    {request : StepRequest PeerID SessionId StepId Token Wire}
    (haddressed : Addressed pipeline sessionId request) :
    StreamFed pipeline sessionId (stream.rpcPush request) := by
  unfold InferenceStream.rpcPush
  split
  · refine { h with waiting := ?_ }
    intro waiting hwaiting
    rw [← List.append_assoc, List.mem_append, List.mem_singleton] at hwaiting
    obtain hwaiting | rfl := hwaiting
    · exact h.waiting waiting hwaiting
    · exact haddressed
  · exact h

namespace Fed

variable [DecidableEq SessionId] [DecidableEq StepId]
  {pipeline : Pipeline PeerID SessionId StepId Token Wire}
  {state next : PipelineState PeerID SessionId StepId Token Wire}

omit [DecidableEq SessionId] [DecidableEq StepId] in
theorem push_addressed {serverIdx : Nat} {outputs : Wire} {opening : RequestTensors Token Wire}
    {metadata : StepMetadata PeerID SessionId StepId}
    {push : NextServer PeerID SessionId × StepRequest PeerID SessionId StepId Token Wire}
    (hnext : metadata.nextServers <+: pipeline.chain.drop (serverIdx + 1))
    (hpush : pushOutputs opening outputs metadata = some push) :
    pipeline.chain[serverIdx + 1]? = some push.1 ∧
      push.2.metadata.nextServers <+: pipeline.chain.drop (serverIdx + 1 + 1) := by
  obtain ⟨hservers, -, -⟩ := pushOutputs_eq_some hpush
  rw [hservers] at hnext
  obtain ⟨rest, hrest⟩ := hnext
  constructor
  · have hfirst : (pipeline.chain.drop (serverIdx + 1))[0]? = some push.1 := by
      rw [← hrest]
      rfl
    rwa [List.getElem?_drop, Nat.add_zero] at hfirst
  · refine ⟨rest, ?_⟩
    rw [← List.drop_drop, ← hrest]
    rfl

omit [DecidableEq StepId] in
theorem turned (h : Fed pipeline state) (horderly : Orderly pipeline state) {sessionId : SessionId}
    {result : InferenceStream PeerID SessionId StepId Token Wire ×
      List (NextServer PeerID SessionId × StepRequest PeerID SessionId StepId Token Wire)}
    (hturn : (state.streams sessionId).TakesTurn result)
    (hnext : Orderly pipeline (Pipeline.turned state sessionId result)) :
    Fed pipeline (Pipeline.turned state sessionId result) := by
  have hgrows : ∀ other, Grows (state.streams other)
      ((Pipeline.turned state sessionId result).streams other) :=
    fun other => update_grows (Grows.of_takesTurn hturn) other
  have hpushes : ∀ push ∈ result.2, Addressed pipeline push.1.sessionId push.2 ∧
      ∃ serverIdx session stepIdx outputs opening,
        PushedFor pipeline (Pipeline.turned state sessionId result) push serverIdx session stepIdx
          outputs opening := by
    intro push hpush
    obtain ⟨request, hrequest, opening, outputs, hopening, hpushed, hyielded, hresponses⟩ :=
      hturn.pushes push hpush
    obtain ⟨serverIdx, session, hsession, rfl, hservers⟩ :=
      (h.streams sessionId).waiting request hrequest
    obtain ⟨hreceiver, hlater⟩ := push_addressed hservers hpushed
    obtain ⟨-, hstepId, htensors⟩ := pushOutputs_eq_some hpushed
    refine ⟨⟨serverIdx + 1, push.1, hreceiver, rfl, hlater⟩, serverIdx, session,
      (state.streams session.sessionId).yielded.length, outputs, opening, ?_⟩
    have hself : (Pipeline.turned state session.sessionId result).streams session.sessionId =
        result.1 := Function.update_self ..
    have haligned := (horderly.streams session.sessionId).aligned serverIdx session hsession rfl
    have hturned := (hnext.streams session.sessionId).aligned serverIdx session hsession rfl
    rw [hself] at hturned
    constructor
    · exact hsession
    · exact hreceiver
    · have hlast : result.1.yielded[(state.streams session.sessionId).yielded.length]? =
          some request := by rw [hyielded, List.getElem?_concat_length]
      obtain ⟨stepId, hissued, hrequestId⟩ := hturned.yielded_stepId hlast
      rw [hstepId, hrequestId]
      exact ⟨rfl, hissued.symm⟩
    · have hcount := congrArg List.length haligned.answered
      rw [answers_length] at hcount
      rw [hself, hturn.read, hresponses, ← List.append_assoc, ← hcount,
        List.getElem?_concat_length]
    · rw [hself]
      exact hopening
    · exact htensors
  have hsame : ∀ other,
      ((Pipeline.turned state sessionId result).streams other).sent = (state.streams other).sent ∧
      ((Pipeline.turned state sessionId result).streams other).read =
        (state.streams other).read := by
    apply (Function.forall_update_iff state.streams (fun other stream =>
      stream.sent = (state.streams other).sent ∧ stream.read = (state.streams other).read)).mpr
    exact ⟨⟨hturn.sent, hturn.read⟩, fun other _ => ⟨rfl, rfl⟩⟩
  constructor
  · apply (Function.forall_update_iff _ (StreamFed pipeline)).mpr
    exact ⟨(h.streams sessionId).takesTurn hturn, fun other _ => h.streams other⟩
  · intro push hpush
    obtain hpush | hpush := List.mem_append.mp hpush
    · exact h.flying push hpush
    · exact (hpushes push hpush).1
  · intro serverIdx session hsession
    rw [(hsame session.sessionId).1]
    exact h.sentCount serverIdx session hsession
  · intro serverIdx session hsession stepIdx request hrequest
    rw [(hsame session.sessionId).1] at hrequest
    exact (h.sent serverIdx session hsession stepIdx request hrequest).mono
      (List.prefix_refl _) hgrows
  · intro step serverIdx inputs session hphase hsession
    rw [(hsame session.sessionId).2]
    exact h.inputs step serverIdx inputs session hphase hsession
  · intro push hpush
    obtain hpush | hpush := List.mem_append.mp hpush
    · obtain ⟨serverIdx, session, stepIdx, outputs, opening, hfor⟩ := h.pushed push hpush
      exact ⟨serverIdx, session, stepIdx, outputs, opening, hfor.mono (List.prefix_refl _) hgrows⟩
    · exact (hpushes push hpush).2

theorem beginStep (h : Fed pipeline state) {step : ClientStep StepId Token}
    (hstep : pipeline.step state (.beginStep step) = some next) : Fed pipeline next := by
  obtain ⟨hsteps, hgrows⟩ := step_grows hstep
  unfold Pipeline.step at hstep
  dsimp only at hstep
  split at hstep
  · rename_i hphase
    split at hstep
    · cases hstep
    · cases hstep
      refine { h with sentCount := ?_, sent := ?_, inputs := ?_, pushed := ?_ }
      · intro serverIdx session hsession
        have hcount := h.sentCount serverIdx session hsession
        rw [hphase] at hcount
        simpa [ClientPhase.sends, PipelineState.stepIds] using hcount
      · intro serverIdx session hsession stepIdx request hrequest
        exact (h.sent serverIdx session hsession stepIdx request hrequest).mono hsteps hgrows
      · intro other serverIdx inputs session hsending
        cases hsending
      · intro push hpush
        obtain ⟨serverIdx, session, stepIdx, outputs, opening, hfor⟩ := h.pushed push hpush
        exact ⟨serverIdx, session, stepIdx, outputs, opening, hfor.mono hsteps hgrows⟩
  · cases hstep

theorem send (h : Fed pipeline state) (horderly : Orderly pipeline state)
    (hstep : pipeline.step state .send = some next) : Fed pipeline next := by
  obtain ⟨hsteps, hgrows⟩ := step_grows hstep
  unfold Pipeline.step at hstep
  dsimp only at hstep
  split at hstep
  · rename_i step serverIdx inputs hphase
    obtain ⟨session, hsession, rfl⟩ := Option.map_eq_some_iff.mp hstep
    dsimp only at hgrows
    have hcurrent : state.phase.step? = some step := by rw [hphase]; rfl
    have hpositive := horderly.stepIds_pos hcurrent
    have hcount := h.sentCount serverIdx session hsession
    rw [hphase, ClientPhase.sends, if_neg (Nat.lt_irrefl _)] at hcount
    have hlastStep : state.steps[state.stepIds.length - 1]? = some step := by
      rw [PipelineState.stepIds, List.length_map, ← List.getLast?_eq_getElem?]
      exact horderly.current step hcurrent
    refine { h with streams := ?_, sentCount := ?_, sent := ?_, inputs := ?_, pushed := ?_ }
    · apply (Function.forall_update_iff state.streams (StreamFed pipeline)).mpr
      refine ⟨?_, fun other _ => h.streams other⟩
      have hstream := h.streams session.sessionId
      constructor
      · intro request hrequest
        simp only [List.append_assoc, List.mem_append, List.mem_singleton] at hrequest
        obtain hrequest | rfl | hrequest := hrequest
        · exact hstream.waiting request (List.mem_append_left _ hrequest)
        · refine ⟨serverIdx, session, hsession, rfl, ?_⟩
          dsimp only [Pipeline.request]
          split
          · exact List.takeWhile_prefix _
          · exact List.nil_prefix
        · exact hstream.waiting request (List.mem_append_right _ hrequest)
      · intro hnone
        rw [hstream.unread hnone]
      · intro tensors htensors
        obtain ⟨first, hfirst, heq⟩ := Option.map_eq_some_iff.mp (hstream.opened tensors htensors)
        rw [List.head?_append, hfirst]
        exact congrArg some heq
    · intro other otherSession hother
      have hcountOther := h.sentCount other otherSession hother
      rw [hphase, ClientPhase.sends] at hcountOther
      change (Function.update state.streams session.sessionId _ otherSession.sessionId).sent.length =
        if other ≤ serverIdx then state.stepIds.length else state.stepIds.length - 1
      by_cases hsame : otherSession.sessionId = session.sessionId
      · obtain rfl := Orderly.index_unique pipeline hother hsession hsame
        rw [hsame, Function.update_self, List.length_append, List.length_singleton, hcount,
          if_pos (Nat.le_refl _), Nat.sub_add_cancel hpositive]
      · have hindex : other ≠ serverIdx := by
          rintro rfl
          rw [hother] at hsession
          cases hsession
          exact hsame rfl
        have hbefore : (other ≤ serverIdx) = (other < serverIdx) := by
          apply propext
          omega
        rw [Function.update_of_ne hsame, hcountOther]
        simp only [hbefore]
    · intro other otherSession hother stepIdx request hrequest
      change (Function.update state.streams session.sessionId _
        otherSession.sessionId).sent[stepIdx]? = some request at hrequest
      by_cases hsame : otherSession.sessionId = session.sessionId
      · obtain rfl := Orderly.index_unique pipeline hother hsession hsame
        rw [hother] at hsession
        cases hsession
        rw [Function.update_self] at hrequest
        by_cases hearly : stepIdx < (state.streams session.sessionId).sent.length
        · rw [List.getElem?_append_left hearly] at hrequest
          exact (h.sent other session hother stepIdx request hrequest).mono hsteps hgrows
        · have hindex := (List.getElem?_eq_some_iff.mp hrequest).1
          rw [List.length_append, List.length_singleton] at hindex
          obtain rfl : stepIdx = (state.streams session.sessionId).sent.length := by omega
          rw [List.getElem?_concat_length] at hrequest
          cases hrequest
          rw [hcount]
          constructor
          · exact ⟨step, hlastStep, rfl, rfl, rfl⟩
          · intro earlier before hearlier hbefore
            subst hearlier
            obtain ⟨outputs, houtputs, hinputs⟩ :=
              h.inputs step earlier inputs before hphase hbefore
            have haligned := (horderly.streams before.sessionId).aligned earlier before hbefore rfl
            have hreads := haligned.readCount
            rw [hphase, ClientPhase.reads, if_pos (Nat.lt_succ_self _)] at hreads
            rw [List.getLast?_eq_getElem?, hreads] at houtputs
            exact ⟨outputs, getElem?_grows (hgrows before.sessionId).read houtputs,
              congrArg pipeline.serialize hinputs⟩
      · rw [Function.update_of_ne hsame] at hrequest
        exact (h.sent other otherSession hother stepIdx request hrequest).mono hsteps hgrows
    · intro other otherIdx otherInputs otherSession hsending
      cases hsending
    · intro push hpush
      obtain ⟨pushIdx, sender, stepIdx, outputs, opening, hfor⟩ := h.pushed push hpush
      exact ⟨pushIdx, sender, stepIdx, outputs, opening, hfor.mono hsteps hgrows⟩
  · cases hstep

theorem receive (h : Fed pipeline state) (hstep : pipeline.step state .receive = some next) :
    Fed pipeline next := by
  obtain ⟨hsteps, hgrows⟩ := step_grows hstep
  unfold Pipeline.step at hstep
  dsimp only at hstep
  split at hstep
  · rename_i step serverIdx hphase
    obtain ⟨session, hsession, hstep⟩ := Option.bind_eq_some_iff.mp hstep
    split at hstep
    · cases hstep
    · rename_i response rest hresponses
      cases hstep
      dsimp only at hgrows
      have hsame : ∀ other, (Function.update state.streams session.sessionId
          { state.streams session.sessionId with
            responses := rest
            read := (state.streams session.sessionId).read ++ [response] } other).sent =
              (state.streams other).sent := by
        apply (Function.forall_update_iff state.streams (fun other stream =>
          stream.sent = (state.streams other).sent)).mpr
        exact ⟨rfl, fun other _ => rfl⟩
      refine { h with streams := ?_, sentCount := ?_, sent := ?_, inputs := ?_, pushed := ?_ }
      · apply (Function.forall_update_iff state.streams (StreamFed pipeline)).mpr
        exact ⟨{ h.streams session.sessionId with }, fun other _ => h.streams other⟩
      · intro other otherSession hother
        have hbound := (List.getElem?_eq_some_iff.mp hother).1
        have hcountOther := h.sentCount other otherSession hother
        rw [hphase, ClientPhase.sends] at hcountOther
        rw [(hsame otherSession.sessionId), hcountOther]
        dsimp only
        split
        · rename_i hle
          split
          · rw [ClientPhase.sends, if_pos (Nat.lt_succ_of_le hle)]
            rfl
          · rfl
        · rename_i hlate
          rw [if_pos (by omega), ClientPhase.sends, if_neg (by omega)]
          rfl
      · intro other otherSession hother stepIdx request hrequest
        rw [hsame] at hrequest
        exact (h.sent other otherSession hother stepIdx request hrequest).mono hsteps hgrows
      · intro other otherIdx inputs otherSession hsending hother
        dsimp only at hsending
        split at hsending
        · cases hsending
          rw [hsession] at hother
          cases hother
          refine ⟨response, ?_, rfl⟩
          change (Function.update state.streams session.sessionId _
            session.sessionId).read.getLast? = some response
          rw [Function.update_self]
          exact List.getLast?_concat
        · cases hsending
      · intro push hpush
        obtain ⟨pushIdx, sender, stepIdx, outputs, opening, hfor⟩ := h.pushed push hpush
        exact ⟨pushIdx, sender, stepIdx, outputs, opening, hfor.mono hsteps hgrows⟩
  · cases hstep

theorem close (h : Fed pipeline state) (hstep : pipeline.step state .close = some next) :
    Fed pipeline next := by
  obtain ⟨hsteps, hgrows⟩ := step_grows hstep
  unfold Pipeline.step at hstep
  dsimp only at hstep
  split at hstep
  · rename_i hphase
    cases hstep
    refine { h with streams := ?_, sentCount := ?_, sent := ?_, inputs := ?_, pushed := ?_ }
    · exact fun sessionId => { h.streams sessionId with }
    · intro serverIdx session hsession
      have hcount := h.sentCount serverIdx session hsession
      rw [hphase] at hcount
      exact hcount
    · intro serverIdx session hsession stepIdx request hrequest
      exact (h.sent serverIdx session hsession stepIdx request hrequest).mono hsteps hgrows
    · intro step serverIdx inputs session hsending
      cases hsending
    · intro push hpush
      obtain ⟨serverIdx, session, stepIdx, outputs, opening, hfor⟩ := h.pushed push hpush
      exact ⟨serverIdx, session, stepIdx, outputs, opening, hfor.mono hsteps hgrows⟩
  · cases hstep

theorem arrive (h : Fed pipeline state) {index : Nat}
    (hstep : pipeline.step state (.arrive index) = some next) : Fed pipeline next := by
  obtain ⟨hsteps, hgrows⟩ := step_grows hstep
  obtain ⟨push, hpush, rfl⟩ := Option.map_eq_some_iff.mp hstep
  have haddressed := h.flying push (List.mem_of_getElem? hpush)
  dsimp only at hgrows
  have hsame : ∀ other, (Function.update state.streams push.1.sessionId
      ((state.streams push.1.sessionId).rpcPush push.2) other).sent =
        (state.streams other).sent ∧
      (Function.update state.streams push.1.sessionId
      ((state.streams push.1.sessionId).rpcPush push.2) other).read =
        (state.streams other).read := by
    apply (Function.forall_update_iff state.streams (fun other stream =>
      stream.sent = (state.streams other).sent ∧ stream.read = (state.streams other).read)).mpr
    refine ⟨?_, fun other _ => ⟨rfl, rfl⟩⟩
    unfold InferenceStream.rpcPush
    split
    · exact ⟨rfl, rfl⟩
    · exact ⟨rfl, rfl⟩
  constructor
  · apply (Function.forall_update_iff state.streams (StreamFed pipeline)).mpr
    exact ⟨(h.streams push.1.sessionId).rpcPush haddressed, fun other _ => h.streams other⟩
  · intro other hother
    exact h.flying other (List.mem_of_mem_eraseIdx hother)
  · intro serverIdx session hsession
    rw [(hsame session.sessionId).1]
    exact h.sentCount serverIdx session hsession
  · intro serverIdx session hsession stepIdx request hrequest
    rw [(hsame session.sessionId).1] at hrequest
    exact (h.sent serverIdx session hsession stepIdx request hrequest).mono hsteps hgrows
  · intro step serverIdx inputs session hphase hsession
    rw [(hsame session.sessionId).2]
    exact h.inputs step serverIdx inputs session hphase hsession
  · intro other hother
    obtain ⟨serverIdx, session, stepIdx, outputs, opening, hfor⟩ := h.pushed other hother
    exact ⟨serverIdx, session, stepIdx, outputs, opening, hfor.mono hsteps hgrows⟩

theorem step (h : Fed pipeline state) (horderly : Orderly pipeline state)
    {event : PipelineEvent SessionId StepId Token}
    (hstep : pipeline.step state event = some next) : Fed pipeline next := by
  have hnext := horderly.step hstep
  cases event with
  | beginStep step => exact h.beginStep hstep
  | send => exact h.send horderly hstep
  | receive => exact h.receive hstep
  | close => exact h.close hstep
  | takeRequest sessionId =>
      obtain ⟨result, htake, rfl⟩ := Option.map_eq_some_iff.mp hstep
      exact h.turned horderly (InferenceStream.takeRequest_takesTurn htake) hnext
  | takePush sessionId =>
      obtain ⟨result, htake, rfl⟩ := Option.map_eq_some_iff.mp hstep
      exact h.turned horderly (InferenceStream.takePush_takesTurn htake) hnext
  | arrive index => exact h.arrive hstep
  | drop index =>
      obtain ⟨push, -, rfl⟩ := Option.map_eq_some_iff.mp hstep
      have hgrows := fun sessionId => Grows.refl (state.streams sessionId)
      refine { h with flying := ?_, sent := ?_, pushed := ?_ }
      · intro other hother
        exact h.flying other (List.mem_of_mem_eraseIdx hother)
      · intro serverIdx session hsession stepIdx request hrequest
        exact (h.sent serverIdx session hsession stepIdx request hrequest).mono
          (List.prefix_refl _) hgrows
      · intro other hother
        obtain ⟨serverIdx, session, stepIdx, outputs, opening, hfor⟩ := h.pushed other hother
        exact ⟨serverIdx, session, stepIdx, outputs, opening,
          hfor.mono (List.prefix_refl _) hgrows⟩

omit [DecidableEq SessionId] [DecidableEq StepId] in
theorem start (pipeline : Pipeline PeerID SessionId StepId Token Wire) : Fed pipeline {} := by
  constructor
  · intro sessionId
    constructor
    · exact fun _ hmem => absurd hmem List.not_mem_nil
    · exact fun _ => rfl
    · intro tensors htensors
      cases htensors
  · exact fun _ hmem => absurd hmem List.not_mem_nil
  · exact fun _ _ _ => rfl
  · intro serverIdx session hsession stepIdx request hrequest
    cases hrequest
  · intro step serverIdx inputs session hphase
    cases hphase
  · exact fun _ hmem => absurd hmem List.not_mem_nil

theorem run {final : PipelineState PeerID SessionId StepId Token Wire}
    {events : List (PipelineEvent SessionId StepId Token)}
    (hrun : LeadsTo pipeline.step {} events final) :
    Orderly pipeline final ∧ Fed pipeline final := by
  have hstart : Orderly pipeline {} ∧ Fed pipeline {} := ⟨.start pipeline, start pipeline⟩
  apply hrun.invariant _ hstart
  intro state event next h hstep
  exact ⟨h.1.step hstep, h.2.step h.1 hstep⟩

end Fed

/-- Over any run without deep prompts, what a server receives by a push is what the client sends it
for the same step exactly when the step has the hypothesis ids of the session's first step, and the
client's serialization of the outputs that it has deserialized changes nothing. -/
theorem pushed_agrees_iff [DecidableEq SessionId] [DecidableEq StepId]
    {pipeline : Pipeline PeerID SessionId StepId Token Wire}
    {final : PipelineState PeerID SessionId StepId Token Wire}
    {events : List (PipelineEvent SessionId StepId Token)}
    (hrun : LeadsTo pipeline.step {} events final)
    (hprompts : ∀ step ∈ final.steps, step.prompts.all List.isEmpty = true)
    {push : NextServer PeerID SessionId × StepRequest PeerID SessionId StepId Token Wire}
    (hpush : push ∈ final.pushed) {request : StepRequest PeerID SessionId StepId Token Wire}
    (hsent : request ∈ (final.streams push.1.sessionId).sent)
    (hsame : request.metadata.stepId = push.2.metadata.stepId) :
    ∃ first step, final.steps.head? = some first ∧ step ∈ final.steps ∧
      push.2.metadata.stepId = some step.stepId ∧
      (pipeline.received push.2.tensors = pipeline.received request.tensors ↔
        step.hypoIds = first.hypoIds ∧
        pipeline.deserialize (pipeline.serialize
          (pipeline.deserialize push.2.tensors.hiddenStates)) =
            pipeline.deserialize push.2.tensors.hiddenStates) := by
  obtain ⟨horderly, hfed⟩ := Fed.run hrun
  obtain ⟨serverIdx, session, stepIdx, outputs, opening, hfor⟩ := hfed.pushed push hpush
  obtain ⟨sentIdx, hsentIdx⟩ := List.mem_iff_getElem?.mp hsent
  have hrequest := hfed.sent (serverIdx + 1) push.1 hfor.receiver sentIdx request hsentIdx
  obtain ⟨step, hstep, hrequestId, hrequestPrompts, hrequestHypo⟩ := hrequest.step
  -- the request and the push are those of the same step
  have hindex : sentIdx = stepIdx := by
    have hids : final.stepIds[sentIdx]? = some step.stepId := by
      rw [PipelineState.stepIds, List.getElem?_map, hstep]
      rfl
    apply (List.getElem?_inj (List.getElem?_eq_some_iff.mp hids).1 horderly.unique).mp
    rw [← hfor.stepId.2, ← hsame, hrequestId, hids]
  subst hindex
  obtain ⟨read, hread, hinputs⟩ := hrequest.inputs serverIdx session rfl hfor.sender
  obtain rfl : read = outputs := by
    have hanswered := hfor.answered
    rw [List.getElem?_append_left (List.getElem?_eq_some_iff.mp hread).1, hread] at hanswered
    exact Option.some.inj hanswered
  -- the tensors of the push are those of the first request to its sender
  obtain ⟨firstRequest, hfirstRequest, hopening⟩ := Option.map_eq_some_iff.mp
    ((hfed.streams session.sessionId).opened opening hfor.opened)
  rw [List.head?_eq_getElem?] at hfirstRequest
  obtain ⟨first, hfirst, -, hfirstPrompts, hfirstHypo⟩ :=
    (hfed.sent serverIdx session hfor.sender 0 firstRequest hfirstRequest).step
  rw [hopening] at hfirstPrompts hfirstHypo
  have hnoPrompts := hprompts step (List.mem_of_getElem? hstep)
  have hfirstNoPrompts := hprompts first (List.mem_of_getElem? hfirst)
  rw [Pipeline.sessionPrompts, if_pos hnoPrompts] at hrequestPrompts
  rw [Pipeline.sessionPrompts, if_pos hfirstNoPrompts] at hfirstPrompts
  refine ⟨first, step, ?_, List.mem_of_getElem? hstep, hsame.symm.trans hrequestId, ?_⟩
  · rw [List.head?_eq_getElem?, hfirst]
  · simp only [Pipeline.received, hfor.tensors, hfirstPrompts, hfirstHypo, hrequestPrompts,
      hrequestHypo, hinputs, InferenceTensors.mk.injEq, true_and]
    constructor
    · rintro ⟨hhidden, hhypo⟩
      exact ⟨hhypo.symm, hhidden.symm⟩
    · rintro ⟨hhypo, hhidden⟩
      exact ⟨hhidden.symm, hhypo.symm⟩

theorem pushed_agrees_pushFirst :
    ∃ push ∈ (afterEvents pushFirst).pushed,
      ∃ request ∈ ((afterEvents pushFirst).streams push.1.sessionId).sent,
        twoServers.received push.2.tensors = twoServers.received request.tensors := by
  have hrun := @leadsTo_afterEvents pushFirst (by decide +kernel)
  have hpush : (⟨(), 2, 1, 2⟩, ⟨⟨[7], [], []⟩, ⟨2, some 11, [], true⟩⟩) ∈
      (afterEvents pushFirst).pushed := by decide +kernel
  have hsent : ⟨⟨[7], [], []⟩, ⟨2, some 11, [], false⟩⟩ ∈
      ((afterEvents pushFirst).streams 2).sent := by decide +kernel
  obtain ⟨first, step, hfirst, hstep, hstepId, hagrees⟩ :=
    pushed_agrees_iff hrun (by decide +kernel) hpush hsent rfl
  refine ⟨_, hpush, _, hsent, hagrees.mpr ⟨?_, rfl⟩⟩
  have hhypo : ∀ step ∈ (afterEvents pushFirst).steps, step.hypoIds = [] := by decide +kernel
  rw [hhypo step hstep, hhypo first (List.mem_of_mem_head? hfirst)]

def reordered : List (PipelineEvent Nat Nat Nat) :=
  [.beginStep ⟨10, [5, 6], [], []⟩, .send, .takeRequest 1, .receive, .send, .takeRequest 2,
    .receive, .beginStep ⟨11, [7], [], [1, 0]⟩, .send, .takeRequest 1, .receive, .send]

/-- The second server receives the second step by a push without its hypothesis ids, and from the
client with them. -/
theorem pushed_stale_hypoIds :
    LeadsTo twoServers.step {} reordered (afterEvents reordered) ∧
    (⟨(), 2, 1, 2⟩, ⟨⟨[7], [], []⟩, ⟨2, some 11, [], true⟩⟩) ∈ (afterEvents reordered).pushed ∧
    ⟨⟨[7], [], [1, 0]⟩, ⟨2, some 11, [], false⟩⟩ ∈ ((afterEvents reordered).streams 2).sent ∧
    twoServers.received ⟨[7], [], []⟩ ≠ twoServers.received ⟨[7], [], [1, 0]⟩ :=
  ⟨leadsTo_afterEvents (by decide +kernel), by decide +kernel, by decide +kernel,
    by decide +kernel⟩

end Peerz.Client
