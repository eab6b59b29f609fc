import Peerz.Client.FaultTolerance

/-! Calls during which no push does harm: the client has turned the pushes off, or it never asks
for deep prompts or hypothesis ids. -/
namespace Peerz.Client
open Library Server

variable {PeerID Token Cache : Type}

def Plain (prompts : List (List Token)) (hypoIds : List Nat) : Prop :=
  prompts.all List.isEmpty = true ∧ hypoIds = []

theorem plain_pySlice {prompts : List (List Token)} {hypoIds : List Nat}
    (h : Plain prompts hypoIds) (start stop : Int) : Plain (pySlice prompts start stop) hypoIds := by
  refine ⟨List.all_eq_true.mpr fun prompt hmem => List.all_eq_true.mp h.1 prompt ?_, h.2⟩
  exact List.mem_of_mem_take (List.mem_of_mem_drop hmem)

section openings
variable [Add Token] {config : ClientConfig} {session : ServerInferenceSession PeerID Token Cache}
  {request : SessionRequest PeerID Token}

/-- If the client lets servers push, the request that opened the stream was plain. -/
def PlainOpening (config : ClientConfig) (session : ServerInferenceSession PeerID Token Cache) :
    Prop :=
  config.useServerToServer = true →
    ∀ opening, session.opening = some opening → Plain opening.prompts opening.hypoIds

/-- There is no such push if the client does not let servers push. -/
def PlainPush (config : ClientConfig) (push : Push PeerID Token) : Prop :=
  config.useServerToServer = true ∧ Plain push.2.tensors.prompts push.2.tensors.hypoIds

/-- The request names no further server unless the client lets servers push, and then it is plain. -/
def PlainRequest (config : ClientConfig) (request : SessionRequest PeerID Token) : Prop :=
  (config.useServerToServer = true → Plain request.tensors.prompts request.tensors.hypoIds) ∧
    (config.useServerToServer = false → request.metadata.nextServers = [])

namespace ServerInferenceSession

theorem handle_opening (session : ServerInferenceSession PeerID Token Cache)
    (request : SessionRequest PeerID Token) :
    (session.handle request).session.opening =
      some (session.opening.getD request.tensors) := by
  unfold handle
  dsimp only
  split
  · rfl
  · split
    · rfl
    · rfl

/-- What a server pushes has the tensors of the request that opened the stream. -/
theorem handle_pushes {push : Push PeerID Token}
    (hpush : push ∈ (session.handle request).pushes) :
    request.metadata.nextServers = push.1 :: push.2.metadata.nextServers ∧ ∃ outputs,
      push.2.tensors =
        { session.opening.getD request.tensors with hiddenStates := outputs } := by
  unfold handle at hpush
  dsimp only at hpush
  split at hpush
  · cases hpush
  · split at hpush
    · cases hpush
    · dsimp only at hpush
      split at hpush
      · obtain ⟨hnext, -, htensors⟩ := pushOutputs_eq_some (Option.mem_toList.mp hpush)
        exact ⟨hnext, _, htensors⟩
      · cases hpush

omit [Add Token] in
theorem plain_opening (h : PlainOpening config session) (hrequest : PlainRequest config request)
    (hpushes : config.useServerToServer = true) :
    Plain (session.opening.getD request.tensors).prompts
      (session.opening.getD request.tensors).hypoIds := by
  cases hopening : session.opening with
  | none => exact hrequest.1 hpushes
  | some opening => exact h hpushes opening hopening

theorem handle_plain (h : PlainOpening config session) (hrequest : PlainRequest config request) :
    PlainOpening config (session.handle request).session ∧
      ∀ push ∈ (session.handle request).pushes, PlainPush config push := by
  refine ⟨fun hpushes opening hopening => ?_, fun push hpush => ?_⟩
  · rw [handle_opening] at hopening
    cases hopening
    exact plain_opening h hrequest hpushes
  · obtain ⟨hnext, outputs, htensors⟩ := handle_pushes hpush
    have hpushes : config.useServerToServer = true := by
      by_contra hoff
      rw [hrequest.2 (Bool.eq_false_iff.mpr hoff)] at hnext
      cases hnext
    rw [PlainPush, htensors]
    exact ⟨hpushes, plain_opening h hrequest hpushes⟩

theorem takePush_plain (h : PlainOpening config session) {push : Push PeerID Token}
    (hpush : PlainPush config push) :
    PlainOpening config (session.takePush push).session ∧
      ∀ later ∈ (session.takePush push).pushes, PlainPush config later := by
  unfold takePush
  split
  · refine handle_plain h ⟨fun _ => hpush.2, fun hoff => ?_⟩
    cases hoff.symm.trans hpush.1
  · exact ⟨h, fun _ hnone => absurd hnone List.not_mem_nil⟩

theorem exchange_opening (session : ServerInferenceSession PeerID Token Cache)
    (request : SessionRequest PeerID Token) (outcome : RequestOutcome) :
    (session.exchange request outcome).session.opening = session.opening ∨
      (session.exchange request outcome).session.opening =
        (session.handle request).session.opening := by
  have harrives : ∀ arrives : Bool,
      (if arrives then session.handle request else { session }).session.opening =
          session.opening ∨
        (if arrives then session.handle request else { session }).session.opening =
          (session.handle request).session.opening := by
    intro arrives
    cases arrives with
    | false => exact .inl rfl
    | true => exact .inr rfl
  unfold exchange
  split
  · cases outcome with
    | served =>
        dsimp only
        split
        · exact harrives session.serving
        · exact harrives session.serving
    | failed handled streamLives => exact harrives (handled && session.serving)
  · exact .inl rfl

theorem exchange_plain (h : PlainOpening config session) (hrequest : PlainRequest config request)
    (outcome : RequestOutcome) :
    PlainOpening config (session.exchange request outcome).session ∧
      ∀ push ∈ (session.exchange request outcome).pushes, PlainPush config push := by
  obtain ⟨hhandled, hpushed⟩ := handle_plain h hrequest
  refine ⟨?_, fun push hmem => hpushed push (exchange_pushes hmem)⟩
  unfold PlainOpening at h hhandled ⊢
  rcases session.exchange_opening request outcome with hsame | hopened
  · rwa [hsame]
  · rwa [hopened]

theorem step_plain (h : PlainOpening config session) (inputs : List Token)
    {prompts : List (List Token)} {hypoIds : List Nat}
    (hplain : config.useServerToServer = true → Plain prompts hypoIds) (stepId : Nat)
    (nextServers : List (NextServer PeerID Nat)) (outcome : RequestOutcome) :
    PlainOpening config
        (session.step config inputs prompts hypoIds stepId nextServers outcome).session ∧
      ∀ push ∈ (session.step config inputs prompts hypoIds stepId nextServers outcome).pushes,
        PlainPush config push := by
  have hnone : ∀ push ∈ ([] : List (Push PeerID Token)), PlainPush config push :=
    fun _ hmem => absurd hmem List.not_mem_nil
  have hrequest : PlainRequest config
      (session.stepRequest config inputs prompts hypoIds stepId nextServers) := by
    refine ⟨hplain, fun hoff => ?_⟩
    unfold stepRequest
    dsimp only
    rw [hoff, Bool.and_false]
    rfl
  unfold step
  split
  · exact ⟨h, hnone⟩
  · dsimp only
    split
    · have hbegun : PlainOpening config { session with
          history := some (session.extendHistory inputs), stepped := true } := h
      have hexchanged := exchange_plain hbegun hrequest outcome
      split
      · exact hexchanged
      · exact hexchanged
    · exact ⟨h, hnone⟩

end ServerInferenceSession
end openings

namespace InferenceSession

/-- All that servers have been sent and push is plain, as far as they push. -/
structure PlainPushes (config : ClientConfig) (session : InferenceSession PeerID Token Cache) :
    Prop where
  openings : ∀ serverSession ∈ session.serverSessions, PlainOpening config serverSession
  pushes : ∀ push ∈ session.pushes, PlainPush config push

variable [Add Token] {config : ClientConfig} {model : BlockModel Token Cache}
  {session : InferenceSession PeerID Token Cache} {call : StepCall Token}

section updates

theorem PlainPushes.takePush (h : PlainPushes config session) (i : Nat) :
    PlainPushes config (session.takePush i) := by
  unfold InferenceSession.takePush
  split
  · exact h
  · rename_i push hpush
    have htaken := fun serverSession hmem => ServerInferenceSession.takePush_plain
      (h.openings serverSession hmem) (h.pushes push (List.mem_of_getElem? hpush))
    refine ⟨List.forall_mem_map.mpr fun serverSession hmem => (htaken serverSession hmem).1,
      fun later hlater => ?_⟩
    rcases List.mem_append.mp hlater with hold | hnew
    · exact h.pushes later (List.mem_of_mem_eraseIdx hold)
    · obtain ⟨serverSession, hmem, hpushed⟩ := List.mem_flatMap.mp hnew
      exact (htaken serverSession hmem).2 later hpushed

theorem PlainPushes.takePushes (h : PlainPushes config session) (taken : List Nat) :
    PlainPushes config (session.takePushes taken) := by
  induction taken generalizing session with
  | nil => exact h
  | cons i taken ih => exact ih (h.takePush i)

omit [Add Token] in
theorem close_opening (session : ServerInferenceSession PeerID Token Cache) (closeOk : Bool) :
    (session.close closeOk).opening = session.opening := by
  obtain ⟨closed, serving, alive, hclose⟩ := close_frame session closeOk
  rw [hclose]

omit [Add Token] in
theorem entered_opening {spans : List (RemoteSpanInfo PeerID)}
    {entered : ServerInferenceSession PeerID Token Cache}
    (hmem : entered ∈ session.enterServerSessions model spans) : entered.opening = none := by
  obtain ⟨span, -, rfl⟩ := List.mem_map.mp hmem
  rfl

omit [Add Token] in
theorem updateSequence_opening {serverIdx : Nat} {blockIdx : Int} {attempt : Attempt PeerID}
    {later : ServerInferenceSession PeerID Token Cache}
    (hmem : later ∈ (session.updateSequence model serverIdx blockIdx attempt).1.serverSessions) :
    later.opening = none ∨
      ∃ earlier ∈ session.serverSessions, later.opening = earlier.opening := by
  have hclosed : ∀ {closed}, closed ∈ session.serverSessions.modify serverIdx
      (fun failed => failed.close attempt.closeOk) →
      ∃ earlier ∈ session.serverSessions, closed.opening = earlier.opening := by
    intro closed hmem
    obtain ⟨i, hi, rfl⟩ := List.mem_iff_getElem.mp hmem
    rw [List.length_modify] at hi
    refine ⟨_, List.getElem_mem hi, ?_⟩
    rw [List.getElem_modify]
    split
    · exact close_opening _ _
    · rfl
  unfold updateSequence at hmem
  dsimp only at hmem
  split at hmem
  · exact .inr (hclosed hmem)
  · exact .inr (hclosed hmem)
  · split at hmem
    · have hopening := List.mem_map_of_mem (f := ServerInferenceSession.opening) hmem
      rw [linkSessions_map (fun _ _ => rfl)] at hopening
      obtain ⟨listed, hlisted, hsame⟩ := List.mem_map.mp hopening
      rw [← hsame]
      rcases List.mem_append.mp hlisted with hleft | hlater
      · rcases List.mem_append.mp hleft with hdone | hnew
        · exact .inr (hclosed (List.mem_of_mem_take hdone))
        · left
          split at hnew
          · exact entered_opening hnew
          · rename_i failed _
            cases hentered : InferenceSession.enterServerSessions _ model _ with
            | nil =>
                rw [hentered] at hnew
                cases hnew
            | cons first others =>
                rw [hentered] at hnew
                rcases List.mem_cons.mp hnew with rfl | hother
                · change first.opening = none
                  exact entered_opening (hentered ▸ List.mem_cons_self)
                · exact entered_opening (hentered ▸ List.mem_cons_of_mem _ hother)
      · exact .inr (hclosed (List.mem_of_mem_drop hlater))
    · exact .inr (hclosed hmem)

omit [Add Token] in
theorem updateSequence_pushes (session : InferenceSession PeerID Token Cache)
    (model : BlockModel Token Cache) (serverIdx : Nat) (blockIdx : Int) (attempt : Attempt PeerID) :
    (session.updateSequence model serverIdx blockIdx attempt).1.pushes = session.pushes := by
  unfold updateSequence
  dsimp only
  split
  · rfl
  · rfl
  · split
    · rfl
    · rfl

omit [Add Token] in
theorem PlainPushes.updateSequence (h : PlainPushes config session) (serverIdx : Nat)
    (blockIdx : Int) (attempt : Attempt PeerID) :
    PlainPushes config (session.updateSequence model serverIdx blockIdx attempt).1 := by
  refine ⟨fun later hmem hpushes opening hopening => ?_, ?_⟩
  · rcases updateSequence_opening hmem with hnone | ⟨earlier, hearlier, hsame⟩
    · cases hnone.symm.trans hopening
    · exact h.openings earlier hearlier hpushes opening (hsame.symm.trans hopening)
  · rw [updateSequence_pushes]
    exact h.pushes

end updates

section attempts
variable {loop : Loop PeerID Token Cache} {attempts : List (Attempt PeerID)}
  (hplain : config.useServerToServer = true → Plain call.prompts call.hypoIds)

theorem PlainPushes.prepare (h : PlainPushes config loop.session) (attempt : Attempt PeerID) :
    PlainPushes config (loop.prepare model attempt).1 := by
  unfold Loop.prepare
  dsimp only
  split
  · exact (h.takePushes attempt.taken).updateSequence loop.serverIdx loop.blockIdx attempt
  · exact h.takePushes attempt.taken

include hplain

theorem PlainPushes.attempted (h : PlainPushes config loop.session) (attempt : Attempt PeerID) :
    PlainPushes config (loop.attempt config model call attempt).1.session := by
  have hprepared : PlainPushes config (loop.prepare model attempt).1 := h.prepare attempt
  rcases loop.attempt_eq config model call attempt with
    ⟨-, hattempt⟩ | ⟨-, hattempt⟩ | ⟨done, current, rest, hsessions, -, hattempt⟩
  · rw [hattempt]
    exact hprepared
  · rw [hattempt]
    exact hprepared
  · have hlisted : ∀ serverSession ∈ done ++ current :: rest, PlainOpening config serverSession :=
      hsessions ▸ hprepared.openings
    obtain ⟨hopening, hpushed⟩ := ServerInferenceSession.step_plain
      (hlisted current (by simp)) loop.inputs
      (fun hpushes => plain_pySlice (hplain hpushes) current.span.start current.span.stop)
      loop.stepId ((loop.prepare model attempt).1.nextServers current) attempt.request
    have hstepped : PlainPushes config ((loop.prepare model attempt).1.stepped done rest
        (loop.request config call (loop.prepare model attempt).1 current attempt.request)) := by
      refine ⟨fun serverSession hmem => ?_, fun push hmem => ?_⟩
      · rcases List.mem_append.mp hmem with hdone | hlater
        · exact hlisted serverSession (List.mem_append_left _ hdone)
        · rcases List.mem_cons.mp hlater with rfl | hrest
          · exact hopening
          · exact hlisted serverSession (by simp [hrest])
      · exact (List.mem_append.mp hmem).elim (hprepared.pushes push) (hpushed push)
    rw [hattempt]
    dsimp only
    split
    · exact hstepped
    · exact hstepped

omit hplain in
theorem PlainPushes.takesAll {P : InferenceSession PeerID Token Cache → Push PeerID Token → Prop}
    (hP : ∀ session push, PlainPush config push → P session push)
    (h : PlainPushes config session) (taken : List Nat) : session.TakesAll P taken := by
  induction taken generalizing session with
  | nil => trivial
  | cons i taken ih =>
      exact ⟨fun push hpush => hP session push (h.pushes push (List.mem_of_getElem? hpush)),
        ih (h.takePush i)⟩

theorem PlainPushes.takes {P : InferenceSession PeerID Token Cache → Push PeerID Token → Prop}
    (hP : ∀ session push, PlainPush config push → P session push)
    (h : PlainPushes config loop.session) : loop.Takes P config model call attempts := by
  induction attempts generalizing loop with
  | nil => trivial
  | cons attempt attempts ih =>
      exact fun _ => ⟨h.takesAll hP attempt.taken, fun _ => ih (h.attempted hplain attempt)⟩

theorem PlainPushes.run_returned {outputs : List Token}
    {next : InferenceSession PeerID Token Cache} (h : PlainPushes config loop.session)
    (hrun : Loop.run config model call attempts loop = .returned outputs next) :
    PlainPushes config next := by
  induction attempts generalizing loop with
  | nil =>
      unfold Loop.run at hrun
      split at hrun
      · cases hrun
        exact ⟨h.openings, h.pushes⟩
      · cases hrun
  | cons attempt attempts ih =>
      unfold Loop.run at hrun
      split at hrun
      · cases hrun
        exact ⟨h.openings, h.pushes⟩
      · dsimp only at hrun
        split at hrun
        · exact ih (h.attempted hplain attempt) hrun
        · cases hrun

end attempts

section calls
variable {maxLength : Nat} {attempts : List (Attempt PeerID)}

omit [Add Token] in
theorem plainPushes_new (maxLength : Nat) :
    PlainPushes config (new maxLength : InferenceSession PeerID Token Cache) :=
  ⟨fun _ hmem => absurd hmem List.not_mem_nil, fun _ hmem => absurd hmem List.not_mem_nil⟩

omit [Add Token] in
theorem plain_withoutDummies (hplain : config.useServerToServer = true →
    Plain call.prompts call.hypoIds) : config.useServerToServer = true →
    Plain (withoutDummies call).prompts (withoutDummies call).hypoIds := by
  intro hpushes
  obtain ⟨hdummy, hnone⟩ := hplain hpushes
  refine ⟨?_, hnone⟩
  unfold withoutDummies
  dsimp only
  rw [if_pos hdummy]
  rfl

/-- No push disturbs a call if the client lets servers push only for calls without deep prompts
and hypothesis ids. -/
theorem PlainPushes.undisturbed (h : PlainPushes config session)
    (hplain : config.useServerToServer = true → Plain call.prompts call.hypoIds)
    (attempts : List (Attempt PeerID)) : session.Undisturbed config model (call, attempts) := by
  have hstart : PlainPushes config (Loop.start session call).session := ⟨h.openings, h.pushes⟩
  refine PlainPushes.takes (plain_withoutDummies hplain) (fun session push hpush => ?_) hstart
  intro serverSession _ _
  exact .inr ⟨hpush.2.1, .inr (hpush.2.2.trans (hplain hpush.1).2.symm)⟩

theorem PlainPushes.step_returned (h : PlainPushes config session)
    (hplain : config.useServerToServer = true → Plain call.prompts call.hypoIds)
    {outputs : List Token} {next : InferenceSession PeerID Token Cache}
    (hstep : session.step config model call attempts = .returned outputs next) :
    PlainPushes config next := by
  by_cases haccepts : session.Accepts model call
  · rw [step_eq_run haccepts] at hstep
    have hstart : PlainPushes config (Loop.start session (withoutDummies call)).session :=
      ⟨h.openings, h.pushes⟩
    exact hstart.run_returned (plain_withoutDummies hplain) hstep
  · unfold InferenceSession.step at hstep
    rw [if_neg haccepts] at hstep
    cases hstep

/-- In a run of such calls no push disturbs any of them. -/
theorem PlainPushes.everyStep (h : PlainPushes config session)
    {events : List (StepCall Token × List (Attempt PeerID))}
    (hplain : config.useServerToServer = true →
      ∀ event ∈ events, Plain event.1.prompts event.1.hypoIds) :
    EveryStep (returnedStep config model) (Undisturbed config model) session events := by
  induction events generalizing session with
  | nil => trivial
  | cons event events ih =>
      have hfirst := fun hpushes => hplain hpushes event List.mem_cons_self
      intro next hstep
      obtain ⟨outputs, hreturned⟩ := returnedStep_eq_some.mp hstep
      exact ⟨h.undisturbed hfirst event.2, ih (h.step_returned hfirst hreturned) fun hpushes other
        hmem => hplain hpushes other (List.mem_cons_of_mem _ hmem)⟩

end calls

end InferenceSession
end Peerz.Client
