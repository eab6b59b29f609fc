import Peerz.Client.FaultTolerance
import Peerz.Client.QuietAttempts

/-! What calls that raise leave behind in a session, over runs of calls some of which raise. -/
namespace Peerz.Client.InferenceSession
open Library Server

variable {PeerID Token Cache : Type} [Add Token] {config : ClientConfig}
  {model : BlockModel Token Cache} {ideal : Ideal Token Cache} {call : StepCall Token}
  {attempts : List (Attempt PeerID)}

structure CallLog (PeerID Token Cache : Type) where
  session : InferenceSession PeerID Token Cache
  returned : List (StepCall Token × List Token)

namespace CallLog

def calls (log : CallLog PeerID Token Cache) : List (StepCall Token) := log.returned.map Prod.fst

def new (maxLength : Nat) : CallLog PeerID Token Cache := ⟨.new maxLength, []⟩

def step (config : ClientConfig) (model : BlockModel Token Cache) (log : CallLog PeerID Token Cache)
    (event : StepCall Token × List (Attempt PeerID)) : Option (CallLog PeerID Token Cache) :=
  match log.session.step config model event.1 event.2 with
  | .returned outputs next => some ⟨next, log.returned ++ [(event.1, outputs)]⟩
  | .raised next => some ⟨next, log.returned⟩
  | .pending => none

/-- What has returned, and what the server sessions have counted, is that of a session with no
other calls than those that returned. -/
structure Traceless (model : BlockModel Token Cache) (log : CallLog PeerID Token Cache) : Prop where
  answered : ∀ before call outputs later, log.returned = before ++ (call, outputs) :: later →
    outputs = (Ideal.after model (before.map Prod.fst)).outputs model call
  counted : ∀ serverSession ∈ log.session.serverSessions,
    serverSession.Clean (Ideal.after model log.calls)
      (log.calls.map fun call => call.inputs.length).sum

end CallLog

/-- The call comes to no open server session: none is listed or the first one is closed, and the
attempts that would open one are blocked. -/
def Unreached (config : ClientConfig) (model : BlockModel Token Cache)
    (session : InferenceSession PeerID Token Cache) (attempts : List (Attempt PeerID)) : Prop :=
  (∀ current ∈ session.serverSessions.head?, current.closed = true) ∧
    ∀ i attempt, attempts[i]? = some attempt →
      (∀ limit, config.maxRetries = some (limit + 1) → i ≤ limit) →
      session.serverSessions = [] ∨ 1 ≤ i →
      attempt.Blocked 0 (updateEnd session.serverSessions model)

def Refused (session : InferenceSession PeerID Token Cache) (call : StepCall Token) : Prop :=
  ∃ current rest, session.serverSessions = current :: rest ∧ Refuses call.inputs current

/-- A call with tokens is rejected by the checks, comes to no server session or to none that
takes it, or it returns: then no server session has been replaced or closed since the first step,
and the servers take no pushes of another step that bring tokens. -/
def Harmless (config : ClientConfig) (model : BlockModel Token Cache)
    (log : CallLog PeerID Token Cache) (event : StepCall Token × List (Attempt PeerID)) : Prop :=
  event.1.inputs ≠ [] → log.session.Accepts model event.1 →
    Unreached config model log.session event.2 ∨ Refused log.session event.1 ∨
      log.session.Intact ∧
        (∀ raised, log.session.step config model event.1 event.2 ≠ .raised raised) ∧
        log.session.CallTakes (fun session push => session.Fits False event.1 push) config model
          event.1 event.2

section sessions
variable {session : InferenceSession PeerID Token Cache}

omit [Add Token] in
theorem clean_new (maxLength : Nat) :
    (new maxLength : InferenceSession PeerID Token Cache).Clean model (.new model) :=
  have hgood : Good model (.new model) False
      (new maxLength : InferenceSession PeerID Token Cache) := good_new maxLength
  ⟨hgood.entered, hgood.chained, fun _ hmem => absurd hmem List.not_mem_nil, fun _ => hgood⟩

omit [Add Token] in
theorem Good.started {strict : Prop} (h : Good model ideal strict session)
    (call : StepCall Token) : Good model ideal strict (Loop.start session call).session := by
  have hgrows : session.Grows (Loop.start session call).session :=
    ⟨le_rfl, fun later hmem => .inr ⟨later, hmem, rfl, rfl, fun _ hold => hold⟩⟩
  refine ⟨h.entered, h.zero, h.chained.congr rfl rfl, h.chain, h.sessions,
    fun serverSession hmem id hid => Nat.lt_succ_of_lt (h.processed serverSession hmem id hid),
    fun push hmem => ?_⟩
  obtain ⟨haddressed, id, hlt, hid, hstale⟩ := h.pushes push hmem
  exact ⟨haddressed.grows hgrows, id, Nat.lt_succ_of_lt hlt, hid,
    hstale.grows haddressed.server hgrows⟩

omit [Add Token] in
theorem Clean.resting (h : session.Clean model ideal) (haccepts : session.Accepts model call) :
    Resting model ideal (Loop.start session (withoutDummies call)) := by
  refine ⟨⟨h.entered, h.chained.congr rfl rfl, h.sessions, fun hintact => ?_⟩, rfl, ?_, fun _ => ?_⟩
  · exact (h.good hintact).started _
  · exact le_trans (Nat.le_add_right _ _) haccepts.2.2.2
  · exact h.chained.located_zero

omit [Add Token] in
theorem Clean.good_of_done (h : session.Clean model ideal) (hdone : (model.numBlocks : Int) ≤ 0) :
    Good model ideal False session := by
  have hnil : session.serverSessions = [] := by
    refine h.chained.spans.elim (fun hnil => hnil) fun hrow => ?_
    rw [show (model.numBlocks : Int) = 0 by omega] at hrow
    exact List.map_eq_nil_iff.mp ((hrow.tiles trivial).eq_nil_iff.mpr rfl)
  refine h.good fun serverSession hmem => ?_
  rw [hnil] at hmem
  cases hmem

structure Quiet (model : BlockModel Token Cache) (ideal : Ideal Token Cache) (call : StepCall Token)
    (result : StepResult PeerID Token Cache) : Prop where
  raised : ∀ raised, result = .raised raised → raised.Clean model ideal
  returned : ∀ outputs next, result = .returned outputs next →
    outputs = ideal.outputs model call ∧ next.Clean model (ideal.step model call)

omit [Add Token] in
theorem Good.clean (h : Good model ideal False session) : session.Clean model ideal := by
  refine ⟨h.entered, h.chained, fun serverSession hmem => ?_, fun _ => h⟩
  have hgood := h.sessions serverSession hmem
  refine ⟨.inl ⟨hgood.counted.counted, hgood.history⟩, fun hnew => ?_⟩
  by_contra hne
  have hpositive : 0 < session.position :=
    Nat.pos_of_ne_zero (hgood.counted.counted ▸ hne)
  exact absurd (hgood.counted.stepped hpositive) (by simp [hnew])

variable (h : session.Clean model ideal)
  (hcontiguous : ∀ attempt ∈ attempts, attempt.Contiguous model)
include h hcontiguous

theorem Clean.step_returned
    (htakes : session.CallTakes (fun session push => session.Fits False call push) config model call
      attempts) (hintact : session.Intact) {outputs : List Token}
    {next : InferenceSession PeerID Token Cache}
    (hstep : session.step config model call attempts = .returned outputs next) :
    outputs = ideal.outputs model call ∧ next.Clean model (ideal.step model call) := by
  obtain ⟨houtputs, hnext⟩ := (h.good hintact).step_returned hcontiguous htakes hstep
  exact ⟨houtputs, hnext.clean⟩

theorem Clean.step_empty (haccepts : session.Accepts model call) (hempty : call.inputs = []) :
    Quiet model ideal call (session.step config model call attempts) := by
  have hprompted : Prompted model (withoutDummies call) := by
    obtain ⟨hrows, hprompts, -⟩ := haccepts
    have hdummy : call.prompts.all List.isEmpty = true := by
      refine hprompts.elim (fun hall => hall) fun hfits => ?_
      refine List.all_eq_true.mpr fun prompt hmem => List.isEmpty_iff.mpr ?_
      have hlength := hrows prompt hmem
      rw [hempty, List.length_nil] at hfits
      exact List.length_eq_zero_iff.mp (by omega)
    have hnone : (withoutDummies call).prompts = [] := if_pos hdummy
    exact ⟨.inl hnone, fun block => by simp [hnone]⟩
  obtain ⟨hraised, hreturned⟩ := (h.resting haccepts).run_empty hprompted hempty config hempty
    hcontiguous
  rw [step_eq_run haccepts]
  refine ⟨hraised, fun outputs next hreturns => ?_⟩
  obtain ⟨rfl, hnext⟩ := hreturned outputs next hreturns
  rw [Ideal.step_eq_self hempty]
  exact ⟨(Ideal.hidden_eq_nil hempty _).symm, hnext⟩

theorem Clean.step_unreached (haccepts : session.Accepts model call)
    (hmore : (0 : Int) < model.numBlocks) (hunreached : Unreached config model session attempts) :
    Quiet model ideal call (session.step config model call attempts) := by
  have hstart : Unreaching config model (Loop.start session (withoutDummies call)) attempts :=
    ⟨rfl, rfl, hunreached.1, fun _ _ => Nat.zero_le _, by
      simpa only [Loop.start, Nat.zero_add] using hunreached.2⟩
  obtain ⟨hraised, hreturned⟩ := (h.resting haccepts).run_barred (Unreaching config model)
    (fun loop attempt attempts hloop => ⟨(hloop.prepared (withoutDummies call)).1, hloop.next⟩)
    hmore hcontiguous hstart
  rw [step_eq_run haccepts]
  exact ⟨hraised, fun outputs next hreturns => absurd hreturns (hreturned outputs next)⟩

theorem Clean.step_refused (haccepts : session.Accepts model call)
    (hmore : (0 : Int) < model.numBlocks) (hrefused : session.Refused call) :
    Quiet model ideal call (session.step config model call attempts) := by
  obtain ⟨current, rest, hsessions, hrefuses⟩ := hrefused
  have hbarred : ∀ (loop : Loop PeerID Token Cache) attempt attempts,
      RefusedLoop loop (attempt :: attempts) →
      loop.attempt config model (withoutDummies call) attempt =
          (loop.fail (loop.prepare model attempt).1, decide (loop.Continues config)) ∧
        (loop.Continues config →
          RefusedLoop (loop.fail (loop.prepare model attempt).1) attempts) := by
    intro loop attempt attempts hloop
    rcases hloop with hstuck | ⟨hfirst, current, hcurrent, hrefuses⟩
    · obtain ⟨hattempt, hnext⟩ := hstuck.attempt_eq
      exact ⟨hattempt, fun _ => .inl hnext⟩
    · obtain ⟨hattempt, hnext⟩ := attempt_refused hfirst hcurrent hrefuses
      exact ⟨hattempt, fun _ => .inl hnext⟩
  obtain ⟨hraised, hreturned⟩ := (h.resting haccepts).run_barred RefusedLoop hbarred hmore
    hcontiguous (.inr ⟨rfl, current, by simp [Loop.start, hsessions], hrefuses⟩)
  rw [step_eq_run haccepts]
  exact ⟨hraised, fun outputs next hreturns => absurd hreturns (hreturned outputs next)⟩

/-- A harmless call leaves no trace if it raises, and is the next one of the ideal session if it
returns. -/
theorem Clean.step (haccepts : session.Accepts model call)
    (hharmless : call.inputs ≠ [] → Unreached config model session attempts ∨
      session.Refused call ∨ session.Intact ∧
        (∀ raised, session.step config model call attempts ≠ .raised raised) ∧
        session.CallTakes (fun session push => session.Fits False call push) config model call
          attempts) :
    Quiet model ideal call (session.step config model call attempts) := by
  by_cases hempty : call.inputs = []
  · exact h.step_empty hcontiguous haccepts hempty
  by_cases hmore : (0 : Int) < model.numBlocks
  · rcases hharmless hempty with hunreached | hrefused | ⟨hintact, hreturns, htakes⟩
    · exact h.step_unreached hcontiguous haccepts hmore hunreached
    · exact h.step_refused hcontiguous haccepts hmore hrefused
    · exact ⟨fun raised hraised => absurd hraised (hreturns raised),
        fun outputs next => h.step_returned hcontiguous htakes hintact⟩
  · have hgood := h.good_of_done (by omega)
    have hdone : (model.numBlocks : Int) ≤ (Loop.start session (withoutDummies call)).blockIdx := by
      change (model.numBlocks : Int) ≤ 0
      omega
    obtain ⟨next, hrun, hnext⟩ : ∃ next, Loop.run config model (withoutDummies call) attempts
        (Loop.start session (withoutDummies call)) =
          .returned (ideal.outputs model (withoutDummies call)) next ∧
        Good model (ideal.step model (withoutDummies call)) False next :=
      (hgood.loopInv (withoutDummies call)).returned_of_done (hgood.callAt haccepts) hdone
    rw [withoutDummies_outputs] at hrun
    rw [withoutDummies_step] at hnext
    rw [step_eq_run haccepts]
    refine ⟨fun raised hraised => (by cases hrun.symm.trans hraised),
      fun outputs final hreturns => ?_⟩
    cases hrun.symm.trans hreturns
    exact ⟨rfl, hnext.clean⟩

end sessions

namespace CallLog

structure Kept (model : BlockModel Token Cache) (log : CallLog PeerID Token Cache) : Prop where
  clean : log.session.Clean model (Ideal.after model log.calls)
  answered : ∀ before call outputs later, log.returned = before ++ (call, outputs) :: later →
    outputs = (Ideal.after model (before.map Prod.fst)).outputs model call

theorem kept_new (maxLength : Nat) : (new maxLength : CallLog PeerID Token Cache).Kept model :=
  ⟨clean_new maxLength, fun before call outputs later h => by simp [new] at h⟩

theorem Kept.traceless {log : CallLog PeerID Token Cache} (h : log.Kept model) :
    log.Traceless model := by
  refine ⟨h.answered, fun serverSession hmem => ?_⟩
  rw [← Ideal.after_entered_length model log.calls 0, h.clean.entered]
  exact (h.clean.sessions serverSession hmem).1

theorem Kept.step {log next : CallLog PeerID Token Cache}
    {event : StepCall Token × List (Attempt PeerID)} (h : log.Kept model)
    (hstep : log.step config model event = some next)
    (hcontiguous : ∀ attempt ∈ event.2, attempt.Contiguous model)
    (hharmless : Harmless config model log event) : next.Kept model := by
  by_cases haccepts : log.session.Accepts model event.1
  · have hquiet := h.clean.step hcontiguous haccepts fun htokens => hharmless htokens haccepts
    unfold CallLog.step at hstep
    split at hstep
    · rename_i outputs session hreturned
      cases hstep
      obtain ⟨rfl, hclean⟩ := hquiet.returned outputs session hreturned
      have hcalls : (⟨session, log.returned ++ [(event.1, (Ideal.after model log.calls).outputs model
          event.1)]⟩ : CallLog PeerID Token Cache).calls = log.calls ++ [event.1] := List.map_append
      refine ⟨?_, fun before call outputs later hsplit => ?_⟩
      · rw [hcalls, Ideal.after_concat]
        exact hclean
      · rcases List.eq_nil_or_concat' later with rfl | ⟨later, last, rfl⟩
        · obtain ⟨hbefore, hlast⟩ := List.append_inj' hsplit rfl
          cases hlast
          rw [← hbefore]
          rfl
        · rw [← List.cons_append, ← List.append_assoc] at hsplit
          exact h.answered before call outputs later (List.append_inj' hsplit rfl).1
    · rename_i session hraised
      cases hstep
      exact ⟨hquiet.raised session hraised, h.answered⟩
    · cases hstep
  · unfold CallLog.step InferenceSession.step at hstep
    rw [if_neg haccepts] at hstep
    cases hstep
    exact h

/-- Where every call is harmless, every state of the session is one that the calls that returned
lead to. -/
theorem traceless_of_harmless {maxLength : Nat}
    {events : List (StepCall Token × List (Attempt PeerID))}
    (hcontiguous : ∀ event ∈ events, ∀ attempt ∈ event.2, attempt.Contiguous model)
    (h : EveryStep (step config model) (Harmless config model) (new maxLength) events) :
    EveryState (step config model) (Traceless model) (new maxLength) events := by
  have hkept := everyState_of_everyStep (P := Kept model)
    (fun log event next hlog hstep hok => hlog.step hstep hok.2 hok.1) (kept_new maxLength)
    (h.and_forall hcontiguous)
  exact hkept.mono fun log => Kept.traceless

private def emptyCallFails : List (StepCall Nat × List (Attempt Unit)) :=
  [(tokensCall [5, 6], [throughOneServer .served]),
    (tokensCall [], List.replicate 2 (throughOneServer (.failed false false))),
    (tokensCall [7], List.replicate 2 (throughOneServer .served))]

theorem traceless_emptyCallFails :
    EveryState (step ⟨true, some 2⟩ oneBlock) (Traceless oneBlock) (new 4) emptyCallFails := by
  refine traceless_of_harmless ?_ fun log hfirst => ⟨?_, fun next hsecond => ⟨?_,
    fun final _ => ⟨?_, trivial⟩⟩⟩
  · simp [emptyCallFails, throughOneServer_contiguous]
  · have hreturns : (match (InferenceSession.new 4 : InferenceSession Unit Nat (List Nat)).step
        ⟨true, some 2⟩ oneBlock (tokensCall [5, 6]) [throughOneServer .served] with
      | .raised _ => false
      | _ => true) = true := by decide +kernel
    refine fun _ _ => .inr (.inr ⟨fun _ hmem => absurd hmem List.not_mem_nil,
      fun raised hraised => ?_, Loop.takes_of_none (by simp [throughOneServer]) _⟩)
    change (InferenceSession.new 4 : InferenceSession Unit Nat (List Nat)).step ⟨true, some 2⟩
      oneBlock (tokensCall [5, 6]) [throughOneServer .served] = _ at hraised
    rw [hraised] at hreturns
    cases hreturns
  · exact fun htokens => absurd rfl htokens
  · have hleft : (((new 4 : CallLog Unit Nat (List Nat)).step ⟨true, some 2⟩ oneBlock
        emptyCallFails[0]).bind fun log => log.step ⟨true, some 2⟩ oneBlock emptyCallFails[1]).map
          (fun log => log.session.serverSessions.map fun serverSession =>
            (serverSession.position, serverSession.history)) = some [(0, some [5, 6])] := by
      decide +kernel
    change (new 4 : CallLog Unit Nat (List Nat)).step ⟨true, some 2⟩ oneBlock emptyCallFails[0] = _
      at hfirst
    change log.step ⟨true, some 2⟩ oneBlock emptyCallFails[1] = _ at hsecond
    rw [hfirst, Option.bind_some, hsecond, Option.map_some, Option.some_inj] at hleft
    obtain ⟨current, rest, hsessions, hcurrent, -⟩ := List.map_eq_cons_iff.mp hleft
    obtain ⟨hzero, hhistory⟩ := Prod.mk.inj hcurrent
    exact fun _ _ => .inr (.inl ⟨current, rest, hsessions, .inr hzero, [5, 6], hhistory, by decide,
      by decide⟩)

private def tokensCallFails : List (StepCall Nat × List (Attempt Unit)) :=
  [(tokensCall [5, 6], List.replicate 2 (throughOneServer (.failed false false))),
    (tokensCall [7, 8], List.replicate 2 (throughOneServer .served))]

/-- It returns what the first two enter. -/
theorem tokensCallFails_leaves_trace :
    ∃ log : CallLog Unit Nat (List Nat),
      LeadsTo (step ⟨true, some 2⟩ oneBlock) (new 4) tokensCallFails log ∧
        log.returned = [(tokensCall [7, 8], [5, 6])] ∧ ¬ log.Traceless oneBlock := by
  have hlog : (tokensCallFails.foldlM (step ⟨true, some 2⟩ oneBlock) (new 4)).map returned =
      some [(tokensCall [7, 8], [5, 6])] := by decide +kernel
  obtain ⟨log, hruns, hreturned⟩ := Option.map_eq_some_iff.mp hlog
  refine ⟨log, hruns, hreturned, fun h => ?_⟩
  have houtputs := h.answered [] _ _ [] hreturned
  exact absurd houtputs (by decide +kernel)

end CallLog

end Peerz.Client.InferenceSession
