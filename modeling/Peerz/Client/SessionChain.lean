import Peerz.Client.FaultTolerance

/-! The chain of server sessions over whole runs of step calls, whatever fails in them: its spans
cover the model in order, its links follow it, and the loop stands where a span starts. -/
namespace Peerz.Client
open Library Server

variable {PeerID Token Cache : Type} {model : BlockModel Token Cache} {strict : Prop}

namespace InferenceSession

inductive StepPhase (PeerID Token Cache : Type) where
  | idle (session : InferenceSession PeerID Token Cache)
  | looping (call : StepCall Token) (loop : Loop PeerID Token Cache)

inductive StepEvent (PeerID Token : Type) where
  | call (call : StepCall Token)
  | attempt (attempt : Attempt PeerID)

section attempts
variable [Add Token] {config : ClientConfig} {call : StepCall Token}
  {loop : Loop PeerID Token Cache} {attempt : Attempt PeerID}

def settle (model : BlockModel Token Cache) (call : StepCall Token)
    (loop : Loop PeerID Token Cache) : StepPhase PeerID Token Cache :=
  if model.numBlocks ≤ loop.blockIdx then
    .idle { loop.session with position := loop.session.position + call.inputs.length }
  else .looping call loop

/-- The attempts of `step` one by one; a call that raises leaves the session as it is. -/
def sessionStep (config : ClientConfig) (model : BlockModel Token Cache) :
    StepPhase PeerID Token Cache → StepEvent PeerID Token → Option (StepPhase PeerID Token Cache)
  | .idle session, .call call =>
      some (if session.Accepts model call then
        settle model (withoutDummies call) (Loop.start session call)
      else .idle session)
  | .looping call loop, .attempt attempt =>
      let (next, continues) := loop.attempt config model call attempt
      some (if continues then settle model call next else .idle next.session)
  | _, _ => none

def StepPhase.Inv (strict : Prop) (model : BlockModel Token Cache) :
    StepPhase PeerID Token Cache → Prop
  | .idle session => Chained strict model session
  | .looping _ loop => Chained strict model loop.session ∧
      Located loop.session loop.serverIdx loop.blockIdx ∧ loop.blockIdx < model.numBlocks

omit [Add Token] in
theorem settle_inv (h : Chained strict model loop.session)
    (hlocated : loop.blockIdx < model.numBlocks →
      Located loop.session loop.serverIdx loop.blockIdx) :
    (settle model call loop).Inv strict model := by
  unfold settle
  split
  · exact h.congr rfl rfl
  · rename_i hmore
    exact ⟨h, hlocated (by omega), by omega⟩

theorem StepPhase.Inv.step {phase next : StepPhase PeerID Token Cache}
    {event : StepEvent PeerID Token} (h : phase.Inv strict model)
    (hreaches : ∀ attempt, event = .attempt attempt → attempt.Reaches strict model)
    (hstep : sessionStep config model phase event = some next) : next.Inv strict model := by
  cases phase with
  | idle session =>
      cases event with
      | attempt attempt => cases hstep
      | call call =>
          cases hstep
          split
          · exact settle_inv (h.congr rfl rfl) fun _ => (Chained.located_zero h).congr rfl
          · exact h
  | looping call loop =>
      cases event with
      | call call => cases hstep
      | attempt attempt =>
          obtain ⟨hchained, hlocated, hmore⟩ := h
          obtain ⟨hnext, hplace⟩ := hchained.attempted hlocated hmore (hreaches attempt rfl)
          cases hstep
          dsimp only
          split
          · exact settle_inv hnext hplace
          · exact hnext

omit [Add Token] in
theorem chained_new (maxLength : Nat) :
    Chained strict model (new maxLength : InferenceSession PeerID Token Cache) :=
  ⟨.inl rfl, fun _ _ hget => absurd hget (Option.some_ne_none _).symm, List.nodup_nil,
    fun _ hmem => absurd hmem List.not_mem_nil⟩

theorem inv_of_leadsTo {maxLength : Nat} {events : List (StepEvent PeerID Token)}
    {final : StepPhase PeerID Token Cache}
    (hreaches : ∀ attempt, .attempt attempt ∈ events → attempt.Reaches strict model)
    (hrun : LeadsTo (sessionStep config model) (.idle (new maxLength)) events final) :
    final.Inv strict model := by
  have hevents : ∀ event ∈ events, ∀ attempt, event = .attempt attempt →
      attempt.Reaches strict model := by
    rintro event hmem attempt rfl
    exact hreaches attempt hmem
  refine LeadsTo.invariant_of ?_ hrun hevents (chained_new maxLength)
  exact fun phase event next hphase hevent hstep => StepPhase.Inv.step hphase hevent hstep

/-- Whatever fails in a run of step calls, the chain is right after every update and every call,
and the loop always stands where a span starts. -/
theorem sessions_chained {maxLength : Nat} {events : List (StepEvent PeerID Token)}
    {final : StepPhase PeerID Token Cache}
    (hreaches : ∀ attempt, .attempt attempt ∈ events → attempt.Reaches strict model)
    (hrun : LeadsTo (sessionStep config model) (.idle (new maxLength)) events final) :
    (∀ session, final = .idle session → Chained strict model session) ∧
      ∀ call loop, final = .looping call loop →
        Chained strict model loop.session ∧
        Located loop.session loop.serverIdx loop.blockIdx ∧
        ∀ attempt, attempt.Reaches strict model →
          Chained strict model (loop.prepare model attempt).1 ∧
          Located (loop.prepare model attempt).1 loop.serverIdx loop.blockIdx := by
  have hinv := inv_of_leadsTo hreaches hrun
  refine ⟨?_, ?_⟩
  · rintro session rfl
    exact hinv
  · rintro call loop rfl
    obtain ⟨hchained, hlocated, hmore⟩ := hinv
    refine ⟨hchained, hlocated, fun attempt hattempt => ?_⟩
    obtain ⟨hnext, hplace, -⟩ := hchained.prepare hlocated hmore hattempt
    exact ⟨hnext, hplace⟩

/-! The calls of `step` are runs of these events. -/

def StepResult.session? :
    StepResult PeerID Token Cache → Option (InferenceSession PeerID Token Cache)
  | .returned _ session => some session
  | .raised session => some session
  | .pending => none

def endedStep (config : ClientConfig) (model : BlockModel Token Cache)
    (session : InferenceSession PeerID Token Cache)
    (event : StepCall Token × List (Attempt PeerID)) :
    Option (InferenceSession PeerID Token Cache) :=
  (session.step config model event.1 event.2).session?

theorem run_leadsTo {attempts : List (Attempt PeerID)} {next : InferenceSession PeerID Token Cache}
    (hrun : (Loop.run config model call attempts loop).session? = some next) :
    ∃ used : List (Attempt PeerID), (∀ attempt ∈ used, attempt ∈ attempts) ∧
      LeadsTo (sessionStep config model) (settle model call loop) (used.map .attempt)
        (.idle next) := by
  have hended : ∀ {attempts : List (Attempt PeerID)} {loop : Loop PeerID Token Cache},
      model.numBlocks ≤ loop.blockIdx →
      (Loop.run config model call attempts loop).session? = some next →
      ∃ used : List (Attempt PeerID), (∀ attempt ∈ used, attempt ∈ attempts) ∧
        LeadsTo (sessionStep config model) (settle model call loop) (used.map .attempt)
          (.idle next) := by
    intro attempts loop hdone hrun
    rw [Loop.run_done hdone] at hrun
    cases hrun
    exact ⟨[], nofun, leadsTo_nil.mpr (if_pos hdone)⟩
  induction attempts generalizing loop with
  | nil =>
      by_cases hdone : model.numBlocks ≤ loop.blockIdx
      · exact hended hdone hrun
      · rw [Loop.run_nil (by omega)] at hrun
        cases hrun
  | cons attempt attempts ih =>
      by_cases hdone : model.numBlocks ≤ loop.blockIdx
      · exact hended hdone hrun
      · have hlooping : settle model call loop = .looping call loop := if_neg hdone
        obtain ⟨⟨moved, continues⟩, hattempt⟩ :
            ∃ result, loop.attempt config model call attempt = result := ⟨_, rfl⟩
        have hstep : sessionStep config model (.looping call loop) (.attempt attempt) =
            some (if continues then settle model call moved else .idle moved.session) := by
          rw [sessionStep, hattempt]
        rw [Loop.run_cons (by omega) hattempt] at hrun
        rw [hlooping]
        cases continues with
        | false =>
            cases hrun
            exact ⟨[attempt], by simp, leadsTo_cons.mpr ⟨_, hstep, leadsTo_nil.mpr rfl⟩⟩
        | true =>
            obtain ⟨used, hused, hleads⟩ := ih hrun
            refine ⟨attempt :: used, ?_, leadsTo_cons.mpr ⟨_, hstep, hleads⟩⟩
            exact List.forall_mem_cons.mpr ⟨List.mem_cons_self,
              fun other hmem => List.mem_cons_of_mem _ (hused other hmem)⟩

theorem step_leadsTo {session next : InferenceSession PeerID Token Cache}
    {attempts : List (Attempt PeerID)}
    (hended : (session.step config model call attempts).session? = some next) :
    ∃ used : List (Attempt PeerID), (∀ attempt ∈ used, attempt ∈ attempts) ∧
      LeadsTo (sessionStep config model) (.idle session) (.call call :: used.map .attempt)
        (.idle next) := by
  by_cases haccepts : session.Accepts model call
  · rw [step_eq_run haccepts] at hended
    obtain ⟨used, hused, hleads⟩ := run_leadsTo hended
    exact ⟨used, hused, leadsTo_cons.mpr ⟨_, congrArg some (if_pos haccepts), hleads⟩⟩
  · unfold InferenceSession.step at hended
    rw [if_neg haccepts] at hended
    cases hended
    exact ⟨[], nofun, leadsTo_cons.mpr
      ⟨_, congrArg some (if_neg haccepts), leadsTo_nil.mpr rfl⟩⟩

theorem calls_leadTo {session next : InferenceSession PeerID Token Cache}
    {calls : List (StepCall Token × List (Attempt PeerID))}
    (hrun : LeadsTo (endedStep config model) session calls next) :
    ∃ events, LeadsTo (sessionStep config model) (.idle session) events (.idle next) ∧
      ∀ attempt, .attempt attempt ∈ events → ∃ call ∈ calls, attempt ∈ call.2 := by
  induction calls generalizing session with
  | nil => exact ⟨[], leadsTo_nil.mpr (congrArg _ (leadsTo_nil.mp hrun)), nofun⟩
  | cons call calls ih =>
      obtain ⟨middle, hended, hrest⟩ := leadsTo_cons.mp hrun
      obtain ⟨used, hused, hfirst⟩ := step_leadsTo hended
      obtain ⟨events, hlater, hevents⟩ := ih hrest
      refine ⟨_, leadsTo_append.mpr ⟨_, hfirst, hlater⟩, fun attempt hmem => ?_⟩
      rcases List.mem_append.mp hmem with hmem | hmem
      · have hattempt : attempt ∈ used := by simpa using hmem
        exact ⟨call, List.mem_cons_self, hused _ hattempt⟩
      · obtain ⟨other, hother, hattempt⟩ := hevents attempt hmem
        exact ⟨other, List.mem_cons_of_mem _ hother, hattempt⟩

/-- So the chain is right after any calls of `step`. -/
theorem calls_chained {maxLength : Nat} {session : InferenceSession PeerID Token Cache}
    {calls : List (StepCall Token × List (Attempt PeerID))}
    (hreaches : ∀ call ∈ calls, ∀ attempt ∈ call.2, attempt.Reaches strict model)
    (hrun : LeadsTo (endedStep config model) (new maxLength) calls session) :
    Chained strict model session := by
  obtain ⟨events, hleads, hattempts⟩ := calls_leadTo hrun
  refine inv_of_leadsTo (fun attempt hmem => ?_) hleads
  obtain ⟨call, hcall, hattempt⟩ := hattempts attempt hmem
  exact hreaches call hcall attempt hattempt

end attempts

/-! A chain of three blocks, where the request to the second server fails once. -/

private def threeBlocks : BlockModel Nat (List Nat) :=
  { oneBlock with numBlocks := 3 }

private def spansOfTwo (request : RequestOutcome) : Attempt Unit where
  makeSequence := fun first last =>
    let span (start : Int) : RemoteSpanInfo Unit := { oneServer with start, stop := start + 2 }
    some (if last ≤ first + 2 then [span first] else [span first, span (first + 2)])
  request := request

private theorem spansOfTwo_reaches (request : RequestOutcome) :
    (spansOfTwo request).Reaches True threeBlocks := by
  intro first last spans hfirst hle hlt hlast hspans
  change last ≤ 3 at hlast
  have hlt := hlt trivial
  cases hspans
  split
  · refine ⟨[], { oneServer with start := first, stop := first + 2 }, rfl, ?_, by simp, ?_, ?_⟩
    · simp
    · dsimp only
      omega
    · exact fun _ => hlt
  · refine ⟨[{ oneServer with start := first, stop := first + 2 }],
      { oneServer with start := first + 2, stop := first + 2 + 2 }, rfl, ?_, ?_, ?_, ?_⟩
    · simp
    · simp
      omega
    · dsimp only
      omega
    · intro _
      dsimp only
      omega

private def secondServerFails : List (StepEvent Unit Nat) :=
  [.call (tokensCall [5, 6]), .attempt (spansOfTwo .served),
    .attempt (spansOfTwo (.failed false false)), .attempt (spansOfTwo .served)]

theorem sessions_chained_secondServerFails :
    ∃ session : InferenceSession Unit Nat (List Nat),
      LeadsTo (sessionStep ⟨true, none⟩ threeBlocks) (.idle (new 4)) secondServerFails (.idle session) ∧
      session.serverSessions.map (fun serverSession =>
        (serverSession.span.start, serverSession.span.stop, serverSession.sessionId,
          serverSession.nextSession)) = [(0, 2, 0, some 2), (2, 3, 2, none)] ∧
      Chained True threeBlocks session := by
  have hchain : (secondServerFails.foldlM (sessionStep ⟨true, none⟩ threeBlocks)
      (.idle (new 4))).map (fun phase => match phase with
        | .idle session => session.serverSessions.map (fun serverSession =>
            (serverSession.span.start, serverSession.span.stop, serverSession.sessionId,
              serverSession.nextSession))
        | .looping _ _ => []) = some [(0, 2, 0, some 2), (2, 3, 2, none)] := by decide +kernel
  obtain ⟨phase, hrun, hplaces⟩ := Option.map_eq_some_iff.mp hchain
  cases phase with
  | looping call loop => cases hplaces
  | idle session =>
      have hreaches : ∀ attempt, .attempt attempt ∈ secondServerFails →
          attempt.Reaches True threeBlocks := by
        intro attempt hmem
        simp only [secondServerFails, List.mem_cons, StepEvent.attempt.injEq, reduceCtorEq,
          List.not_mem_nil, false_or, or_false] at hmem
        rcases hmem with rfl | rfl | rfl <;> exact spansOfTwo_reaches _
      exact ⟨session, hrun, hplaces, (sessions_chained hreaches hrun).1 session rfl⟩

end InferenceSession
end Peerz.Client
