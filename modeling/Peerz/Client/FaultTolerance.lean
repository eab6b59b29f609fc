import Mathlib.Data.NNRat.Defs
import Peerz.Client.Attempts
import Peerz.Library.Runs

/-! Fault tolerance of an inference session: when a step call that keeps retrying returns what a
session without failures would. -/
namespace Peerz.Client

variable {PeerID Token Cache : Type} [Add Token]

def Attempt.Healthy (model : BlockModel Token Cache) (attempt : Attempt PeerID) : Prop :=
  attempt.Opens model ∧ attempt.request = .served

namespace InferenceSession
open Library Server

variable {config : ClientConfig} {model : BlockModel Token Cache} {ideal : Ideal Token Cache}
  {strict : Prop} {maxLength : Nat} {session : InferenceSession PeerID Token Cache}
  {call : StepCall Token}

def returnedStep (config : ClientConfig) (model : BlockModel Token Cache)
    (session : InferenceSession PeerID Token Cache)
    (event : StepCall Token × List (Attempt PeerID)) :
    Option (InferenceSession PeerID Token Cache) :=
  match session.step config model event.1 event.2 with
  | .returned _ next => some next
  | _ => none

/-- However many attempts it has taken, the call has not raised. -/
def KeepsRetrying (config : ClientConfig) (model : BlockModel Token Cache)
    (session : InferenceSession PeerID Token Cache) (call : StepCall Token)
    (attempts : Nat → Attempt PeerID) : Prop :=
  ∀ used raised, session.step config model call ((List.range used).map attempts) ≠ .raised raised

theorem returnedStep_eq_some {event : StepCall Token × List (Attempt PeerID)}
    {next : InferenceSession PeerID Token Cache} :
    session.returnedStep config model event = some next ↔
      ∃ outputs, session.step config model event.1 event.2 = .returned outputs next := by
  unfold returnedStep
  split
  · rename_i outputs returned hstep
    rw [hstep]
    simp
  · rename_i hother
    simp only [reduceCtorEq, false_iff, not_exists]
    intro outputs hstep
    exact hother outputs next hstep

/-- Whatever push a server takes during the call, and has not had from the client before, brings
the prompts and the hypothesis ids of the call. -/
def Undisturbed (config : ClientConfig) (model : BlockModel Token Cache)
    (session : InferenceSession PeerID Token Cache)
    (event : StepCall Token × List (Attempt PeerID)) : Prop :=
  session.CallTakes (fun session push => session.Agrees event.1 push) config model event.1 event.2

theorem Undisturbed.fits {event : StepCall Token × List (Attempt PeerID)}
    (h : session.Undisturbed config model event) :
    session.CallTakes (fun session push => session.Fits strict event.1 push) config model event.1
      event.2 :=
  h.mono fun _ _ hagrees => .inl hagrees

theorem undisturbed_of_none {event : StepCall Token × List (Attempt PeerID)}
    (h : ∀ attempt ∈ event.2, attempt.taken = []) : session.Undisturbed config model event :=
  Loop.takes_of_none h _

theorem Good.leadsTo {events : List (StepCall Token × List (Attempt PeerID))}
    {final : InferenceSession PeerID Token Cache} (h : Good model ideal strict session)
    (hcontiguous : ∀ event ∈ events, ∀ attempt ∈ event.2, attempt.Contiguous model)
    (hundisturbed : EveryStep (returnedStep config model) (Undisturbed config model) session events)
    (hruns : LeadsTo (returnedStep config model) session events final) :
    Good model (events.foldl (fun ideal event => ideal.step model event.1) ideal) strict final := by
  induction events generalizing session ideal with
  | nil => exact leadsTo_nil.mp hruns ▸ h
  | cons event events ih =>
      obtain ⟨hfirst, hrest⟩ := List.forall_mem_cons.mp hcontiguous
      obtain ⟨next, hstep, hruns⟩ := leadsTo_cons.mp hruns
      obtain ⟨hquiet, hlater⟩ := hundisturbed next hstep
      obtain ⟨outputs, hreturned⟩ := returnedStep_eq_some.mp hstep
      exact ih (h.step_returned hfirst hquiet.fits hreturned).2 hrest hlater hruns

theorem good_of_runs {events : List (StepCall Token × List (Attempt PeerID))}
    (hcontiguous : ∀ event ∈ events, ∀ attempt ∈ event.2, attempt.Contiguous model)
    (hundisturbed : EveryStep (returnedStep config model) (Undisturbed config model)
      (new maxLength) events)
    (hruns : LeadsTo (returnedStep config model) (new maxLength) events session) :
    Good model (Ideal.after model (events.map Prod.fst)) strict session := by
  unfold Ideal.after
  rw [List.foldl_map]
  exact (good_new maxLength).leadsTo hcontiguous hundisturbed hruns

section retrying
variable {attempts : Nat → Attempt PeerID} (h : Good model ideal True session)
  (hroutes : ∀ i, (attempts i).Contiguous model)
  (hundisturbed : ∀ used,
    session.Undisturbed config model (call, (List.range used).map attempts))
include h hroutes hundisturbed

omit [Add Token] h hundisturbed in
theorem contiguous_range (used : Nat) :
    ∀ attempt ∈ (List.range used).map attempts, attempt.Contiguous model := by
  intro attempt hmem
  obtain ⟨i, -, rfl⟩ := List.mem_map.mp hmem
  exact hroutes i

omit h hroutes hundisturbed in
theorem KeepsRetrying.accepts (hretries : KeepsRetrying config model session call attempts) :
    session.Accepts model call := by
  by_contra hrejects
  exact hretries 0 session (if_neg hrejects)

theorem Good.returns_at_start (hzero : session.position = 0)
    (hretries : KeepsRetrying config model session call attempts)
    (hhealthy : ∀ start, ∃ wait, (attempts (start + wait)).Healthy model) :
    ∃ used next, session.step config model call ((List.range used).map attempts) =
      .returned (ideal.outputs model call) next ∧ Good model (ideal.step model call) True next := by
  have haccepts := hretries.accepts
  unfold KeepsRetrying at hretries
  simp only [step_eq_run haccepts, List.range_eq_range'] at hretries hundisturbed ⊢
  have hcontinuing : Continuing config model (withoutDummies call) attempts 0
      (Loop.start session (withoutDummies call)) :=
    ⟨hretries, fun used => (hundisturbed used).fits⟩
  have hreturns := (h.loopInv (withoutDummies call)).run_retries (h.callAt haccepts) hzero hroutes
    hcontinuing hhealthy
  rwa [withoutDummies_outputs, withoutDummies_step] at hreturns

theorem Good.returns_past_start (hpositive : 0 < session.position)
    (haccepts : session.Accepts model call) :
    (∃ used next, session.step config model call ((List.range used).map attempts) =
      .returned (ideal.outputs model call) next ∧ Good model (ideal.step model call) True next) ↔
      ∀ i < session.serverSessions.length, (attempts i).request = .served := by
  have hcall := h.callAt haccepts
  have hloop := h.loopInv (withoutDummies call)
  constructor
  · rintro ⟨used, next, hstep, -⟩ i hi
    rw [step_eq_run haccepts] at hstep
    obtain ⟨attempt, hget, hserved⟩ := hloop.served_of_returned hcall
      (contiguous_range hroutes used) (hundisturbed used).fits hpositive hstep i hi
    rw [List.getElem?_map, List.getElem?_range] at hget
    · cases hget
      exact hserved
    · by_contra hlarge
      rw [List.getElem?_eq_none (by simpa using hlarge)] at hget
      cases hget
  · intro hserved
    have hserved : ∀ i < session.serverSessions.length, ∃ attempt,
        ((List.range session.serverSessions.length).map attempts)[i]? = some attempt ∧
          attempt.request = .served := by
      intro i hi
      refine ⟨attempts i, ?_, hserved i hi⟩
      rw [List.getElem?_map, List.getElem?_range hi]
      rfl
    obtain ⟨next, hrun, hnext⟩ := hloop.run_served hcall hpositive
      (contiguous_range hroutes session.serverSessions.length)
      (hundisturbed session.serverSessions.length).fits hserved
    rw [withoutDummies_outputs] at hrun
    rw [withoutDummies_step] at hnext
    exact ⟨_, next, (step_eq_run haccepts).trans hrun, hnext⟩

end retrying

/-- After any calls that returned, a call that keeps retrying while healthy attempts keep coming
returns what the ideal session does, if the session is at position 0 or no request to the
chain fails. Past position 0 the first failure keeps it from ever returning. In none of the calls
may a server take what another one has pushed with the prompts of an earlier step. -/
theorem retries_return_iff {events : List (StepCall Token × List (Attempt PeerID))}
    {attempts : Nat → Attempt PeerID}
    (hruns : LeadsTo (returnedStep config model) (new maxLength) events session)
    (hcontiguous : ∀ event ∈ events, ∀ attempt ∈ event.2, attempt.Contiguous model)
    (hroutes : ∀ i, (attempts i).Contiguous model)
    (hundisturbed : EveryStep (returnedStep config model) (Undisturbed config model)
      (new maxLength) events)
    (hlast : ∀ used, session.Undisturbed config model (call, (List.range used).map attempts))
    (hretries : KeepsRetrying config model session call attempts)
    (hhealthy : ∀ start, ∃ wait, (attempts (start + wait)).Healthy model) :
    (∃ used next, session.step config model call ((List.range used).map attempts) =
        .returned ((Ideal.after model (events.map Prod.fst)).outputs model call) next ∧
      Good model ((Ideal.after model (events.map Prod.fst)).step model call) True next) ↔
      session.position = 0 ∨
        ∀ i < session.serverSessions.length, (attempts i).request = .served := by
  have hgood : Good model (Ideal.after model (events.map Prod.fst)) True session :=
    good_of_runs hcontiguous hundisturbed hruns
  rcases Nat.eq_zero_or_pos session.position with hzero | hpositive
  · simp only [hzero, true_or, iff_true]
    exact hgood.returns_at_start hroutes hlast hzero hretries hhealthy
  · rw [hgood.returns_past_start hroutes hlast hpositive hretries.accepts, or_iff_right (by omega)]

theorem run_ne_raised (hforever : config.maxRetries = none) (attempts : List (Attempt PeerID))
    (loop : Loop PeerID Token Cache) (raised : InferenceSession PeerID Token Cache) :
    Loop.run config model call attempts loop ≠ .raised raised := by
  induction attempts generalizing loop with
  | nil =>
      unfold Loop.run
      split
      · exact fun hraised => by cases hraised
      · exact fun hraised => by cases hraised
  | cons attempt attempts ih =>
      have hcontinues : (loop.attempt config model call attempt).2 = true := by
        unfold Loop.attempt
        simp only [hforever]
        repeat' split
        all_goals rfl
      unfold Loop.run
      dsimp only
      rw [hcontinues, if_pos rfl]
      split
      · exact fun hraised => by cases hraised
      · exact ih _

theorem keepsRetrying (hforever : config.maxRetries = none) (haccepts : session.Accepts model call)
    (attempts : Nat → Attempt PeerID) : KeepsRetrying config model session call attempts := by
  intro used raised
  rw [step_eq_run haccepts]
  exact run_ne_raised hforever _ _ raised

def summingBlocks (numBlocks : Nat) : BlockModel Nat (List Nat) where
  numBlocks := numBlocks
  block := fun _ =>
    { emptyCache := []
      forward := fun cache tokens => (tokens.map (· + cache.sum), cache ++ tokens)
      reorderCache := fun cache _ => cache
      length_forward := fun _ _ => List.length_map _ }

def oneBlock : BlockModel Nat (List Nat) := summingBlocks 1

def oneServer : RemoteSpanInfo Unit := ⟨(), 0, 1, { state := .online, throughput := 1 }⟩

def throughOneServer (request : RequestOutcome) : Attempt Unit where
  makeSequence := fun _ _ => some [oneServer]
  request := request

def tokensCall (inputs : List Nat) : StepCall Nat := ⟨inputs, 1, [], []⟩

theorem throughOneServer_contiguous (request : RequestOutcome) :
    (throughOneServer request).Contiguous oneBlock := by
  intro first last spans hfirst hlt hlast hspans
  cases hspans
  change last ≤ 1 at hlast
  obtain rfl : first = 0 := by omega
  obtain rfl : last = 1 := by omega
  exact ⟨[], oneServer, rfl, rfl, by decide, by decide⟩

private theorem throughOneServer_healthy : (throughOneServer .served).Healthy oneBlock :=
  ⟨⟨rfl, fun _ _ _ _ _ => ⟨_, rfl⟩⟩, rfl⟩

/-- The first request fails, and all that follow it would be served. -/
private def firstFails (i : Nat) : Attempt Unit :=
  throughOneServer (if i = 0 then .failed true true else .served)

private theorem undisturbed_range {session : InferenceSession Unit Nat (List Nat)}
    {call : StepCall Nat} (attempts : Nat → Attempt Unit) (h : ∀ i, (attempts i).taken = [])
    (used : Nat) :
    session.Undisturbed ⟨true, none⟩ oneBlock (call, (List.range used).map attempts) := by
  refine undisturbed_of_none fun attempt hmem => ?_
  obtain ⟨i, -, rfl⟩ := List.mem_map.mp hmem
  exact h i

private theorem firstFails_healthy (start : Nat) :
    ∃ wait, (firstFails (start + wait)).Healthy oneBlock :=
  ⟨1, throughOneServer_healthy⟩

/-- A first step of a session returns, although its first request fails. -/
theorem retries_return_firstFails :
    ∃ used next, (new 4 : InferenceSession Unit Nat (List Nat)).step ⟨true, none⟩ oneBlock
        (tokensCall [5, 6]) ((List.range used).map firstFails) = .returned [5, 6] next ∧
      Good oneBlock ((Ideal.new oneBlock).step oneBlock (tokensCall [5, 6])) True next := by
  have hruns : LeadsTo (returnedStep ⟨true, none⟩ oneBlock) (new 4)
      ([] : List (StepCall Nat × List (Attempt Unit))) (new 4) := leadsTo_nil.mpr rfl
  have hretries : KeepsRetrying ⟨true, none⟩ oneBlock (new 4) (tokensCall [5, 6]) firstFails :=
    keepsRetrying rfl (by decide) firstFails
  exact (retries_return_iff hruns nofun (fun i => throughOneServer_contiguous _) trivial
    (undisturbed_range firstFails fun _ => rfl) hretries firstFails_healthy).mpr (.inl rfl)

/-- The second step of a session does not, whatever is offered after its first failure. -/
theorem secondStep_never_returns :
    ∃ session, LeadsTo (returnedStep ⟨true, none⟩ oneBlock) (new 4)
        [(tokensCall [5, 6], [throughOneServer .served])] session ∧
      (∀ start, ∃ wait, (firstFails (start + wait)).Healthy oneBlock) ∧
      ∀ used outputs next, session.step ⟨true, none⟩ oneBlock (tokensCall [7])
        ((List.range used).map firstFails) ≠ .returned outputs next := by
  have hsession : ([(tokensCall [5, 6], [throughOneServer .served])].foldlM
      (returnedStep ⟨true, none⟩ oneBlock) (new 4)).map
        (fun session => (session.position, session.serverSessions.length, session.maxLength)) =
          some (2, 1, 4) := by decide +kernel
  obtain ⟨session, hruns, hsizes⟩ := Option.map_eq_some_iff.mp hsession
  obtain ⟨hposition, hservers, hlimit⟩ : session.position = 2 ∧
      session.serverSessions.length = 1 ∧ session.maxLength = 4 := by simpa using hsizes
  refine ⟨session, hruns, firstFails_healthy, fun used outputs next hstep => ?_⟩
  have hroutes : ∀ i, (firstFails i).Contiguous oneBlock :=
    fun i => throughOneServer_contiguous _
  have hfirst : EveryStep (returnedStep ⟨true, none⟩ oneBlock) (Undisturbed ⟨true, none⟩ oneBlock)
      (new 4) [(tokensCall [5, 6], [throughOneServer .served])] :=
    fun next _ => ⟨undisturbed_of_none (by simp [throughOneServer]), trivial⟩
  have hgood : Good oneBlock (Ideal.after oneBlock [tokensCall [5, 6]]) True session :=
    good_of_runs (by simp [throughOneServer_contiguous]) hfirst hruns
  have haccepts : session.Accepts oneBlock (tokensCall [7]) := by
    unfold Accepts
    rw [hposition, hlimit]
    decide
  have hlast : ∀ used, session.Undisturbed ⟨true, none⟩ oneBlock
      (tokensCall [7], (List.range used).map firstFails) :=
    undisturbed_range firstFails fun _ => rfl
  obtain ⟨rfl, hnext⟩ := hgood.step_returned (contiguous_range hroutes used) (hlast used).fits hstep
  have hserved := (hgood.returns_past_start hroutes hlast (by omega) haccepts).mp
    ⟨used, next, hstep, hnext⟩
  cases hserved 0 (by omega)

def twoServers : List (RemoteSpanInfo Unit) :=
  [oneServer, { oneServer with start := 1, stop := 2 }]

def throughTwoServers (taken : List Nat) (request : RequestOutcome) : Attempt Unit where
  taken := taken
  makeSequence := fun first last => some (pySlice twoServers first last)
  request := request

omit [Add Token] in
theorem throughTwoServers_contiguous (taken : List Nat) (request : RequestOutcome)
    {model : BlockModel Token Cache} (hblocks : model.numBlocks = 2) :
    (throughTwoServers taken request).Contiguous model := by
  intro first last spans hfirst hlt hlast hspans
  cases hspans
  rw [hblocks] at hlast
  obtain ⟨rfl, rfl⟩ | ⟨rfl, rfl⟩ | ⟨rfl, rfl⟩ :
      first = 0 ∧ last = 1 ∨ first = 0 ∧ last = 2 ∨ first = 1 ∧ last = 2 := by
    omega
  · exact ⟨[], oneServer, rfl, rfl, by decide, by decide⟩
  · exact ⟨[oneServer], { oneServer with start := 1, stop := 2 }, rfl, ⟨rfl, by decide, rfl⟩,
      by decide, by decide⟩
  · exact ⟨[], { oneServer with start := 1, stop := 2 }, rfl, rfl, by decide, by decide⟩

private def promptedCall : StepCall Nat := ⟨[1, 2], 1, [[10], [100]], []⟩

private def servedByBoth : List (Attempt Unit) :=
  [throughTwoServers [] .served, throughTwoServers [] .served]

/-- A step returns what the deep prompts of the step before make of its token, if the push comes
to the second server before the client's own request. -/
theorem stalePrompts_taken :
    ∃ session next, LeadsTo (returnedStep ⟨true, none⟩ (summingBlocks 2)) (new 4)
        [(promptedCall, servedByBoth)] session ∧
      session.step ⟨true, none⟩ (summingBlocks 2) (tokensCall [3])
        [throughTwoServers [] .served, throughTwoServers [0] .served] = .returned [139] next ∧
      (Ideal.after (summingBlocks 2) [promptedCall]).outputs (summingBlocks 2) (tokensCall [3]) =
        [129] := by
  have hruns : (([(promptedCall, servedByBoth)].foldlM
      (returnedStep ⟨true, none⟩ (summingBlocks 2)) (new 4)).map fun session =>
        match session.step ⟨true, none⟩ (summingBlocks 2) (tokensCall [3])
          [throughTwoServers [] .served, throughTwoServers [0] .served] with
        | .returned outputs _ => outputs
        | _ => []) = some [139] := by decide +kernel
  obtain ⟨session, hsession, hreturned⟩ := Option.map_eq_some_iff.mp hruns
  split at hreturned
  · rename_i outputs next hstep
    exact ⟨session, next, hsession, hreturned ▸ hstep, by decide +kernel⟩
  · cases hreturned

end InferenceSession
end Peerz.Client
