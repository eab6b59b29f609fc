import Peerz.Client.Routing.Updates
import Peerz.Library.Triggered

/-! The thread that updates a sequence manager, and the calls of `update` that wait for it. A call
clears the ready flag and then sets the thread's event; the thread clears its event before it
fetches, and the update sets the flag at its end. -/
namespace Peerz.Client.Routing
open Library Utils.Dht

variable {PeerID : Type} [LinearOrder PeerID]

/-- Where `_SequenceManagerUpdateThread.run` stands; a rest follows an update that has raised or
one that has not. -/
inductive ThreadPhase where
  | testing
  | clearing
  | updating
  | waiting (raised : Bool)
  | exited
deriving DecidableEq

inductive CallPhase where
  | clearing (wait : Bool)
  | setting (wait : Bool)
  | waiting
  | returned
deriving DecidableEq

def CallPhase.Unsignalled : CallPhase → Bool
  | .setting _ => true
  | _ => false

structure Updater (PeerID : Type) where
  manager : Manager PeerID
  thread : ThreadPhase
  trigger : Bool
  shouldShutdown : Bool
  /-- calls of `shutdown` that have yet to set the event -/
  shuttingDown : Nat
  calls : List CallPhase

inductive UpdaterEvent (PeerID : Type) where
  | call (wait : Bool)
  /-- the next action of a call -/
  | act (index : Nat)
  /-- the locked part of `on_request_failure`, up to the event that a call of `update` sets -/
  | dropServer (peerId : Option PeerID)
  | registerFailure (peerId : PeerID)
  | unban (peerId : PeerID)
  | shutdown
  | signalShutdown
  /-- the test of the loop and of the weak reference to the manager -/
  | test (alive : Bool)
  | clear
  | fetch (found : ModuleUID → DHTRecord PeerID)
  | filterBlock
  | commit
  | finishUpdate
  | abortUpdate
  /-- by the event or by the end of the period -/
  | wake

namespace Updater

def initial (manager : Manager PeerID) : Updater PeerID where
  manager := manager
  thread := .testing
  trigger := false
  shouldShutdown := false
  shuttingDown := 0
  calls := []

def updateStep (updater : Updater PeerID) (event : ManagerEvent PeerID) (thread : ThreadPhase) :
    Option (Updater PeerID) :=
  match updater.thread with
  | .updating => (updater.manager.step event).map fun manager => { updater with manager, thread }
  | _ => none

def callStep (updater : Updater PeerID) (index : Nat) : Option (Updater PeerID) :=
  match updater.calls[index]? with
  | some (.clearing wait) =>
      (updater.manager.step .requestUpdate).map fun manager =>
        { updater with manager, calls := updater.calls.set index (.setting wait) }
  | some (.setting wait) =>
      some { updater with
        trigger := true
        calls := updater.calls.set index (if wait then .waiting else .returned) }
  | some .waiting =>
      if updater.manager.ready then
        some { updater with calls := updater.calls.set index .returned }
      else none
  | _ => none

def step (updater : Updater PeerID) : UpdaterEvent PeerID → Option (Updater PeerID)
  | .call wait => some { updater with calls := updater.calls ++ [.clearing wait] }
  | .act index => updater.callStep index
  | .dropServer peerId =>
      let manager := updater.manager.dropServer peerId
      -- a block has lost its last server
      if manager.info.blockInfos.all fun blockInfo => 0 < blockInfo.servers.size then
        some { updater with manager }
      else some { updater with manager, calls := updater.calls ++ [.setting false] }
  | .registerFailure peerId =>
      (updater.manager.step (.registerFailure peerId)).map fun manager => { updater with manager }
  | .unban peerId =>
      (updater.manager.step (.unban peerId)).map fun manager => { updater with manager }
  | .shutdown =>
      some { updater with shouldShutdown := true, shuttingDown := updater.shuttingDown + 1 }
  | .signalShutdown =>
      match updater.shuttingDown with
      | 0 => none
      | others + 1 => some { updater with trigger := true, shuttingDown := others }
  | .test alive =>
      match updater.thread with
      | .testing =>
          some { updater with
            thread := if updater.shouldShutdown || !alive then .exited else .clearing }
      | _ => none
  | .clear =>
      match updater.thread with
      | .clearing =>
          (updater.manager.step .startUpdate).map fun manager =>
            { updater with manager, trigger := false, thread := .updating }
      | _ => none
  | .fetch found => updater.updateStep (.fetch found) .updating
  | .filterBlock => updater.updateStep .filterBlock .updating
  | .commit => updater.updateStep .commit .updating
  | .finishUpdate => updater.updateStep .finishUpdate (.waiting false)
  | .abortUpdate => updater.updateStep .abortUpdate (.waiting true)
  | .wake =>
      match updater.thread with
      | .waiting _ => some { updater with thread := .testing }
      | _ => none

def unsignalled (updater : Updater PeerID) : Nat :=
  updater.calls.countP CallPhase.Unsignalled + updater.shuttingDown

/-- A round of the thread is about the requests that there were when it cleared its event. -/
def Stands (updater : Updater PeerID) (value : Nat) (round : Round Nat) : Prop :=
  match updater.thread with
  | .testing | .clearing => ∃ seen, round = .woken seen
  | .updating => ∃ seen, round = .acting seen
  | .waiting raised => ∃ seen, round = .resting seen ∧
      (raised = false → seen = value → updater.manager.ready = true)
  | .exited => True

/-- The thread and the calls refine a thread that works in rounds, on the number of requests. -/
structure Refines (updater : Updater PeerID) (abstract : Triggered Nat) : Prop where
  reachable : abstract.Reachable
  trigger : abstract.trigger = updater.trigger
  unsignalled : abstract.unsignalled = updater.unsignalled
  bound : ∀ seen ∈ abstract.round.seen, seen ≤ abstract.value
  round : updater.Stands abstract.value abstract.round

variable {updater next : Updater PeerID} {abstract : Triggered Nat}

omit [LinearOrder PeerID] in
theorem Refines.frame (h : updater.Refines abstract)
    (hready : next.manager.ready = updater.manager.ready) (hthread : next.thread = updater.thread)
    (htrigger : next.trigger = updater.trigger)
    (hunsignalled : next.unsignalled = updater.unsignalled) : next.Refines abstract := by
  refine ⟨h.reachable, h.trigger.trans htrigger.symm, h.unsignalled.trans hunsignalled.symm,
    h.bound, ?_⟩
  have hround := h.round
  unfold Stands at hround ⊢
  rw [hthread, hready]
  exact hround

omit [LinearOrder PeerID] in
/-- One more request: the ready flag does not matter before the thread has seen it. -/
theorem Refines.request (h : updater.Refines abstract) (hthread : next.thread = updater.thread)
    (htrigger : next.trigger = updater.trigger)
    (hunsignalled : next.unsignalled = updater.unsignalled + 1) :
    next.Refines { abstract with
      value := abstract.value + 1, unsignalled := abstract.unsignalled + 1 } := by
  refine ⟨h.reachable.step (.write _), h.trigger.trans htrigger.symm, ?_,
    fun seen hseen => Nat.le_succ_of_le (h.bound seen hseen), ?_⟩
  · rw [hunsignalled, ← h.unsignalled]
  · have hround := h.round
    unfold Stands at hround ⊢
    rw [hthread]
    cases hphase : updater.thread with
    | testing | clearing | updating | exited =>
        rw [hphase] at hround
        exact hround
    | waiting raised =>
        rw [hphase] at hround
        obtain ⟨seen, hresting, -⟩ := hround
        refine ⟨seen, hresting, fun _ hvalue => ?_⟩
        have := h.bound seen (by rw [hresting]; rfl)
        dsimp only at hvalue
        omega

omit [LinearOrder PeerID] in
theorem Refines.signal (h : updater.Refines abstract) (hready : next.manager = updater.manager)
    (hthread : next.thread = updater.thread) (htrigger : next.trigger = true)
    (hunsignalled : updater.unsignalled = next.unsignalled + 1) :
    next.Refines { abstract with trigger := true, unsignalled := next.unsignalled } := by
  refine ⟨h.reachable.step (.signal (h.unsignalled.trans hunsignalled)), htrigger.symm, rfl,
    h.bound, ?_⟩
  have hround := h.round
  unfold Stands at hround ⊢
  rw [hthread, hready]
  exact hround

omit [LinearOrder PeerID] in
theorem Refines.clear (h : updater.Refines abstract) (hphase : updater.thread = .clearing)
    (htrigger : next.trigger = false) (hthread : next.thread = .updating)
    (hunsignalled : next.unsignalled = updater.unsignalled) :
    next.Refines { abstract with trigger := false, round := .acting abstract.value } := by
  have hround := h.round
  unfold Stands at hround
  rw [hphase] at hround
  obtain ⟨seen, hwoken⟩ := hround
  have hcleared := h.reachable.step (.clear hwoken)
  refine ⟨hcleared.step (.look rfl), htrigger.symm, h.unsignalled.trans hunsignalled.symm,
    fun other hother => ?_, ?_⟩
  · cases hother
    exact Nat.le_refl _
  · unfold Stands
    rw [hthread]
    exact ⟨_, rfl⟩

omit [LinearOrder PeerID] in
theorem Refines.rest (h : updater.Refines abstract) {raised : Bool}
    (hphase : updater.thread = .updating) (hthread : next.thread = .waiting raised)
    (hready : raised = false → next.manager.ready = true) (htrigger : next.trigger = updater.trigger)
    (hunsignalled : next.unsignalled = updater.unsignalled) :
    ∃ abstract : Triggered Nat, next.Refines abstract := by
  have hround := h.round
  have hbound := h.bound
  unfold Stands at hround
  rw [hphase] at hround
  obtain ⟨seen, hacting⟩ := hround
  rw [hacting] at hbound
  refine ⟨_, h.reachable.step (.rest hacting), h.trigger.trans htrigger.symm,
    h.unsignalled.trans hunsignalled.symm, hbound, ?_⟩
  unfold Stands
  rw [hthread]
  exact ⟨seen, rfl, fun hraised _ => hready hraised⟩

omit [LinearOrder PeerID] in
theorem Refines.wake (h : updater.Refines abstract) {raised : Bool}
    (hphase : updater.thread = .waiting raised) (hthread : next.thread = .testing)
    (htrigger : next.trigger = updater.trigger)
    (hunsignalled : next.unsignalled = updater.unsignalled) :
    ∃ abstract : Triggered Nat, next.Refines abstract := by
  have hround := h.round
  have hbound := h.bound
  unfold Stands at hround
  rw [hphase] at hround
  obtain ⟨seen, hresting, -⟩ := hround
  rw [hresting] at hbound
  refine ⟨_, h.reachable.step (.wake hresting), h.trigger.trans htrigger.symm,
    h.unsignalled.trans hunsignalled.symm, hbound, ?_⟩
  unfold Stands
  rw [hthread]
  exact ⟨seen, rfl⟩

omit [LinearOrder PeerID] in
theorem Refines.test (h : updater.Refines abstract) (hphase : updater.thread = .testing)
    (hthread : next.thread = .clearing ∨ next.thread = .exited)
    (htrigger : next.trigger = updater.trigger)
    (hunsignalled : next.unsignalled = updater.unsignalled) : next.Refines abstract := by
  refine ⟨h.reachable, h.trigger.trans htrigger.symm, h.unsignalled.trans hunsignalled.symm,
    h.bound, ?_⟩
  have hround := h.round
  unfold Stands at hround ⊢
  rw [hphase] at hround
  rcases hthread with hthread | hthread <;> rw [hthread]
  · exact hround
  · trivial

theorem updateStep_some {event : ManagerEvent PeerID} {thread : ThreadPhase}
    (h : updater.updateStep event thread = some next) :
    updater.thread = .updating ∧ ∃ manager, updater.manager.step event = some manager ∧
      next = { updater with manager, thread } := by
  unfold updateStep at h
  split at h
  · rename_i hphase
    obtain ⟨manager, hmanager, rfl⟩ := Option.map_eq_some_iff.mp h
    exact ⟨hphase, manager, hmanager, rfl⟩
  · cases h

theorem countP_set_call {calls : List CallPhase} {index : Nat} {old : CallPhase}
    (h : calls[index]? = some old) (new : CallPhase) :
    (calls.set index new).countP CallPhase.Unsignalled + old.Unsignalled.toNat =
      calls.countP CallPhase.Unsignalled + new.Unsignalled.toNat := by
  obtain ⟨hlt, hget⟩ := List.getElem?_eq_some_iff.mp h
  have hmem : old.Unsignalled.toNat ≤ calls.countP CallPhase.Unsignalled := by
    cases hold : old.Unsignalled with
    | false => exact Nat.zero_le _
    | true => exact List.countP_pos_iff.mpr ⟨old, List.mem_of_getElem? h, hold⟩
  rw [List.countP_set hlt, hget]
  cases hold : old.Unsignalled <;> cases hnew : new.Unsignalled <;>
    simp only [hold, Bool.toNat_false, Bool.toNat_true] at hmem ⊢ <;> simp <;> omega

theorem Refines.call {index : Nat} (h : updater.Refines abstract)
    (hstep : updater.callStep index = some next) :
    ∃ abstract : Triggered Nat, next.Refines abstract := by
  unfold callStep at hstep
  cases hcall : updater.calls[index]? with
  | none => simp only [hcall, reduceCtorEq] at hstep
  | some call =>
      have hcount := countP_set_call hcall
      rw [hcall] at hstep
      cases call with
      | clearing wait =>
          obtain ⟨manager, -, rfl⟩ := Option.map_eq_some_iff.mp hstep
          have hset := hcount (.setting wait)
          refine ⟨_, h.request rfl rfl ?_⟩
          simp only [CallPhase.Unsignalled, Bool.toNat_false, Bool.toNat_true] at hset
          simp only [Updater.unsignalled]
          omega
      | setting wait =>
          cases hstep
          have hset := hcount (if wait then .waiting else .returned)
          refine ⟨_, h.signal rfl rfl rfl ?_⟩
          have hquiet : (if wait then CallPhase.waiting else .returned).Unsignalled = false := by
            cases wait <;> rfl
          rw [hquiet] at hset
          simp only [CallPhase.Unsignalled, Bool.toNat_false, Bool.toNat_true] at hset
          simp only [Updater.unsignalled]
          omega
      | waiting =>
          dsimp only at hstep
          split at hstep
          · cases hstep
            have hset := hcount .returned
            refine ⟨_, h.frame rfl rfl rfl ?_⟩
            simp only [CallPhase.Unsignalled, Bool.toNat_false] at hset
            simp only [Updater.unsignalled]
            omega
          · cases hstep
      | returned => cases hstep

theorem manager_ready {manager next : Manager PeerID} {event : ManagerEvent PeerID}
    (h : manager.step event = some next) (hfinish : event ≠ .finishUpdate)
    (hrequest : event ≠ .requestUpdate) (hdrop : ∀ peerId, event ≠ .dropServer peerId) :
    next.ready = manager.ready := by
  unfold Manager.step at h
  split at h
  case h_4 =>
      obtain ⟨info, -, rfl⟩ := Option.map_eq_some_iff.mp h
      rfl
  case h_5 => exact absurd rfl hfinish
  case h_9 => exact absurd rfl hrequest
  case h_12 peerId => exact absurd rfl (hdrop peerId)
  all_goals
    cases h
    try rfl

theorem Refines.step {event : UpdaterEvent PeerID} (h : updater.Refines abstract)
    (hstep : updater.step event = some next) : ∃ abstract : Triggered Nat, next.Refines abstract := by
  cases event with
  | call wait =>
      cases hstep
      exact ⟨_, h.frame rfl rfl rfl (by simp [Updater.unsignalled, CallPhase.Unsignalled])⟩
  | act index => exact h.call hstep
  | dropServer peerId =>
      simp only [Updater.step] at hstep
      split at hstep
      · rename_i hall
        cases hstep
        exact ⟨_, h.frame ((congrArg _ hall).trans (Bool.and_true _)) rfl rfl rfl⟩
      · cases hstep
        refine ⟨_, h.request rfl rfl ?_⟩
        simp only [Updater.unsignalled, List.countP_append, List.countP_singleton,
          CallPhase.Unsignalled, if_true]
        omega
  | registerFailure peerId | unban peerId =>
      simp only [Updater.step] at hstep
      obtain ⟨manager, hmanager, rfl⟩ := Option.map_eq_some_iff.mp hstep
      exact ⟨_, h.frame (manager_ready hmanager (by simp) (by simp) (by simp)) rfl rfl rfl⟩
  | shutdown =>
      cases hstep
      exact ⟨_, h.request rfl rfl (Nat.add_assoc _ _ _).symm⟩
  | signalShutdown =>
      simp only [Updater.step] at hstep
      split at hstep
      · cases hstep
      · rename_i others hothers
        cases hstep
        exact ⟨_, h.signal rfl rfl rfl (by simp only [Updater.unsignalled, hothers]; omega)⟩
  | test alive =>
      simp only [Updater.step] at hstep
      split at hstep
      · rename_i hphase
        cases hstep
        refine ⟨_, h.test hphase ?_ rfl rfl⟩
        dsimp only
        split
        · exact .inr rfl
        · exact .inl rfl
      · cases hstep
  | clear =>
      simp only [Updater.step] at hstep
      split at hstep
      · rename_i hphase
        obtain ⟨manager, -, rfl⟩ := Option.map_eq_some_iff.mp hstep
        exact ⟨_, h.clear hphase rfl rfl rfl⟩
      · cases hstep
  | fetch found =>
      obtain ⟨hphase, manager, hmanager, rfl⟩ := updateStep_some hstep
      exact ⟨_, h.frame (manager_ready hmanager (by simp) (by simp) (by simp)) hphase.symm rfl rfl⟩
  | filterBlock | commit =>
      obtain ⟨hphase, manager, hmanager, rfl⟩ := updateStep_some hstep
      exact ⟨_, h.frame (manager_ready hmanager (by simp) (by simp) (by simp)) hphase.symm rfl rfl⟩
  | finishUpdate =>
      obtain ⟨hphase, manager, hmanager, rfl⟩ := updateStep_some hstep
      exact h.rest hphase rfl (fun _ => Manager.step_finishUpdate_ready hmanager) rfl rfl
  | abortUpdate =>
      obtain ⟨hphase, manager, hmanager, rfl⟩ := updateStep_some hstep
      exact h.rest hphase rfl (fun hraised => by cases hraised) rfl rfl
  | wake =>
      simp only [Updater.step] at hstep
      split at hstep
      · rename_i raised hphase
        cases hstep
        exact h.wake hphase rfl rfl rfl
      · cases hstep

omit [LinearOrder PeerID] in
theorem Refines.initial (manager : Manager PeerID) :
    (initial manager).Refines ⟨0, false, 0, .woken 0⟩ where
  reachable := (((Triggered.Reachable.start 0).step (.look rfl)).step (.rest rfl)).step (.wake rfl)
  trigger := rfl
  unsignalled := rfl
  bound seen hseen := by
    cases hseen
    exact Nat.le_refl _
  round := ⟨0, rfl⟩

theorem refines_run {manager : Manager PeerID} {events : List (UpdaterEvent PeerID)}
    (h : LeadsTo step (initial manager) events updater) :
    ∃ abstract : Triggered Nat, updater.Refines abstract := by
  have hstep : ∀ (state : Updater PeerID) (event : UpdaterEvent PeerID) (next : Updater PeerID),
      (∃ abstract : Triggered Nat, state.Refines abstract) → state.step event = some next →
      ∃ abstract : Triggered Nat, next.Refines abstract := by
    rintro state event next ⟨abstract, hrefines⟩ hnext
    exact hrefines.step hnext
  exact h.invariant hstep ⟨_, .initial manager⟩

/-- No request for an update is lost: when the thread rests and nobody is about to wake it, the
manager is ready and every call that waits can go on, unless the thread's last update has raised. -/
theorem requests_answered {manager : Manager PeerID} {events : List (UpdaterEvent PeerID)}
    {raised : Bool} (h : LeadsTo step (initial manager) events updater)
    (hwaiting : updater.thread = .waiting raised) (htrigger : updater.trigger = false)
    (hunsignalled : updater.unsignalled = 0) :
    raised = true ∨ updater.manager.ready = true ∧
      ∀ index, updater.calls[index]? = some .waiting →
        ∃ next, updater.step (.act index) = some next ∧ next.calls[index]? = some .returned := by
  obtain ⟨abstract, hrefines⟩ := refines_run h
  have hround := hrefines.round
  unfold Stands at hround
  rw [hwaiting] at hround
  obtain ⟨seen, hresting, hanswered⟩ := hround
  have hseen := hrefines.reachable.seen_eq (by rw [hresting]; rfl)
    (hrefines.trigger.trans htrigger) (hrefines.unsignalled.trans hunsignalled)
  cases raised with
  | true => exact .inl rfl
  | false =>
      have hready := hanswered rfl hseen
      refine .inr ⟨hready, fun index hcall =>
        ⟨{ updater with calls := updater.calls.set index .returned }, ?_, ?_⟩⟩
      · simp only [step, callStep, hcall, hready, if_true]
      · obtain ⟨hlt, -⟩ := List.getElem?_eq_some_iff.mp hcall
        exact List.getElem?_set_self hlt

def freshUpdater : Updater Nat :=
  initial
    { info := .makeEmpty [⟨"bloom", 0⟩]
      lists := {}
      activeAdapter := none
      banned := ∅
      ready := false
      phase := .idle }

/-- A call that waits comes while an update is under way, and one more update follows. -/
def asksTwice : List (UpdaterEvent Nat) :=
  [.call true, .act 0, .act 0, .test true, .clear, .call true, .act 1, .fetch fun _ => .empty,
    .filterBlock, .commit, .act 1, .finishUpdate, .wake, .test true, .clear, .fetch fun _ => .empty,
    .filterBlock, .commit, .finishUpdate]

def answeredUpdater : Updater Nat := (asksTwice.foldlM step freshUpdater).getD freshUpdater

theorem both_answered : answeredUpdater.manager.ready = true := by
  have hrun : LeadsTo step freshUpdater asksTwice answeredUpdater := rfl
  have hwaiting : answeredUpdater.thread = .waiting false := rfl
  rcases requests_answered hrun hwaiting rfl rfl with hraised | ⟨hready, -⟩
  · cases hraised
  · exact hready

end Updater
end Peerz.Client.Routing
