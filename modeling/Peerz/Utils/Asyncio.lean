import Peerz.Library.Runs

/-! `shield_and_wait` on an event loop. Only one coroutine of the loop runs at a time, so nothing
happens to the caller or to the task between the iterations that do not suspend. -/
namespace Peerz.Utils.Asyncio
open Library

inductive Ending (ε α : Type) where
  | result (value : α)
  | exception (error : ε)
  | cancelled
deriving DecidableEq

inductive Outcome (ε α : Type) where
  | returned (value : α)
  | raised (error : ε)
  | cancelledError
deriving DecidableEq

/-- Where the coroutine of the caller stands. -/
inductive Place (ε α : Type) where
  /-- it runs, at the head of the loop -/
  | looping
  /-- suspended on the future of `asyncio.shield`, with its ending once it is done -/
  | awaiting (future : Option (Ending ε α))
  | left (outcome : Outcome ε α)
deriving DecidableEq

structure Call (ε α : Type) where
  /-- the ending of the inner task, `none` while it runs -/
  task : Option (Ending ε α)
  place : Place ε α := .looping
  /-- a cancellation that the future could not take -/
  mustCancel : Bool := false
  /-- `cancel_exc is not None` -/
  cancelExc : Bool := false
  /-- whether the caller was ever cancelled -/
  callerCancelled : Bool := false
deriving DecidableEq

inductive Event (ε α : Type) where
  /-- one iteration of the loop, up to where it suspends or ends -/
  | iterate
  | taskEnds (ending : Ending ε α)
  /-- the callback of `asyncio.shield` on the task -/
  | shieldCallback
  /-- the event loop resumes the caller -/
  | wakeUp
  | cancelCaller
deriving DecidableEq

variable {ε α : Type}

/-- A turn of the event loop: whatever is not a cancellation of the caller. -/
def Event.isTurn : Event ε α → Bool
  | .cancelCaller => false
  | _ => true

namespace Call

/-- What the `await` of an iteration gets. -/
def receive (call : Call ε α) : Ending ε α → Call ε α
  | .result value =>
      { call with place := .left (if call.cancelExc then .cancelledError else .returned value) }
  | .exception error => { call with place := .left (.raised error) }
  | .cancelled => { call with place := .looping, cancelExc := true }

def step (call : Call ε α) (event : Event ε α) : Option (Call ε α) :=
  match event, call.place, call.task with
  -- `shield` returns a task that is done, and awaiting that does not suspend
  | .iterate, .looping, some ending => some (call.receive ending)
  | .iterate, .looping, none => some { call with place := .awaiting none }
  | .taskEnds ending, .awaiting _, none => some { call with task := some ending }
  | .shieldCallback, .awaiting none, some ending =>
      some { call with place := .awaiting (some ending) }
  | .wakeUp, .awaiting (some ending), _ =>
      if call.mustCancel then some ({ call with mustCancel := false }.receive .cancelled)
      else some (call.receive ending)
  | .cancelCaller, .awaiting none, _ =>
      some { call with place := .awaiting (some .cancelled), callerCancelled := true }
  | .cancelCaller, .awaiting (some _), _ =>
      some { call with mustCancel := true, callerCancelled := true }
  | _, _, _ => none

def expected (callerCancelled : Bool) : Ending ε α → Outcome ε α
  | .result value => if callerCancelled then .cancelledError else .returned value
  | .exception error => .raised error
  | .cancelled => .cancelledError

theorem receive_task (call : Call ε α) (ending : Ending ε α) :
    (call.receive ending).task = call.task := by
  cases ending <;> rfl

/-- A cancellation has reached the coroutine, or will when it is resumed. -/
def Signalled (call : Call ε α) : Prop :=
  call.cancelExc = true ∨ call.mustCancel = true ∨ call.place = .awaiting (some .cancelled)

/-- What holds of every call: a future is done with its task or is cancelled, and a call that has
left has done so with its task. -/
structure Sound (call : Call ε α) : Prop where
  running : (∀ future, call.place ≠ .awaiting (some future)) → call.mustCancel = false
  future : ∀ ending, call.place = .awaiting (some ending) →
    ending = .cancelled ∨ call.task = some ending
  signalled : call.task ≠ some .cancelled →
    (call.Signalled ↔ call.callerCancelled = true) ∨ ∃ outcome, call.place = .left outcome
  left : ∀ outcome, call.place = .left outcome → ∃ ending, call.task = some ending ∧
    ending ≠ .cancelled ∧ outcome = expected call.callerCancelled ending

theorem Sound.new (task : Option (Ending ε α)) : Sound { task := task } where
  running _ := rfl
  future := nofun
  signalled _ := .inl (by simp [Signalled])
  left := nofun

theorem Sound.receive_cancelled {call : Call ε α} (h : call.Sound)
    (hsignalled : call.task = some .cancelled ∨ call.Signalled)
    (hnotLeft : ∀ outcome, call.place ≠ .left outcome) :
    Sound ({ call with mustCancel := false }.receive .cancelled) where
  running _ := rfl
  future := nofun
  signalled htask := by
    have hcall : call.Signalled := hsignalled.resolve_left htask
    rcases h.signalled htask with hiff | ⟨outcome, hleft⟩
    · exact .inl ⟨fun _ => hiff.mp hcall, fun _ => .inl rfl⟩
    · exact absurd hleft (hnotLeft outcome)
  left := nofun

theorem Sound.receive_task {call : Call ε α} (h : call.Sound) {ending : Ending ε α}
    (htask : call.task = some ending) (hmust : call.mustCancel = false)
    (hplace : call.place = .looping ∨ call.place = .awaiting (some ending)) :
    Sound (call.receive ending) := by
  have hnotLeft (outcome : Outcome ε α) : call.place ≠ .left outcome := by
    rcases hplace with hplace | hplace <;> simp [hplace]
  cases ending with
  | cancelled =>
      have hsame : { call with mustCancel := false } = call := by rw [← hmust]
      exact hsame ▸ h.receive_cancelled (.inl htask) hnotLeft
  | exception error =>
      refine ⟨fun _ => hmust, nofun, fun _ => .inr ⟨_, rfl⟩, ?_⟩
      rintro outcome ⟨⟩
      exact ⟨_, htask, nofun, rfl⟩
  | result value =>
      refine ⟨fun _ => hmust, nofun, fun _ => .inr ⟨_, rfl⟩, ?_⟩
      rintro outcome ⟨⟩
      refine ⟨_, htask, nofun, ?_⟩
      have hiff : call.cancelExc = true ↔ call.callerCancelled = true := by
        rcases h.signalled (by simp [htask]) with hiff | ⟨outcome, hleft⟩
        · rcases hplace with hplace | hplace <;> simpa [Signalled, hmust, hplace] using hiff
        · exact absurd hleft (hnotLeft outcome)
      exact if_congr hiff rfl rfl

theorem step_cases {call next : Call ε α} {event : Event ε α} (h : call.step event = some next) :
    (event = .iterate ∧ call.place = .looping ∧
      (call.task = none ∧ next = { call with place := .awaiting none } ∨
        ∃ ending, call.task = some ending ∧ next = call.receive ending)) ∨
    (∃ ending future, event = .taskEnds ending ∧ call.place = .awaiting future ∧
      call.task = none ∧ next = { call with task := some ending }) ∨
    (∃ ending, event = .shieldCallback ∧ call.place = .awaiting none ∧ call.task = some ending ∧
      next = { call with place := .awaiting (some ending) }) ∨
    (∃ ending, event = .wakeUp ∧ call.place = .awaiting (some ending) ∧
      (call.mustCancel = true ∧ next = { call with mustCancel := false }.receive .cancelled ∨
        call.mustCancel = false ∧ next = call.receive ending)) ∨
    (event = .cancelCaller ∧ (call.place = .awaiting none ∧
        next = { call with place := .awaiting (some .cancelled), callerCancelled := true } ∨
      ∃ ending, call.place = .awaiting (some ending) ∧
        next = { call with mustCancel := true, callerCancelled := true })) := by
  unfold step at h
  split at h
  · rename_i ending hplace htask
    exact .inl ⟨rfl, hplace, .inr ⟨ending, htask, (Option.some.inj h).symm⟩⟩
  · rename_i hplace htask
    exact .inl ⟨rfl, hplace, .inl ⟨htask, (Option.some.inj h).symm⟩⟩
  · rename_i ending future hplace htask
    exact .inr (.inl ⟨ending, future, rfl, hplace, htask, (Option.some.inj h).symm⟩)
  · rename_i ending hplace htask
    exact .inr (.inr (.inl ⟨ending, rfl, hplace, htask, (Option.some.inj h).symm⟩))
  · rename_i ending hplace
    refine .inr (.inr (.inr (.inl ⟨ending, rfl, hplace, ?_⟩)))
    split at h
    · exact .inl ⟨‹_›, (Option.some.inj h).symm⟩
    · exact .inr ⟨Bool.eq_false_iff.mpr ‹_›, (Option.some.inj h).symm⟩
  · rename_i hplace
    exact .inr (.inr (.inr (.inr ⟨rfl, .inl ⟨hplace, (Option.some.inj h).symm⟩⟩)))
  · rename_i ending hplace
    exact .inr (.inr (.inr (.inr ⟨rfl, .inr ⟨ending, hplace, (Option.some.inj h).symm⟩⟩)))
  · cases h

theorem Sound.step {call next : Call ε α} {event : Event ε α} (h : call.Sound)
    (hstep : call.step event = some next) : next.Sound := by
  obtain ⟨-, hplace, ⟨htask, rfl⟩ | ⟨ending, htask, rfl⟩⟩ | ⟨ending, future, -, hplace, htask, rfl⟩ |
    ⟨ending, -, hplace, htask, rfl⟩ | ⟨ending, -, hplace, ⟨hmust, rfl⟩ | ⟨hmust, rfl⟩⟩ |
    ⟨-, ⟨hplace, rfl⟩ | ⟨ending, hplace, rfl⟩⟩ := step_cases hstep
  · -- the task runs, and the caller waits for it
    have hmust := h.running (by simp [hplace])
    refine ⟨fun _ => hmust, nofun, fun hne => .inl ?_, nofun⟩
    rcases h.signalled hne with hiff | ⟨outcome, hleft⟩
    · simpa [Signalled, hplace] using hiff
    · simp [hplace] at hleft
  · exact h.receive_task htask (h.running (by simp [hplace])) (.inl hplace)
  · refine ⟨h.running, fun other hother => ?_, fun hne => ?_, fun outcome hleft => ?_⟩
    · rcases h.future other hother with hcancelled | hnone
      · exact .inl hcancelled
      · rw [htask] at hnone
        cases hnone
    · exact h.signalled (by simp [htask])
    · simp [hplace] at hleft
  · have hmust := h.running (by simp [hplace])
    refine ⟨fun _ => hmust, ?_, fun hne => .inl ?_, nofun⟩
    · rintro other ⟨⟩
      exact .inr htask
    · have hending : ending ≠ .cancelled := fun hcancelled => hne (hcancelled ▸ htask)
      rcases h.signalled hne with hiff | ⟨outcome, hleft⟩
      · simpa [Signalled, hplace, hending] using hiff
      · simp [hplace] at hleft
  · exact h.receive_cancelled (.inr (.inr (.inl hmust))) (by simp [hplace])
  · rcases h.future ending hplace with rfl | htask
    · have hsame : { call with mustCancel := false } = call := by rw [← hmust]
      exact hsame ▸ h.receive_cancelled (.inr (.inr (.inr hplace))) (by simp [hplace])
    · exact h.receive_task htask hmust (.inr hplace)
  · refine ⟨fun hno => absurd rfl (hno .cancelled), ?_, fun _ => .inl ?_, nofun⟩
    · rintro other ⟨⟩
      exact .inl rfl
    · simp [Signalled]
  · refine ⟨fun hno => absurd hplace (hno ending), h.future, fun _ => .inl ?_, ?_⟩
    · simp [Signalled]
    · intro outcome hleft
      simp [hplace] at hleft

/-! The turns that the event loop takes after the task has ended. -/

/-- How many turns the event loop still takes for a call whose task has not been cancelled. -/
def turnsLeft (call : Call ε α) : Nat :=
  match call.place with
  | .awaiting none => 3
  | .awaiting (some _) => 2
  | .looping => 1
  | .left _ => 0

theorem receive_turnsLeft (call : Call ε α) {ending : Ending ε α} (h : ending ≠ .cancelled) :
    (call.receive ending).turnsLeft = 0 := by
  cases ending with
  | result value => rfl
  | exception error => rfl
  | cancelled => exact absurd rfl h

/-- Every turn brings the call closer to its end, and a cancellation does not keep it from that. -/
theorem turnsLeft_step {call next : Call ε α} {event : Event ε α} {ending : Ending ε α}
    (htask : call.task = some ending) (hending : ending ≠ .cancelled)
    (hstep : call.step event = some next) :
    next.task = some ending ∧
      next.turnsLeft + (if event.isTurn then 1 else 0) ≤ call.turnsLeft := by
  obtain ⟨rfl, hplace, ⟨hnone, rfl⟩ | ⟨other, hother, rfl⟩⟩ | ⟨other, future, -, hplace, hnone, rfl⟩ |
    ⟨other, rfl, hplace, hother, rfl⟩ | ⟨other, rfl, hplace, ⟨hmust, rfl⟩ | ⟨hmust, rfl⟩⟩ |
    ⟨rfl, ⟨hplace, rfl⟩ | ⟨other, hplace, rfl⟩⟩ := step_cases hstep
  · rw [htask] at hnone
    cases hnone
  · obtain rfl := Option.some.inj (htask.symm.trans hother)
    refine ⟨(call.receive_task ending).trans htask, ?_⟩
    rw [call.receive_turnsLeft hending, turnsLeft, hplace]
    exact Nat.le_refl 1
  · rw [htask] at hnone
    cases hnone
  · exact ⟨htask, by simp [turnsLeft, hplace, Event.isTurn]⟩
  · exact ⟨htask, by simp [turnsLeft, receive, hplace, Event.isTurn]⟩
  · refine ⟨(call.receive_task other).trans htask, ?_⟩
    cases other <;> simp [turnsLeft, receive, hplace, Event.isTurn]
  · exact ⟨htask, by simp [turnsLeft, hplace, Event.isTurn]⟩
  · exact ⟨htask, by simp [turnsLeft, hplace, Event.isTurn]⟩

theorem turnsLeft_run {call later : Call ε α} {events : List (Event ε α)} {ending : Ending ε α}
    (htask : call.task = some ending) (hending : ending ≠ .cancelled)
    (hrun : LeadsTo step call events later) :
    later.task = some ending ∧ later.turnsLeft + events.countP Event.isTurn ≤ call.turnsLeft := by
  induction events generalizing call with
  | nil => exact leadsTo_nil.mp hrun ▸ ⟨htask, Nat.le_refl _⟩
  | cons event events ih =>
      obtain ⟨next, hnext, hrest⟩ := leadsTo_cons.mp hrun
      obtain ⟨hsame, hfirst⟩ := turnsLeft_step htask hending hnext
      obtain ⟨hlater, hbound⟩ := ih hsame hrest
      refine ⟨hlater, ?_⟩
      rw [List.countP_cons]
      omega

theorem exists_turn {call : Call ε α} (htask : call.task ≠ none)
    (hnotLeft : ∀ outcome, call.place ≠ .left outcome) :
    ∃ event, event.isTurn = true ∧ (call.step event).isSome = true := by
  obtain ⟨ending, hending⟩ := Option.ne_none_iff_exists'.mp htask
  cases hplace : call.place with
  | looping => exact ⟨.iterate, rfl, by simp [step, hplace, hending]⟩
  | awaiting future =>
      cases future with
      | none => exact ⟨.shieldCallback, rfl, by simp [step, hplace, hending]⟩
      | some other =>
          refine ⟨.wakeUp, rfl, ?_⟩
          simp only [step, hplace]
          split <;> rfl
  | left outcome => exact absurd hplace (hnotLeft outcome)

/-! A task that has been cancelled: every iteration gets its cancellation again. -/

theorem iterate_cancelled {call : Call ε α} (htask : call.task = some .cancelled)
    (hplace : call.place = .looping) (count : Nat) :
    ∃ later, LeadsTo step call (List.replicate count .iterate) later ∧
      later.task = some .cancelled ∧ later.place = .looping := by
  induction count generalizing call with
  | zero => exact ⟨call, leadsTo_nil.mpr rfl, htask, hplace⟩
  | succ count ih =>
      have hstep : call.step .iterate = some (call.receive .cancelled) := by
        simp [step, hplace, htask]
      obtain ⟨later, hrun, hlater⟩ := @ih (call.receive .cancelled) htask rfl
      exact ⟨later, leadsTo_cons.mpr ⟨_, hstep, hrun⟩, hlater⟩

/-- Whatever the call is doing when its task is cancelled, it comes to loop. -/
theorem exists_looping {call : Call ε α} (h : call.Sound) (htask : call.task = some .cancelled) :
    ∃ events later, LeadsTo step call events later ∧ later.task = some .cancelled ∧
      later.place = .looping := by
  have hawaiting (call : Call ε α) (ending : Ending ε α) (htask : call.task = some .cancelled)
      (hplace : call.place = .awaiting (some ending)) (hending : ending = .cancelled) :
      ∃ later, LeadsTo step call [.wakeUp] later ∧ later.task = some .cancelled ∧
        later.place = .looping := by
    subst hending
    refine ⟨{ call with mustCancel := false }.receive .cancelled, ?_, htask, rfl⟩
    have hstep : call.step .wakeUp =
        some ({ call with mustCancel := false }.receive .cancelled) := by
      simp only [step, hplace]
      split
      · rfl
      · rename_i hmust
        rw [Bool.not_eq_true] at hmust
        simp only [receive, hmust]
    exact leadsTo_cons.mpr ⟨_, hstep, leadsTo_nil.mpr rfl⟩
  cases hplace : call.place with
  | looping => exact ⟨[], call, leadsTo_nil.mpr rfl, htask, hplace⟩
  | awaiting future =>
      cases future with
      | some ending =>
          have hending : ending = .cancelled := by
            rcases h.future ending hplace with hcancelled | hother
            · exact hcancelled
            · exact Option.some.inj (hother.symm.trans htask)
          obtain ⟨later, hrun, hlater⟩ := hawaiting call ending htask hplace hending
          exact ⟨[.wakeUp], later, hrun, hlater⟩
      | none =>
          have hstep : call.step .shieldCallback =
              some { call with place := .awaiting (some .cancelled) } := by
            simp [step, hplace, htask]
          obtain ⟨later, hrun, hlater⟩ := hawaiting { call with place := .awaiting (some .cancelled) }
            .cancelled htask rfl rfl
          exact ⟨[.shieldCallback, .wakeUp], later, leadsTo_cons.mpr ⟨_, hstep, hrun⟩, hlater⟩
  | left outcome =>
      obtain ⟨ending, hending, hne, -⟩ := h.left outcome hplace
      exact absurd (Option.some.inj (hending.symm.trans htask)) hne

/-- The call ends with its task: it does not leave before, and it leaves with what the task and the
cancellations of the caller call for. Once the task has ended, the event loop takes finitely many
turns for the call, however often the caller is still cancelled, and has one to take until the call
has left. -/
structure EndsWithTask (call : Call ε α) : Prop where
  outcome : ∀ outcome, call.place = .left outcome →
    ∃ ending, call.task = some ending ∧ outcome = expected call.callerCancelled ending
  finite : call.task ≠ none → ∃ bound, ∀ events later, LeadsTo step call events later →
    events.countP Event.isTurn ≤ bound
  leaves : call.task ≠ none → ∀ events later, LeadsTo step call events later →
    (∃ outcome, later.place = .left outcome) ∨
      ∃ event, event.isTurn = true ∧ (later.step event).isSome = true

theorem Sound.not_endsWithTask {call : Call ε α} (h : call.Sound)
    (htask : call.task = some .cancelled) : ¬ call.EndsWithTask := by
  intro hends
  obtain ⟨bound, hbound⟩ := hends.finite (by simp [htask])
  obtain ⟨first, middle, hfirst, hmiddle, hplace⟩ := exists_looping h htask
  obtain ⟨later, hlater, -⟩ := iterate_cancelled hmiddle hplace (bound + 1)
  have hcount := hbound _ later (leadsTo_append.mpr ⟨middle, hfirst, hlater⟩)
  rw [List.countP_append, List.countP_replicate] at hcount
  simp only [Event.isTurn, if_true] at hcount
  omega

end Call

/-- In every run, the call ends with its task exactly if the task has not been cancelled itself. -/
theorem shieldAndWait_ends_iff {task : Option (Ending ε α)} {events : List (Event ε α)}
    {call : Call ε α} (h : LeadsTo Call.step { task := task } events call) :
    call.EndsWithTask ↔ call.task ≠ some .cancelled := by
  have hsound : call.Sound :=
    h.invariant (fun state event next hstate hstep => hstate.step hstep) (Call.Sound.new task)
  constructor
  · exact fun hends htask => hsound.not_endsWithTask htask hends
  · intro hne
    refine ⟨fun outcome hleft => ?_, fun hended => ?_, fun hended later final hrun => ?_⟩
    · obtain ⟨ending, hending, -, houtcome⟩ := hsound.left outcome hleft
      exact ⟨ending, hending, houtcome⟩
    · obtain ⟨ending, hending⟩ := Option.ne_none_iff_exists'.mp hended
      refine ⟨call.turnsLeft, fun later final hrun => ?_⟩
      have hcount := (Call.turnsLeft_run hending (fun hc => hne (hc ▸ hending)) hrun).2
      omega
    · obtain ⟨ending, hending⟩ := Option.ne_none_iff_exists'.mp hended
      have hfinal := (Call.turnsLeft_run hending (fun hc => hne (hc ▸ hending)) hrun).1
      by_cases hleft : ∃ outcome, final.place = .left outcome
      · exact .inl hleft
      · exact .inr (Call.exists_turn (by simp [hfinal]) fun outcome hplace =>
          hleft ⟨outcome, hplace⟩)

/-- The caller is cancelled twice before the task ends with a value. -/
theorem shieldAndWait_ends_callerCancelled :
    let call : Call Unit Nat :=
      { task := some (.result 5), place := .left .cancelledError, cancelExc := true,
        callerCancelled := true }
    LeadsTo Call.step { task := none } [.iterate, .cancelCaller, .cancelCaller, .wakeUp, .iterate,
      .taskEnds (.result 5), .shieldCallback, .wakeUp] call ∧ call.EndsWithTask := by
  intro call
  have hrun : LeadsTo Call.step { task := none } [.iterate, .cancelCaller, .cancelCaller, .wakeUp,
    .iterate, .taskEnds (.result 5), .shieldCallback, .wakeUp] call := rfl
  exact ⟨hrun, (shieldAndWait_ends_iff hrun).mpr nofun⟩

/-- The task is cancelled while the caller waits for it. -/
theorem shieldAndWait_loops :
    let call : Call Unit Nat := { task := some .cancelled, place := .awaiting none }
    LeadsTo Call.step { task := none } [.iterate, .taskEnds .cancelled] call ∧
      ¬ call.EndsWithTask := by
  intro call
  have hrun : LeadsTo Call.step { task := none } [.iterate, .taskEnds .cancelled] call := rfl
  have hsound : call.Sound :=
    hrun.invariant (fun state event next hstate hstep => hstate.step hstep) (Call.Sound.new none)
  exact ⟨hrun, hsound.not_endsWithTask rfl⟩

end Peerz.Utils.Asyncio
