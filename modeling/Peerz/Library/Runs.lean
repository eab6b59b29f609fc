import Mathlib.Data.List.Basic

/-! Runs of a system whose step is a partial function of the state and an event. An event
that is not enabled ends the run. -/
namespace Peerz.Library

variable {State Event : Type*} (step : State → Event → Option State)

/-- The predicate holds at the start and in every state the events lead to. -/
def EveryState (P : State → Prop) : State → List Event → Prop
  | state, [] => P state
  | state, event :: events =>
      P state ∧ ∀ next, step state event = some next → EveryState P next events

/-- Every step the events lead through meets the condition. -/
def EveryStep (ok : State → Event → Prop) : State → List Event → Prop
  | _, [] => True
  | state, event :: events =>
      ∀ next, step state event = some next → ok state event ∧ EveryStep ok next events

/-- The events are enabled one after the other and lead from one state to another. -/
def LeadsTo (start : State) (events : List Event) (final : State) : Prop :=
  events.foldlM step start = some final

/-- How many of the steps that the events lead through meet the condition. -/
def countSteps (ok : State → Event → Bool) : State → List Event → Nat
  | _, [] => 0
  | state, event :: events =>
      match step state event with
      | none => 0
      | some next => (if ok state event then 1 else 0) + countSteps ok next events

instance decidableEveryStep (ok : State → Event → Prop) [∀ state event, Decidable (ok state event)] :
    ∀ start events, Decidable (EveryStep step ok start events)
  | _, [] => .isTrue trivial
  | start, event :: events =>
      match hstep : step start event with
      | none => .isTrue fun next hnext => by cases hstep.symm.trans hnext
      | some next =>
          have := decidableEveryStep ok next events
          decidable_of_iff (ok start event ∧ EveryStep step ok next events)
            ⟨fun h other hother => by cases hstep.symm.trans hother; exact h, fun h => h next hstep⟩

instance decidableEveryState (P : State → Prop) [DecidablePred P] :
    ∀ start events, Decidable (EveryState step P start events)
  | start, [] => inferInstanceAs (Decidable (P start))
  | start, event :: events =>
      match hstep : step start event with
      | none => decidable_of_iff (P start)
          ⟨fun h => ⟨h, fun next hnext => by cases hstep.symm.trans hnext⟩, And.left⟩
      | some next =>
          have := decidableEveryState P next events
          decidable_of_iff (P start ∧ EveryState step P next events)
            ⟨fun h => ⟨h.1, fun other hother => by cases hstep.symm.trans hother; exact h.2⟩,
              fun h => ⟨h.1, h.2 next hstep⟩⟩

variable {step}

@[simp] theorem leadsTo_nil {start final : State} :
    LeadsTo step start [] final ↔ start = final := by
  simp [LeadsTo]

@[simp] theorem leadsTo_cons {start final : State} {event : Event} {events : List Event} :
    LeadsTo step start (event :: events) final ↔
      ∃ next, step start event = some next ∧ LeadsTo step next events final := by
  simp [LeadsTo, Option.bind_eq_some_iff]

theorem leadsTo_append {start final : State} {left right : List Event} :
    LeadsTo step start (left ++ right) final ↔
      ∃ middle, LeadsTo step start left middle ∧ LeadsTo step middle right final := by
  simp [LeadsTo, Option.bind_eq_some_iff]

theorem leadsTo_getD {start : State} {events : List Event}
    (h : (events.foldlM step start).isSome = true) :
    LeadsTo step start events ((events.foldlM step start).getD start) := by
  obtain ⟨final, hfinal⟩ := Option.isSome_iff_exists.mp h
  rw [hfinal]
  exact hfinal

theorem LeadsTo.unique {start final other : State} {events : List Event}
    (h : LeadsTo step start events final) (hother : LeadsTo step start events other) :
    final = other :=
  Option.some.inj (h.symm.trans hother)

/-- The invariant rule for runs of certain events only. -/
theorem LeadsTo.invariant_of {Inv : State → Prop} {ok : Event → Prop}
    (hstep : ∀ state event next, Inv state → ok event → step state event = some next → Inv next)
    {start final : State} {events : List Event} (h : LeadsTo step start events final)
    (hok : ∀ event ∈ events, ok event) (hstart : Inv start) : Inv final := by
  induction events generalizing start with
  | nil => exact leadsTo_nil.mp h ▸ hstart
  | cons event events ih =>
      obtain ⟨hfirst, hlater⟩ := List.forall_mem_cons.mp hok
      obtain ⟨next, hnext, hrest⟩ := leadsTo_cons.mp h
      exact ih hrest hlater (hstep start event next hstart hfirst hnext)

/-- The invariant rule: what one step keeps, every run keeps. -/
theorem LeadsTo.invariant {Inv : State → Prop}
    (hstep : ∀ state event next, Inv state → step state event = some next → Inv next)
    {start final : State} {events : List Event} (h : LeadsTo step start events final)
    (hstart : Inv start) : Inv final :=
  h.invariant_of (fun state event next hinv (_ : True) => hstep state event next hinv)
    (fun _ _ => trivial) hstart

/-- The invariant rule with the events so far. -/
theorem LeadsTo.history {Inv : List Event → State → Prop}
    (hstep : ∀ past state event next, Inv past state → step state event = some next →
      Inv (past ++ [event]) next)
    {start final : State} {events : List Event} (h : LeadsTo step start events final)
    (hstart : Inv [] start) : Inv events final := by
  suffices hgeneral : ∀ past, Inv past start → Inv (past ++ events) final from hgeneral [] hstart
  clear hstart
  induction events generalizing start with
  | nil =>
      intro past hpast
      rw [List.append_nil]
      exact leadsTo_nil.mp h ▸ hpast
  | cons event events ih =>
      intro past hpast
      obtain ⟨next, hnext, hrest⟩ := leadsTo_cons.mp h
      rw [List.append_cons]
      exact ih hrest (past ++ [event]) (hstep past start event next hpast hnext)

/-- The invariant rule for runs whose steps meet a condition. -/
theorem everyState_of_everyStep {P : State → Prop} {ok : State → Event → Prop}
    (hstep : ∀ state event next, P state → step state event = some next → ok state event → P next)
    {start : State} {events : List Event} (hstart : P start)
    (h : EveryStep step ok start events) : EveryState step P start events := by
  induction events generalizing start with
  | nil => exact hstart
  | cons event events ih =>
      refine ⟨hstart, fun next hnext => ?_⟩
      obtain ⟨hok, hrest⟩ := h next hnext
      exact ih (hstep start event next hstart hnext hok) hrest

/-- Where the condition on a step is exactly what keeps the predicate, a run keeps the
predicate exactly if all its steps meet the condition. -/
theorem everyState_iff_everyStep (Inv : State → Prop) {P : State → Prop} {ok : State → Event → Prop}
    (hinv : ∀ state event next, Inv state → step state event = some next → Inv next)
    (hstep : ∀ state event next, Inv state → P state → step state event = some next →
      (ok state event ↔ P next))
    {start : State} {events : List Event} (hstart : Inv start) :
    EveryState step P start events ↔ P start ∧ EveryStep step ok start events := by
  induction events generalizing start with
  | nil => simp [EveryState, EveryStep]
  | cons event events ih =>
      refine and_congr_right fun hP => forall_congr' fun next => imp_congr_right fun hnext => ?_
      rw [ih (hinv start event next hstart hnext), hstep start event next hstart hP hnext]

/-- A measure that each step raises by what is counted there. -/
theorem LeadsTo.measure {measure : State → Nat} {ok : State → Event → Bool}
    (hstep : ∀ state event next, step state event = some next →
      measure next = measure state + if ok state event then 1 else 0)
    {start final : State} {events : List Event} (h : LeadsTo step start events final) :
    measure final = measure start + countSteps step ok start events := by
  induction events generalizing start with
  | nil => exact (leadsTo_nil.mp h).symm ▸ rfl
  | cons event events ih =>
      obtain ⟨next, hnext, hrest⟩ := leadsTo_cons.mp h
      have hfirst := hstep start event next hnext
      have hlater := ih hrest
      rw [countSteps, hnext]
      dsimp only
      omega

theorem EveryStep.and_forall {ok : State → Event → Prop} {P : Event → Prop} {start : State}
    {events : List Event} (h : EveryStep step ok start events) (hall : ∀ event ∈ events, P event) :
    EveryStep step (fun state event => ok state event ∧ P event) start events := by
  induction events generalizing start with
  | nil => exact trivial
  | cons event events ih =>
      obtain ⟨hfirst, hrest⟩ := List.forall_mem_cons.mp hall
      exact fun next hnext => ⟨⟨(h next hnext).1, hfirst⟩, ih (h next hnext).2 hrest⟩

theorem EveryStep.and_everyState {ok : State → Event → Prop} {P : State → Prop} {start : State}
    {events : List Event} (h : EveryStep step ok start events)
    (hall : EveryState step P start events) :
    EveryStep step (fun state event => P state ∧ ok state event) start events := by
  induction events generalizing start with
  | nil => exact trivial
  | cons event events ih =>
      exact fun next hnext => ⟨⟨hall.1, (h next hnext).1⟩, ih (h next hnext).2 (hall.2 next hnext)⟩

theorem EveryState.mono {P Q : State → Prop} (himp : ∀ state, P state → Q state) {start : State}
    {events : List Event} (h : EveryState step P start events) : EveryState step Q start events := by
  induction events generalizing start with
  | nil => exact himp start h
  | cons event events ih => exact ⟨himp start h.1, fun next hnext => ih (h.2 next hnext)⟩

/-- The invariant rule for runs on which another predicate is known to hold throughout. -/
theorem EveryState.invariant {P Inv : State → Prop}
    (hstep : ∀ state event next, Inv state → step state event = some next → P next → Inv next)
    {start final : State} {events : List Event} (h : EveryState step P start events)
    (hrun : LeadsTo step start events final) (hstart : Inv start) : Inv final := by
  induction events generalizing start with
  | nil => exact leadsTo_nil.mp hrun ▸ hstart
  | cons event events ih =>
      obtain ⟨next, hnext, hrest⟩ := leadsTo_cons.mp hrun
      have hlater := h.2 next hnext
      apply ih hlater hrest
      apply hstep start event next hstart hnext
      cases events with
      | nil => exact hlater
      | cons event events => exact hlater.1

theorem EveryState.leadsTo {P : State → Prop} {start final : State} {left right : List Event}
    (h : EveryState step P start (left ++ right)) (hrun : LeadsTo step start left final) :
    P final := by
  induction left generalizing start with
  | nil =>
      obtain rfl := leadsTo_nil.mp hrun
      cases right with
      | nil => exact h
      | cons event events => exact h.1
  | cons event events ih =>
      obtain ⟨next, hnext, hrest⟩ := leadsTo_cons.mp hrun
      exact ih (h.2 next hnext) hrest

theorem EveryState.final {P : State → Prop} {start final : State} {events : List Event}
    (h : EveryState step P start events) (hrun : LeadsTo step start events final) : P final :=
  EveryState.leadsTo ((List.append_nil events).symm ▸ h) hrun

end Peerz.Library
