import Mathlib.Logic.Function.Basic
import Peerz.Library.Runs

/-! Parties that take their steps in any order. Each step changes the state of one party, and may
depend on the states of all. -/
namespace Peerz.Library

variable {Party State Event : Type*} [DecidableEq Party]
  (step : Party → State → Event → Option State)
  (allowed : (Party → State) → Party → Event → Prop)
  [∀ states party event, Decidable (allowed states party event)]

def partyStep (states : Party → State) (event : Party × Event) : Option (Party → State) :=
  if allowed states event.1 event.2 then
    (step event.1 (states event.1) event.2).map (Function.update states event.1)
  else none

variable {step allowed} {states final : Party → State}

theorem partyStep_eq_some {event : Party × Event} {next : Party → State} :
    partyStep step allowed states event = some next ↔ allowed states event.1 event.2 ∧
      ∃ state, step event.1 (states event.1) event.2 = some state ∧
        Function.update states event.1 state = next := by
  unfold partyStep
  rw [Option.ite_none_right_eq_some, Option.map_eq_some_iff]

/-- What each party keeps in its own steps holds of all of them. -/
theorem partyStep_keeps (Inv : Party → State → Prop) {event : Party × Event}
    {next : Party → State}
    (hkeeps : ∀ state, Inv event.1 (states event.1) →
      step event.1 (states event.1) event.2 = some state → Inv event.1 state)
    (hstates : ∀ party, Inv party (states party))
    (hstep : partyStep step allowed states event = some next) (party : Party) :
    Inv party (next party) := by
  obtain ⟨-, state, hstate, rfl⟩ := partyStep_eq_some.mp hstep
  by_cases hparty : party = event.1
  · subst hparty
    rw [Function.update_self]
    exact hkeeps state (hstates event.1) hstate
  · rw [Function.update_of_ne hparty]
    exact hstates party

end Peerz.Library
