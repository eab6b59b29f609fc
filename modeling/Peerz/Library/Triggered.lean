import Mathlib.Init

/-! A thread that works in rounds and rests on an event in between. A round starts with a look at
a shared value. A writer sets the event after its write, and the thread clears the event after its
rest and before the next look. -/
namespace Peerz.Library

variable {Value : Type*}

inductive Round (Value : Type*) where
  | looking
  | acting (seen : Value)
  | resting (seen : Value)
  | woken (seen : Value)
deriving DecidableEq

/-- The value that the round is about; none before the thread has looked. -/
def Round.seen : Round Value → Option Value
  | .looking => none
  | .acting seen | .resting seen | .woken seen => some seen

structure Triggered (Value : Type*) where
  value : Value
  trigger : Bool
  /-- writes whose writer has yet to set the event -/
  unsignalled : Nat
  round : Round Value

namespace Triggered

/-- A rest ends by the event or for another reason, such as a period that is over. -/
inductive Step : Triggered Value → Triggered Value → Prop
  | write {state : Triggered Value} (value : Value) :
      Step state { state with value := value, unsignalled := state.unsignalled + 1 }
  | signal {state : Triggered Value} {others : Nat} (pending : state.unsignalled = others + 1) :
      Step state { state with trigger := true, unsignalled := others }
  | look {state : Triggered Value} (looking : state.round = .looking) :
      Step state { state with round := .acting state.value }
  | rest {state : Triggered Value} {seen : Value} (acting : state.round = .acting seen) :
      Step state { state with round := .resting seen }
  | wake {state : Triggered Value} {seen : Value} (resting : state.round = .resting seen) :
      Step state { state with round := .woken seen }
  | clear {state : Triggered Value} {seen : Value} (woken : state.round = .woken seen) :
      Step state { state with round := .looking, trigger := false }

inductive Reachable : Triggered Value → Prop
  | start (value : Value) : Reachable ⟨value, false, 0, .looking⟩
  | step {state next : Triggered Value} (reached : Reachable state) (taken : Step state next) :
      Reachable next

/-- The value that the thread knows is the present one, or another round follows. -/
def Heard (state : Triggered Value) : Prop :=
  ∀ seen ∈ state.round.seen,
    seen = state.value ∨ state.trigger = true ∨ 0 < state.unsignalled

theorem Heard.step {state next : Triggered Value} (h : state.Heard) (hstep : Step state next) :
    next.Heard := by
  intro seen hseen
  cases hstep with
  | write value => exact .inr (.inr (Nat.succ_pos _))
  | signal pending => exact .inr (.inl rfl)
  | look looking => exact .inl (Option.some.inj hseen).symm
  | rest known | wake known => exact h seen (by rw [known]; exact hseen)
  | clear woken => cases hseen

theorem Reachable.heard {state : Triggered Value} (h : Reachable state) : state.Heard := by
  induction h with
  | start value => exact fun seen hseen => by cases hseen
  | step reached taken ih => exact ih.step taken

/-- No write is lost: where the event is not set and no writer is about to set it, the round is
about the present value. -/
theorem Reachable.seen_eq {state : Triggered Value} {seen : Value} (h : Reachable state)
    (hseen : state.round.seen = some seen) (htrigger : state.trigger = false)
    (hunsignalled : state.unsignalled = 0) : seen = state.value := by
  rcases h.heard seen hseen with hvalue | hset | hpending
  · exact hvalue
  · rw [htrigger] at hset
    cases hset
  · omega

end Triggered
end Peerz.Library
