import Mathlib.Data.List.Basic

/-! Statements that raise or change a state. A raised error keeps the changes made before it. -/
namespace Peerz.Library

variable {ε σ α β : Type}

abbrev Statement (ε σ α : Type) := EStateM ε σ α

namespace Statement

def finalState (statement : Statement ε σ α) (state : σ) : σ :=
  match statement.run state with
  | .ok _ after => after
  | .error _ after => after

def expression (value : Except ε α) : Statement ε σ α :=
  match value with
  | .ok value => pure value
  | .error e => throw e

def Silent (statement : Statement ε σ α) : Prop :=
  ∀ state, (∃ value, statement.run state = .ok value state) ∨
    ∃ e, statement.run state = .error e state

def Raises (statement : Statement ε σ α) : Prop :=
  ∀ state, ∃ e, statement.run state = .error e state

theorem Raises.silent {statement : Statement ε σ α} (h : Raises statement) : Silent statement :=
  fun state => .inr (h state)

theorem Silent.finalState {statement : Statement ε σ α} (h : Silent statement) (state : σ) :
    statement.finalState state = state := by
  unfold Statement.finalState
  rcases h state with ⟨value, hrun⟩ | ⟨e, hrun⟩
  · rw [hrun]
  · rw [hrun]

theorem run_bind_ok {statement : Statement ε σ α} {state after : σ} {value : α}
    (h : statement.run state = .ok value after) (next : α → Statement ε σ β) :
    (statement >>= next).run state = (next value).run after := by
  unfold EStateM.run at h ⊢
  simp [bind, EStateM.bind, h]

theorem run_bind_error {statement : Statement ε σ α} {state after : σ} {e : ε}
    (h : statement.run state = .error e after) (next : α → Statement ε σ β) :
    (statement >>= next).run state = .error e after := by
  unfold EStateM.run at h ⊢
  simp [bind, EStateM.bind, h]

theorem Silent.bind {statement : Statement ε σ α} {next : α → Statement ε σ β}
    (h : Silent statement) (hnext : ∀ value, Silent (next value)) :
    Silent (statement >>= next) := by
  intro state
  rcases h state with ⟨value, hrun⟩ | ⟨e, hrun⟩
  · rw [run_bind_ok hrun]
    exact hnext value state
  · rw [run_bind_error hrun]
    exact .inr ⟨e, rfl⟩

theorem Raises.bind {statement : Statement ε σ α} (h : Raises statement)
    (next : α → Statement ε σ β) : Raises (statement >>= next) := by
  intro state
  obtain ⟨e, hrun⟩ := h state
  exact ⟨e, run_bind_error hrun next⟩

theorem Silent.bind_raises {statement : Statement ε σ α} {next : α → Statement ε σ β}
    (h : Silent statement) (hnext : ∀ value, Raises (next value)) :
    Raises (statement >>= next) := by
  intro state
  rcases h state with ⟨value, hrun⟩ | ⟨e, hrun⟩
  · rw [run_bind_ok hrun]
    exact hnext value state
  · exact ⟨e, run_bind_error hrun next⟩

theorem silent_pure (value : α) : Silent (pure value : Statement ε σ α) :=
  fun _ => .inl ⟨value, rfl⟩

theorem raises_throw (e : ε) : Raises (throw e : Statement ε σ α) := fun _ => ⟨e, rfl⟩

theorem silent_expression (value : Except ε α) : Silent (expression value : Statement ε σ α) := by
  cases value with
  | ok value => exact silent_pure value
  | error e => exact (raises_throw e).silent

theorem Silent.forM {items : List α} {body : α → Statement ε σ PUnit}
    (h : ∀ item, Silent (body item)) : Silent (items.forM body) := by
  induction items with
  | nil => exact silent_pure _
  | cons item rest ih => exact (h item).bind fun _ => ih

end Statement
end Peerz.Library
