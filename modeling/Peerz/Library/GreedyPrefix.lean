import Mathlib.Algebra.BigOperators.Group.List.Basic
import Mathlib.Algebra.Order.BigOperators.Group.List
import Mathlib.Data.Int.Order.Basic
import Mathlib.Tactic.Linarith

/-! Items taken from the front of a list until their weight is enough. -/
namespace Peerz.Library

variable {α : Type*} (weight : α → Nat)

/-- The number of items taken; at least one is, if there is any. -/
def enoughCount : Int → List α → Nat
  | _, [] => 0
  | needed, item :: rest =>
      1 + if needed ≤ weight item then 0 else enoughCount (needed - weight item) rest

def totalWeight (items : List α) : Nat := (items.map weight).sum

@[simp] theorem totalWeight_cons (item : α) (rest : List α) :
    totalWeight weight (item :: rest) = weight item + totalWeight weight rest :=
  rfl

@[simp] theorem totalWeight_nil : totalWeight weight [] = 0 := rfl

theorem enoughCount_le (needed : Int) (items : List α) :
    enoughCount weight needed items ≤ items.length := by
  induction items generalizing needed with
  | nil => exact le_rfl
  | cons item rest ih =>
      have hrest := ih (needed - weight item)
      simp only [enoughCount, List.length_cons]
      split <;> omega

theorem enough_or_all (needed : Int) (items : List α) :
    needed ≤ totalWeight weight (items.take (enoughCount weight needed items)) ∨
      enoughCount weight needed items = items.length := by
  induction items generalizing needed with
  | nil => exact .inr rfl
  | cons item rest ih =>
      by_cases henough : needed ≤ weight item
      · refine .inl ?_
        simp [enoughCount, henough]
      · have hcount : enoughCount weight needed (item :: rest) =
            enoughCount weight (needed - weight item) rest + 1 := by
          simp [enoughCount, henough, Nat.add_comm]
        rw [hcount, List.take_succ_cons, totalWeight_cons, List.length_cons]
        rcases ih (needed - weight item) with hrest | hall
        · left
          push_cast
          omega
        · right
          rw [hall]

theorem not_enough_before {needed : Int} (hneeded : 0 < needed) {items : List α} {fewer : Nat}
    (hfewer : fewer < enoughCount weight needed items) :
    totalWeight weight (items.take fewer) < needed := by
  induction items generalizing needed fewer with
  | nil => cases hfewer
  | cons item rest ih =>
      cases fewer with
      | zero => simpa using hneeded
      | succ fewer =>
          by_cases henough : needed ≤ weight item
          · simp [enoughCount, henough] at hfewer
          · have hrest : fewer < enoughCount weight (needed - weight item) rest := by
              simp only [enoughCount, henough, if_false] at hfewer
              omega
            have hlt := ih (by omega) hrest
            rw [List.take_succ_cons, totalWeight_cons]
            push_cast
            omega

end Peerz.Library
