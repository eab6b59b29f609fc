import Mathlib.Algebra.BigOperators.Group.List.Basic
import Mathlib.Algebra.Field.Basic

/-! Attention of one query over the positions of a sequence. A masked position takes no part in the
softmax, so what stands there does not matter. -/
namespace Peerz.Library

variable {F : Type*}

/-- The scores of the first positions; the others are masked. -/
def causalMask (visible : Nat) (scores : List F) : List (Option F) :=
  scores.mapIdx fun position score => if position < visible then some score else none

@[simp] theorem length_causalMask (visible : Nat) (scores : List F) :
    (causalMask visible scores).length = scores.length :=
  List.length_mapIdx

theorem causalMask_append {visible : Nat} {scores : List F} (h : visible ≤ scores.length)
    (later : List F) :
    causalMask visible (scores ++ later) =
      causalMask visible scores ++ later.map fun _ => none := by
  unfold causalMask
  rw [List.mapIdx_append]
  congr 1
  apply List.ext_getElem
  · simp
  · intro position _ _
    rw [List.getElem_mapIdx, List.getElem_map]
    exact if_neg (by omega)

variable [Field F]

def softmax (exp : F → F) (scores : List (Option F)) : List F :=
  let weights := scores.map fun score => score.elim 0 exp
  weights.map fun weight => weight / weights.sum

def attend (exp : F → F) (visible : Nat) (scores values : List F) : F :=
  (List.zipWith (fun weight value => weight * value) (softmax exp (causalMask visible scores))
    values).sum

@[simp] theorem length_softmax (exp : F → F) (scores : List (Option F)) :
    (softmax exp scores).length = scores.length := by
  simp [softmax]

theorem softmax_append_masked (exp : F → F) (scores : List (Option F)) {α : Type*}
    (later : List α) :
    softmax exp (scores ++ later.map fun _ => none) =
      softmax exp scores ++ later.map fun _ => 0 := by
  unfold softmax
  simp

/-- Attention does not look past the visible positions. -/
theorem attend_append (exp : F → F) {visible : Nat} {scores values : List F}
    (hscores : visible ≤ scores.length) (hlength : values.length = scores.length)
    (laterScores laterValues : List F) :
    attend exp visible (scores ++ laterScores) (values ++ laterValues) =
      attend exp visible scores values := by
  unfold attend
  rw [causalMask_append hscores, softmax_append_masked,
    List.zipWith_append (by rw [length_softmax, length_causalMask, hlength]), List.sum_append]
  have hzero : ∀ later : List F, (List.zipWith (fun weight value => weight * value)
      (laterScores.map fun _ => (0 : F)) later).sum = 0 := by
    intro later
    apply List.sum_eq_zero
    intro product hproduct
    obtain ⟨position, hposition, rfl⟩ := List.mem_iff_getElem.mp hproduct
    simp
  rw [hzero, add_zero]

end Peerz.Library
