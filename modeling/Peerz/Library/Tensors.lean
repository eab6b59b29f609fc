import Mathlib.Algebra.BigOperators.Group.List.Basic
import Mathlib.Data.Fin.Tuple.Basic
import Mathlib.Logic.Equiv.Fin.Basic
import Mathlib.Tactic.Ring

/-! Dense tensors of any shape, and the operations that only move their entries. A view keeps the
row-major order of the entries, so it is known from the offsets of its indices. -/
namespace Peerz.Library

@[reducible] def Index : List Nat → Type
  | [] => Unit
  | size :: shape => Fin size × Index shape

namespace Index

/-- The row-major numbering of the indices. -/
def ravel : (shape : List Nat) → Index shape ≃ Fin shape.prod
  | [] => (Equiv.equivPUnit (Fin 1)).symm
  | size :: shape => ((Equiv.refl (Fin size)).prodCongr (ravel shape)).trans finProdFinEquiv

def offset {shape : List Nat} (index : Index shape) : Nat := (ravel shape index).val

@[simp] theorem offset_nil (index : Index []) : index.offset = 0 := rfl

@[simp] theorem offset_cons {size : Nat} {shape : List Nat} (index : Index (size :: shape)) :
    index.offset = @offset shape index.2 + shape.prod * index.1 :=
  rfl

end Index

structure Tensor (α : Type*) where
  shape : List Nat
  entry : Index shape → α

namespace Tensor
variable {α : Type*}

/-- `view` or `reshape`; `none` if the sizes do not agree. -/
def view? (tensor : Tensor α) (target : List Nat) : Option (Tensor α) :=
  if h : target.prod = tensor.shape.prod then
    some ⟨target, fun index =>
      tensor.entry ((Index.ravel tensor.shape).symm (Fin.cast h (Index.ravel target index)))⟩
  else none

/-- The size that `-1` stands for in a view; it must be the only one that fits. -/
def inferSize? (tensor : Tensor α) (known : List Nat) : Option Nat :=
  if known.prod ≠ 0 ∧ known.prod ∣ tensor.shape.prod then
    some (tensor.shape.prod / known.prod)
  else none

/-- The index of a tensor that an index of its broadcast form reads. -/
def broadcastIndex? : (shape target : List Nat) → Option (Index target → Index shape)
  | [], [] => some fun index => index
  | size :: shape, length :: target =>
      if h : length = size then
        (broadcastIndex? shape target).map fun read index => (Fin.cast h index.1, read index.2)
      else if h : 1 = size then
        (broadcastIndex? shape target).map fun read index => (Fin.cast h (Fin.last 0), read index.2)
      else none
  | _, _ => none

/-- `expand` or `broadcast_to` without new dimensions. -/
def broadcastTo? (tensor : Tensor α) (target : List Nat) : Option (Tensor α) :=
  (broadcastIndex? tensor.shape target).map fun read => ⟨target, tensor.entry ∘ read⟩

/-- `flatten(2, 3)`. -/
def flatten? (tensor : Tensor α) : Option (Tensor α) :=
  match tensor.shape with
  | first :: second :: third :: fourth :: rest =>
      tensor.view? (first :: second :: (third * fourth) :: rest)
  | _ => none

/-- `transpose(1, 2)`. -/
def transpose? : Tensor α → Option (Tensor α)
  | ⟨first :: second :: third :: rest, entry⟩ =>
      some ⟨first :: third :: second :: rest, fun (i, k, j, index) => entry (i, j, k, index)⟩
  | _ => none

/-- `tensor[:, :, position]`. -/
def select? (position : Nat) : Tensor α → Option (Tensor α)
  | ⟨first :: second :: size :: rest, entry⟩ =>
      if h : position < size then
        some ⟨first :: second :: rest, fun (i, j, index) => entry (i, j, ⟨position, h⟩, index)⟩
      else none
  | _ => none

/-- `tensor[:, :, :, start:start + length]`, one of the parts of a split. -/
def narrow? (start length : Nat) : Tensor α → Option (Tensor α)
  | ⟨first :: second :: third :: size :: rest, entry⟩ =>
      if h : start + length ≤ size then
        some ⟨first :: second :: third :: length :: rest, fun (i, j, k, l, index) =>
          entry (i, j, k, ⟨start + l, by omega⟩, index)⟩
      else none
  | _ => none

/-- `cat` along the second dimension. -/
def cat? : Tensor α → Tensor α → Option (Tensor α)
  | ⟨first :: size :: rest, entry⟩, ⟨first' :: size' :: rest', entry'⟩ =>
      if h : first' = first ∧ rest' = rest then
        some ⟨first :: (size + size') :: rest, fun (i, j, index) =>
          Fin.addCases (fun j => entry (i, j, index))
            (fun j => entry' (Fin.cast h.1.symm i, j, h.2 ▸ index)) j⟩
      else none
  | _, _ => none

theorem view?_eq {shape target : List Nat} {entry : Index shape → α}
    (source : Index target → Index shape) (hprod : target.prod = shape.prod)
    (hsource : ∀ index, (source index).offset = index.offset) :
    (⟨shape, entry⟩ : Tensor α).view? target = some ⟨target, fun index => entry (source index)⟩ := by
  unfold view?
  rw [dif_pos hprod]
  congr 2
  funext index
  refine congrArg entry ((Index.ravel shape).symm_apply_eq.mpr (Fin.ext ?_))
  exact (hsource index).symm

@[simp] theorem transpose?_eq {first second third : Nat} {rest : List Nat}
    (entry : Index (first :: second :: third :: rest) → α) :
    (⟨_, entry⟩ : Tensor α).transpose? =
      some ⟨first :: third :: second :: rest, fun (i, k, j, index) => entry (i, j, k, index)⟩ :=
  rfl

theorem broadcastIndex?_cons (size : Nat) (shape target : List Nat) :
    broadcastIndex? (size :: shape) (size :: target) =
      (broadcastIndex? shape target).map fun read index => (index.1, read index.2) :=
  dif_pos rfl

theorem broadcastIndex?_cons_one (length : Nat) (shape target : List Nat) :
    broadcastIndex? (1 :: shape) (length :: target) =
      (broadcastIndex? shape target).map fun read index => (0, read index.2) := by
  by_cases h : length = 1
  · subst h
    rw [broadcastIndex?_cons]
    congr 1
    funext read index
    exact congrArg (·, read index.2) (Subsingleton.elim _ _)
  · exact (dif_neg h).trans (dif_pos rfl)

theorem broadcastIndex?_self (shape : List Nat) :
    broadcastIndex? shape shape = some fun index => index := by
  induction shape with
  | nil => rfl
  | cons size shape ih =>
      rw [broadcastIndex?_cons, ih]
      rfl

theorem cat?_eq {first size size' : Nat} {rest : List Nat}
    (entry : Index (first :: size :: rest) → α) (entry' : Index (first :: size' :: rest) → α) :
    cat? ⟨_, entry⟩ ⟨_, entry'⟩ =
      some ⟨first :: (size + size') :: rest, fun (i, j, index) =>
        Fin.addCases (fun j => entry (i, j, index)) (fun j => entry' (i, j, index)) j⟩ :=
  dif_pos ⟨rfl, rfl⟩

end Tensor
end Peerz.Library
