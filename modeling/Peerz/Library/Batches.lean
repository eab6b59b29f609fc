import Mathlib.Data.List.Induction
import Mathlib.Data.List.OfFn
import Mathlib.Data.List.Forall2
import Mathlib.Tactic.Common

/-! A list cut into parts of one size, and tensors that are kept by columns: at each position, the
values of all the rows of a batch. -/
namespace Peerz.Library

variable {α β γ : Type*}

/-- `torch.split`: the last part may be shorter, and an empty list has one part. -/
def torchSplit (size : Nat) (items : List α) : List (List α) :=
  (List.range (max ((items.length + size - 1) / size) 1)).map fun part =>
    (items.drop (part * size)).take size

theorem flatten_parts (size count : Nat) (items : List α) :
    ((List.range count).map fun part => (items.drop (part * size)).take size).flatten =
      items.take (count * size) := by
  induction count with
  | zero => simp
  | succ count ih =>
      rw [List.range_succ, List.map_append, List.flatten_append, ih, List.map_singleton,
        List.flatten_singleton, Nat.succ_mul, List.take_add]

theorem flatten_torchSplit {size : Nat} (hsize : 0 < size) (items : List α) :
    (torchSplit size items).flatten = items := by
  rw [torchSplit, flatten_parts, List.take_of_length_le]
  have hparts : items.length ≤ (items.length + size - 1) / size * size := by
    have := Nat.div_add_mod (items.length + size - 1) size
    have := Nat.mod_lt (items.length + size - 1) hsize
    rw [Nat.mul_comm]
    omega
  exact hparts.trans (Nat.mul_le_mul_right size (le_max_left _ _))

theorem mem_of_mem_torchSplit {size : Nat} {items part : List α}
    (h : part ∈ torchSplit size items) : ∀ item ∈ part, item ∈ items := by
  obtain ⟨count, -, rfl⟩ := List.mem_map.mp h
  exact fun item hitem => List.mem_of_mem_drop (List.mem_of_mem_take hitem)

theorem torchSplit_map (f : α → β) (size : Nat) (items : List α) :
    torchSplit size (items.map f) = (torchSplit size items).map (List.map f) := by
  unfold torchSplit
  rw [List.length_map, List.map_map]
  apply List.map_congr_left
  intro part _
  rw [Function.comp_apply, List.map_take, List.map_drop]

theorem torchSplit_zip {size : Nat} {left : List α} {right : List β}
    (h : left.length = right.length) :
    torchSplit size (left.zip right) =
      ((torchSplit size left).zip (torchSplit size right)).map fun parts => parts.1.zip parts.2 := by
  unfold torchSplit
  rw [List.length_zip, ← h, min_self, List.zip_map', List.map_map]
  apply List.map_congr_left
  intro part _
  simp only [Function.comp_apply, List.zip, ← List.drop_zipWith, ← List.take_zipWith]

theorem length_eq_of_mem_zip_torchSplit {size : Nat} {left : List α} {right : List β}
    (h : left.length = right.length) {parts : List α × List β}
    (hparts : parts ∈ (torchSplit size left).zip (torchSplit size right)) :
    parts.1.length = parts.2.length := by
  unfold torchSplit at hparts
  rw [← h, List.zip_map'] at hparts
  obtain ⟨part, -, rfl⟩ := List.mem_map.mp hparts
  rw [List.length_take, List.length_take, List.length_drop, List.length_drop, h]

theorem torchSplit_ne_nil (size : Nat) (items : List α) : torchSplit size items ≠ [] := by
  unfold torchSplit
  rw [ne_eq, List.map_eq_nil_iff, List.range_eq_nil]
  omega

theorem forall₂_flatten {R : α → β → Prop} {lefts : List (List α)} {rights : List (List β)}
    (h : List.Forall₂ (List.Forall₂ R) lefts rights) :
    List.Forall₂ R lefts.flatten rights.flatten := by
  induction h with
  | nil => exact .nil
  | cons hpart _ ih =>
      rw [List.flatten_cons, List.flatten_cons]
      exact List.rel_append hpart ih

theorem forall₂_getElem? {R : α → β → Prop} {items : List α} {results : List β} {position : Nat}
    {item : α} {result : β} (h : List.Forall₂ R items results) (hitem : items[position]? = some item)
    (hresult : results[position]? = some result) : R item result := by
  obtain ⟨hleft, rfl⟩ := List.getElem?_eq_some_iff.mp hitem
  obtain ⟨hright, rfl⟩ := List.getElem?_eq_some_iff.mp hresult
  exact h.get hleft hright

theorem forall₂_of_zipIdx {R : α → β → Prop} {items : List α} {results : List β}
    (h : List.Forall₂ (fun item result => R item.1 result) items.zipIdx results) :
    List.Forall₂ R items results := by
  rw [← List.zipIdx_map_fst 0 items]
  exact List.forall₂_map_left_iff.mpr h

def columns {height : Nat} (rows : Fin height → List α) (length : Nat)
    (h : ∀ row, (rows row).length = length) : List (Fin height → α) :=
  List.ofFn fun position : Fin length => fun row =>
    (rows row).get ⟨position.val, (h row).symm ▸ position.isLt⟩

@[simp] theorem length_columns {height : Nat} (rows : Fin height → List α) (length : Nat)
    (h : ∀ row, (rows row).length = length) : (columns rows length h).length = length :=
  List.length_ofFn

def batchRow {height : Nat} (row : Fin height) (columns : List (Fin height → α)) : List α :=
  columns.map fun column => column row

@[simp] theorem length_batchRow {height : Nat} (row : Fin height)
    (columns : List (Fin height → α)) : (batchRow row columns).length = columns.length :=
  List.length_map _

@[simp] theorem batchRow_nil {height : Nat} (row : Fin height) :
    batchRow row ([] : List (Fin height → α)) = [] := rfl

theorem batchRow_eq_nil_iff {height : Nat} {row : Fin height} {columns : List (Fin height → α)} :
    batchRow row columns = [] ↔ columns = [] :=
  List.map_eq_nil_iff

@[simp] theorem batchRow_columns {height : Nat} (row : Fin height) (rows : Fin height → List α)
    (length : Nat) (h : ∀ row, (rows row).length = length) :
    batchRow row (columns rows length h) = rows row := by
  unfold batchRow
  apply List.ext_getElem
  · rw [List.length_map, length_columns, h row]
  · intro position _ _
    rw [List.getElem_map]
    exact congrFun (List.getElem_ofFn ..) row

theorem eq_of_batchRow {height : Nat} {left right : List (Fin height → α)}
    (hlength : left.length = right.length) (h : ∀ row, batchRow row left = batchRow row right) :
    left = right := by
  refine List.ext_getElem hlength fun position hleft hright => funext fun row => ?_
  have hrow := congrArg (fun values : List α => values[position]?) (h row)
  simpa [batchRow, List.getElem?_eq_getElem hleft, List.getElem?_eq_getElem hright] using hrow

/-! Between two steps a row may be replaced by a copy of another row. -/

section lineage
variable {height : Nat} (parent : α → Fin height → Fin height) (item : α → Fin height → β)

/-- What a row has come from: an item of itself and of its ancestors for each step. -/
def lineage (steps : List α) : Fin height → List β :=
  steps.foldl (fun lines step row => lines (parent step row) ++ [item step row]) fun _ => []

theorem lineage_concat (steps : List α) (step : α) (row : Fin height) :
    lineage parent item (steps ++ [step]) row =
      lineage parent item steps (parent step row) ++ [item step row] := by
  unfold lineage
  rw [List.foldl_append]
  rfl

theorem mem_lineage {steps : List α} {row : Fin height} {made : β}
    (h : made ∈ lineage parent item steps row) :
    ∃ step ∈ steps, ∃ ancestor, item step ancestor = made := by
  induction steps using List.reverseRecOn generalizing row with
  | nil => cases h
  | append_singleton steps step ih =>
      rw [lineage_concat] at h
      rcases List.mem_append.mp h with hmem | hmem
      · obtain ⟨earlier, hearlier, hmade⟩ := ih hmem
        exact ⟨earlier, List.mem_append_left _ hearlier, hmade⟩
      · exact ⟨step, List.mem_append_right _ List.mem_cons_self, row,
          (List.mem_singleton.mp hmem).symm⟩

end lineage

end Peerz.Library
