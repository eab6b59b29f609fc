import Mathlib.Data.Int.Range
import Mathlib.Data.List.GetD

/-! Python's indexing of sequences. A negative position counts from the end, an
index outside the sequence is an error, a slice bound outside it is clamped. -/
namespace Peerz.Library

variable {α : Type*}

/-- The position `values[index]` refers to, `none` for an `IndexError`. -/
def pyPosition (length : Nat) (index : Int) : Option Nat :=
  if 0 ≤ index then
    if index < length then some index.toNat else none
  else if 0 ≤ index + length then some (index + length).toNat else none

def pyGet? (values : List α) (index : Int) : Option α :=
  (pyPosition values.length index).bind fun position => values[position]?

def pyModify? (values : List α) (index : Int) (f : α → α) : Option (List α) :=
  (pyPosition values.length index).map fun position => values.modify position f

def pyClamp (length : Nat) (bound : Int) : Nat :=
  if bound < 0 then (bound + length).toNat else min bound.toNat length

/-- `values[start:stop]`. -/
def pySlice (values : List α) (start stop : Int) : List α :=
  (values.take (pyClamp values.length stop)).drop (pyClamp values.length start)

/-- Assignment of `f` over `values[start:stop]`, element by element. -/
def pyMapSlice (values : List α) (start stop : Int) (f : α → α) : List α :=
  values.mapIdx fun position value =>
    if pyClamp values.length start ≤ position ∧ position < pyClamp values.length stop then
      f value
    else value

/-- `values[offset:offset + len(items)] = items`. -/
def writeSlice (values : List α) (offset : Nat) (items : List α) : List α :=
  values.take offset ++ items ++ values.drop (offset + items.length)

theorem writeSlice_append (written free items : List α) :
    writeSlice (written ++ free) written.length items =
      written ++ items ++ free.drop items.length := by
  unfold writeSlice
  rw [List.take_left, List.drop_length_add_append]

theorem intRange_cons {first stop : Int} (h : first < stop) :
    Int.range first stop = first :: Int.range (first + 1) stop := by
  obtain ⟨count, hcount⟩ : ∃ count : Nat, (stop - first).toNat = count + 1 :=
    ⟨(stop - first).toNat - 1, by omega⟩
  have hrest : (stop - (first + 1)).toNat = count := by omega
  unfold Int.range
  rw [hcount, hrest, List.range_succ_eq_map, List.map_cons, List.map_map]
  congr 1
  · exact Int.add_zero first
  · refine List.map_congr_left fun index _ => ?_
    change first + ((index + 1 : Nat) : Int) = first + 1 + index
    omega

theorem intRange_self (first : Int) : Int.range first first = [] := by
  unfold Int.range
  rw [Int.sub_self]
  rfl

theorem pyPosition_eq_some {length : Nat} {index : Int} (hlow : 0 ≤ index)
    (hhigh : index < length) : pyPosition length index = some index.toNat := by
  rw [pyPosition, if_pos hlow, if_pos hhigh]

theorem pyGet?_natCast (values : List α) (index : Nat) :
    pyGet? values index = values[index]? := by
  unfold pyGet? pyPosition
  rw [if_pos (Int.natCast_nonneg index)]
  by_cases h : index < values.length
  · rw [if_pos (Int.ofNat_lt.mpr h)]
    rfl
  · rw [if_neg (fun hlt => h (Int.ofNat_lt.mp hlt))]
    exact (List.getElem?_eq_none (Nat.le_of_not_lt h)).symm

theorem mem_of_pyGet? {values : List α} {index : Int} {value : α}
    (h : pyGet? values index = some value) : value ∈ values := by
  obtain ⟨position, -, hget⟩ := Option.bind_eq_some_iff.mp h
  exact List.mem_of_getElem? hget

theorem pyClamp_le (length : Nat) (bound : Int) : pyClamp length bound ≤ length := by
  unfold pyClamp
  split <;> omega

theorem pyClamp_natCast {length bound : Nat} (h : bound ≤ length) :
    pyClamp length (bound : Int) = bound := by
  unfold pyClamp
  rw [if_neg (by omega)]
  omega

@[simp] theorem pyMapSlice_length (values : List α) (start stop : Int) (f : α → α) :
    (pyMapSlice values start stop f).length = values.length := by
  simp [pyMapSlice]

theorem pySlice_length (values : List α) (start stop : Int) :
    (pySlice values start stop).length =
      pyClamp values.length stop - pyClamp values.length start := by
  have hstop := pyClamp_le values.length stop
  simp [pySlice, Nat.min_eq_left hstop]

theorem pySlice_length_inside {values : List α} {start stop : Int} (hstart : 0 ≤ start)
    (hle : start ≤ stop) (hstop : stop ≤ values.length) :
    (pySlice values start stop).length = (stop - start).toNat := by
  rw [pySlice_length]
  unfold pyClamp
  rw [if_neg (by omega), if_neg (by omega)]
  omega

theorem pySlice_eq_map (values : List α) (start stop : Int) (default : α) :
    pySlice values start stop =
      (List.range' (pyClamp values.length start)
        (pyClamp values.length stop - pyClamp values.length start)).map
          fun position => values.getD position default := by
  have hstop := pyClamp_le values.length stop
  apply List.ext_getElem
  · rw [pySlice_length, List.length_map, List.length_range']
  · intro position hleft hright
    rw [pySlice_length] at hleft
    have hposition : pyClamp values.length start + position < values.length := by omega
    simp only [pySlice, List.getElem_drop, List.getElem_take, List.getElem_map,
      List.getElem_range', Nat.one_mul]
    exact (List.getD_eq_getElem _ _ hposition).symm

theorem pySlice_eq_range'_map {values : List α} {start stop : Nat} (hle : start ≤ stop)
    (hstop : stop ≤ values.length) (default : α) :
    pySlice values (start : Int) stop =
      (List.range' start (stop - start)).map fun position => values.getD position default := by
  rw [pySlice_eq_map _ _ _ default, pyClamp_natCast (hle.trans hstop), pyClamp_natCast hstop]

theorem pySlice_range {length start stop : Nat} (hle : start ≤ stop) (hstop : stop ≤ length) :
    pySlice (List.range length) (start : Int) stop = List.range' start (stop - start) := by
  rw [pySlice_eq_range'_map hle (by rwa [List.length_range]) 0]
  refine (List.map_congr_left fun position hposition => ?_).trans (List.map_id _)
  have hlt := (List.mem_range'_1.mp hposition).2
  rw [List.getD_eq_getElem _ _ (by rw [List.length_range]; omega), List.getElem_range]
  rfl

theorem pySlice_all {values : List α} {stop : Nat} (h : values.length ≤ stop) :
    pySlice values ((0 : Nat) : Int) stop = values := by
  have hstop : pyClamp values.length stop = values.length := by
    unfold pyClamp
    rw [if_neg (by omega)]
    omega
  unfold pySlice
  rw [hstop, pyClamp_natCast (Nat.zero_le _), List.take_length, List.drop_zero]

theorem pySlice_middle (before middle after : List α) :
    pySlice (before ++ (middle ++ after)) (before.length : Int)
      ((before.length : Int) + middle.length) = middle := by
  have hstart : before.length ≤ (before ++ (middle ++ after)).length := by
    rw [List.length_append]
    omega
  have hstop : before.length + middle.length ≤ (before ++ (middle ++ after)).length := by
    rw [List.length_append, List.length_append]
    omega
  unfold pySlice
  rw [← Int.natCast_add, pyClamp_natCast hstart, pyClamp_natCast hstop, List.take_length_add_append,
    List.drop_left, List.take_left]

theorem getD_of_all_isEmpty {rows : List (List α)} (h : rows.all List.isEmpty = true)
    (position : Nat) : rows.getD position [] = [] := by
  rcases lt_or_ge position rows.length with hlt | hge
  · rw [List.getD_eq_getElem _ _ hlt]
    exact List.isEmpty_iff.mp (List.all_eq_true.mp h _ (List.getElem_mem hlt))
  · exact List.getD_eq_default _ _ hge

/-- A slice of rows, where a slice of empty rows stands for as many as there are positions. -/
theorem pySlice_rows {rows : List (List α)} {length start stop : Nat}
    (hrows : rows.all List.isEmpty = true ∨ rows.length = length) (hle : start ≤ stop)
    (hstop : stop ≤ length) :
    (if (pySlice rows (start : Int) stop).all List.isEmpty then
        (List.range' start (stop - start)).map fun _ => []
      else pySlice rows (start : Int) stop) =
      (List.range' start (stop - start)).map fun position => rows.getD position [] := by
  rcases hrows with hempty | hlength
  · have hslice : (pySlice rows (start : Int) stop).all List.isEmpty = true := by
      rw [List.all_eq_true] at hempty ⊢
      exact fun row hrow => hempty row (List.mem_of_mem_take (List.mem_of_mem_drop hrow))
    rw [if_pos hslice]
    exact List.map_congr_left fun position _ => (getD_of_all_isEmpty hempty position).symm
  · have hslice := pySlice_eq_range'_map hle (hlength ▸ hstop) ([] : List α)
    rw [hslice]
    split
    · rename_i hall
      refine List.map_congr_left fun position hposition => ?_
      rw [List.all_eq_true] at hall
      exact (List.isEmpty_iff.mp (hall _ (List.mem_map_of_mem hposition))).symm
    · rfl

theorem pyMapSlice_getD {values : List α} (start stop : Int) (f : α → α) {position : Nat}
    (h : position < values.length) (default : α) :
    (pyMapSlice values start stop f).getD position default =
      if pyClamp values.length start ≤ position ∧ position < pyClamp values.length stop then
        f (values.getD position default)
      else values.getD position default := by
  rw [List.getD_eq_getElem _ _ (by simpa using h), List.getD_eq_getElem _ _ h]
  simp [pyMapSlice]

end Peerz.Library
