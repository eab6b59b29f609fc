import Mathlib.Data.List.Basic

/-! Machines that read a sequence item by item, with a state between the items. Such a machine may
be stopped after any prefix and resumed from its state. -/
namespace Peerz.Library

variable {σ α β : Type*}

def transduce (step : σ → α → β × σ) : σ → List α → List β × σ
  | state, [] => ([], state)
  | state, item :: rest =>
      let (output, next) := step state item
      let (outputs, final) := transduce step next rest
      (output :: outputs, final)

/-- Running over two parts in turn is running over both at once. -/
structure Resumes (run : σ → List α → List β × σ) : Prop where
  nil : ∀ state, run state [] = ([], state)
  append : ∀ state left right, run state (left ++ right) =
    ((run state left).1 ++ (run (run state left).2 right).1, (run (run state left).2 right).2)

theorem transduce_resumes (step : σ → α → β × σ) : Resumes (transduce step) where
  nil _ := rfl
  append := by
    intro state left right
    induction left generalizing state with
    | nil => rfl
    | cons item rest ih => simp only [List.cons_append, transduce, ih]

@[simp] theorem transduce_length (step : σ → α → β × σ) (state : σ) (items : List α) :
    (transduce step state items).1.length = items.length := by
  induction items generalizing state with
  | nil => rfl
  | cons item rest ih => simp only [transduce, List.length_cons, ih]

/-- `range(0, stop, step)`. -/
def rangeBy (stop step : Nat) : List Nat :=
  (List.range ((stop + step - 1) / step)).map (· * step)

def runChunks (run : σ → List α → List β × σ) (length : Nat) (state : σ) (items : List α) :
    List β × σ :=
  (rangeBy items.length length).foldl
    (fun done offset =>
      let (outputs, next) := run done.2 ((items.drop offset).take length)
      (done.1 ++ outputs, next))
    ([], state)

theorem rangeBy_lt {stop step offset : Nat} (hstep : 0 < step) (h : offset ∈ rangeBy stop step) :
    offset < stop := by
  obtain ⟨index, hindex, rfl⟩ := List.mem_map.mp h
  have hlt := List.mem_range.mp hindex
  have hle : (index + 1) * step ≤ stop + step - 1 := (Nat.le_div_iff_mul_le hstep).mp hlt
  rw [Nat.succ_mul] at hle
  omega

theorem runChunks_congr {left right : σ → List α → List β × σ} {length : Nat}
    (hlength : 0 < length) (h : ∀ state items, items ≠ [] → left state items = right state items)
    (state : σ) (items : List α) :
    runChunks left length state items = runChunks right length state items := by
  apply List.foldl_ext
  intro done offset hoffset
  have hchunk : (items.drop offset).take length ≠ [] := by
    have hlt := rangeBy_lt hlength hoffset
    apply List.ne_nil_of_length_pos
    rw [List.length_take, List.length_drop]
    omega
  rw [h _ _ hchunk]

theorem rangeBy_of_le {stop step : Nat} (hpositive : 0 < stop) (hle : stop ≤ step) :
    rangeBy stop step = [0] := by
  have hcount : (stop + step - 1) / step = 1 := by
    rw [Nat.div_eq_iff (by omega)]
    omega
  simp [rangeBy, hcount]

theorem le_rangeBy_mul {stop step : Nat} (hstep : 0 < step) :
    stop ≤ (stop + step - 1) / step * step := by
  have h := Nat.lt_div_mul_add hstep (a := stop + step - 1)
  omega

/-- A machine that resumes does not see how its input is cut into chunks. -/
theorem Resumes.runChunks_eq {run : σ → List α → List β × σ} (h : Resumes run) {length : Nat}
    (hlength : 0 < length) (state : σ) (items : List α) :
    runChunks run length state items = run state items := by
  have hstarts (count : Nat) :
      ((List.range count).map (· * length)).foldl
        (fun done offset =>
          let (outputs, next) := run done.2 ((items.drop offset).take length)
          (done.1 ++ outputs, next))
        ([], state) = run state (items.take (count * length)) := by
    induction count with
    | zero => rw [Nat.zero_mul, List.take_zero, h.nil]; rfl
    | succ count ih =>
        rw [List.range_succ, List.map_append, List.foldl_append, ih, Nat.succ_mul, List.take_add,
          h.append]
        rfl
  unfold runChunks rangeBy
  rw [hstarts, List.take_of_length_le (le_rangeBy_mul hlength)]

end Peerz.Library
