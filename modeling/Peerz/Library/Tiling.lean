import Mathlib.Data.List.Basic

/-! Consecutive intervals. `Tiles lo hi start items stop` says that the items, none of them empty,
read in order, cover `[start, stop)` with neither gap nor overlap. In a row there may be empty
ones. -/
namespace Peerz.Library

variable {γ : Type*} (lo hi : γ → Int)

def Tiles : Int → List γ → Int → Prop
  | start, [], stop => start = stop
  | start, item :: rest, stop => lo item = start ∧ lo item < hi item ∧ Tiles (hi item) rest stop

variable {lo hi}

@[simp] theorem tiles_nil {start stop : Int} : Tiles lo hi start [] stop ↔ start = stop := Iff.rfl

@[simp] theorem tiles_cons {start stop : Int} {item : γ} {rest : List γ} :
    Tiles lo hi start (item :: rest) stop ↔
      lo item = start ∧ lo item < hi item ∧ Tiles lo hi (hi item) rest stop := Iff.rfl

theorem tiles_append {start stop : Int} {left right : List γ} :
    Tiles lo hi start (left ++ right) stop ↔
      ∃ middle, Tiles lo hi start left middle ∧ Tiles lo hi middle right stop := by
  induction left generalizing start with
  | nil => simp
  | cons item rest ih =>
      simp only [List.cons_append, tiles_cons, ih]
      constructor
      · rintro ⟨hlo, hlt, middle, hleft, hright⟩
        exact ⟨middle, ⟨hlo, hlt, hleft⟩, hright⟩
      · rintro ⟨middle, ⟨hlo, hlt, hleft⟩, hright⟩
        exact ⟨hlo, hlt, middle, hleft, hright⟩

theorem Tiles.le {start stop : Int} {items : List γ} (h : Tiles lo hi start items stop) :
    start ≤ stop := by
  induction items generalizing start with
  | nil => exact Int.le_of_eq h
  | cons item rest ih =>
      obtain ⟨hlo, hlt, hrest⟩ := h
      have := ih hrest
      omega

theorem Tiles.mem_bounds {start stop : Int} {items : List γ} (h : Tiles lo hi start items stop)
    {item : γ} (hmem : item ∈ items) : start ≤ lo item ∧ lo item < hi item ∧ hi item ≤ stop := by
  induction items generalizing start with
  | nil => cases hmem
  | cons head rest ih =>
      obtain ⟨hlo, hlt, hrest⟩ := h
      rcases List.mem_cons.mp hmem with rfl | hmem
      · have := hrest.le
        omega
      · have := ih hrest hmem
        omega

theorem Tiles.eq_nil_iff {start stop : Int} {items : List γ} (h : Tiles lo hi start items stop) :
    items = [] ↔ start = stop := by
  cases items with
  | nil => simpa using h
  | cons item rest =>
      obtain ⟨hlo, hlt, hrest⟩ := h
      have := hrest.le
      simp only [List.cons_ne_nil, false_iff]
      omega

theorem tiles_concat {start stop : Int} {items : List γ} {last : γ} :
    Tiles lo hi start (items ++ [last]) stop ↔
      Tiles lo hi start items (lo last) ∧ lo last < hi last ∧ hi last = stop := by
  rw [tiles_append]
  simp only [tiles_cons, tiles_nil]
  constructor
  · rintro ⟨middle, hitems, hlo, hlt, hstop⟩
    exact ⟨hlo ▸ hitems, hlt, hstop⟩
  · rintro ⟨hitems, hlt, hstop⟩
    exact ⟨lo last, hitems, rfl, hlt, hstop⟩

section row
variable (lo hi) (strict : Prop)

/-- The items cover `[start, stop)` in order; where `strict`, none of them is empty. -/
def Row : Int → List γ → Int → Prop
  | start, [], stop => start = stop
  | start, item :: rest, stop =>
      lo item = start ∧ lo item ≤ hi item ∧ (strict → lo item < hi item) ∧ Row (hi item) rest stop

variable {lo hi strict}

@[simp] theorem row_nil {start stop : Int} : Row lo hi strict start [] stop ↔ start = stop := Iff.rfl

@[simp] theorem row_cons {start stop : Int} {item : γ} {rest : List γ} :
    Row lo hi strict start (item :: rest) stop ↔ lo item = start ∧ lo item ≤ hi item ∧
      (strict → lo item < hi item) ∧ Row lo hi strict (hi item) rest stop := Iff.rfl

theorem row_append {start stop : Int} {left right : List γ} :
    Row lo hi strict start (left ++ right) stop ↔
      ∃ middle, Row lo hi strict start left middle ∧ Row lo hi strict middle right stop := by
  induction left generalizing start with
  | nil => simp
  | cons item rest ih =>
      simp only [List.cons_append, row_cons, ih]
      constructor
      · rintro ⟨hlo, hle, hlt, middle, hleft, hright⟩
        exact ⟨middle, ⟨hlo, hle, hlt, hleft⟩, hright⟩
      · rintro ⟨middle, ⟨hlo, hle, hlt, hleft⟩, hright⟩
        exact ⟨hlo, hle, hlt, middle, hleft, hright⟩

theorem Row.le {start stop : Int} {items : List γ} (h : Row lo hi strict start items stop) :
    start ≤ stop := by
  induction items generalizing start with
  | nil => exact Int.le_of_eq h
  | cons item rest ih =>
      obtain ⟨hlo, hle, -, hrest⟩ := h
      have := ih hrest
      omega

theorem Tiles.row {start stop : Int} {items : List γ} (h : Tiles lo hi start items stop) :
    Row lo hi strict start items stop := by
  induction items generalizing start with
  | nil => exact h
  | cons item rest ih =>
      obtain ⟨hlo, hlt, hrest⟩ := h
      exact ⟨hlo, Int.le_of_lt hlt, fun _ => hlt, ih hrest⟩

theorem Row.tiles {start stop : Int} {items : List γ} (h : Row lo hi strict start items stop)
    (hstrict : strict) : Tiles lo hi start items stop := by
  induction items generalizing start with
  | nil => exact h
  | cons item rest ih =>
      obtain ⟨hlo, -, hlt, hrest⟩ := h
      exact ⟨hlo, hlt hstrict, ih hrest⟩

end row

end Peerz.Library
