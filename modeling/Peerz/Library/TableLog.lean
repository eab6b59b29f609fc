import Peerz.Library.Dict

/-! Tables that follow a log of changes. A lookup depends on the last change to its key only, so
that a replica may take the changes to different keys in any order. -/
namespace Peerz.Library

inductive Change (K V : Type*) where
  | put (key : K) (value : V)
  | drop (key : K)

namespace Change

variable {K V : Type*}

def key : Change K V → K
  | put key _ => key
  | drop key => key

/-- What the table holds for the key of the change after it. -/
def value? : Change K V → Option V
  | put _ value => some value
  | drop _ => none

variable [DecidableEq K]

def apply (table : Dict K V) : Change K V → Dict K V
  | put key value => table.insert key value
  | drop key => table.erase key

theorem get?_apply (table : Dict K V) (change : Change K V) (key : K) :
    (change.apply table).get? key = if change.key = key then change.value? else table.get? key := by
  cases change with
  | put other value =>
      rw [apply, Dict.get?_insert]
      simp only [Change.key, value?, eq_comm]
  | drop other =>
      rw [apply, Dict.get?_erase]
      simp only [Change.key, value?, eq_comm]

end Change

section logs
variable {K V : Type*} [DecidableEq K]

def replay (table : Dict K V) (changes : List (Change K V)) : Dict K V :=
  changes.foldl Change.apply table

/-- The value that the last change to the key leaves, and otherwise the given one. -/
def lastValue (before : Option V) (changes : List (Change K V)) (key : K) : Option V :=
  changes.foldl (fun value change => if change.key = key then change.value? else value) before

theorem get?_replay (table : Dict K V) (changes : List (Change K V)) (key : K) :
    (replay table changes).get? key = lastValue (table.get? key) changes key := by
  induction changes generalizing table with
  | nil => rfl
  | cons change changes ih =>
      unfold replay lastValue at ih ⊢
      rw [List.foldl_cons, List.foldl_cons, ih, Change.get?_apply]

theorem lastValue_append (before : Option V) (left right : List (Change K V)) (key : K) :
    lastValue before (left ++ right) key = lastValue (lastValue before left key) right key :=
  List.foldl_append

theorem lastValue_of_not_mem {before : Option V} {changes : List (Change K V)} {key : K}
    (h : ∀ change ∈ changes, change.key ≠ key) : lastValue before changes key = before := by
  induction changes generalizing before with
  | nil => rfl
  | cons change changes ih =>
      obtain ⟨hfirst, hrest⟩ := List.forall_mem_cons.mp h
      unfold lastValue at ih ⊢
      rw [List.foldl_cons, if_neg hfirst]
      exact ih hrest

theorem lastValue_cons (before : Option V) (change : Change K V) (changes : List (Change K V))
    (key : K) : lastValue before (change :: changes) key =
      lastValue (if change.key = key then change.value? else before) changes key :=
  rfl

/-- The first change to a key may be made ahead of all others. -/
theorem lastValue_advance {before : Option V} {earlier later : List (Change K V)}
    {change : Change K V} {key : K}
    (h : change.key = key → ∀ other ∈ earlier, other.key ≠ key) :
    lastValue (if change.key = key then change.value? else before) (earlier ++ later) key =
      lastValue before (earlier ++ change :: later) key := by
  rw [lastValue_append, lastValue_append, lastValue_cons]
  by_cases hkey : change.key = key
  · rw [if_pos hkey, if_pos hkey, lastValue_of_not_mem (h hkey)]
  · rw [if_neg hkey, if_neg hkey]

theorem lastValue_puts (before : Option V) (entries : List (K × V)) (key : K) :
    (lastValue before (entries.map fun entry => .put entry.1 entry.2) key).isSome = true ↔
      key ∈ entries.map Prod.fst ∨ before.isSome = true := by
  induction entries generalizing before with
  | nil => simp [lastValue]
  | cons entry entries ih =>
      unfold lastValue at ih ⊢
      rw [List.map_cons, List.foldl_cons, ih, List.map_cons, List.mem_cons]
      by_cases hkey : entry.1 = key
      · simp [Change.key, Change.value?, hkey]
      · simp [Change.key, hkey, Ne.symm hkey]

theorem lastValue_drops (before : Option V) (keys : List K) (key : K) :
    lastValue before (keys.map .drop) key = if key ∈ keys then none else before := by
  induction keys generalizing before with
  | nil => simp [lastValue]
  | cons other keys ih =>
      unfold lastValue at ih ⊢
      rw [List.map_cons, List.foldl_cons, ih]
      by_cases hkey : other = key
      · simp [Change.key, Change.value?, hkey]
      · simp [Change.key, hkey, Ne.symm hkey]

end logs
end Peerz.Library
