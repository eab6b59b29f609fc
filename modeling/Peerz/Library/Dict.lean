import Mathlib.Data.List.Induction
import Mathlib.Data.List.Nodup
import Mathlib.Data.List.Perm.Basic
import Mathlib.Data.List.Sort
import Mathlib.Order.Defs.LinearOrder

/-! Insertion-ordered dictionaries with distinct keys. Assigning to an existing
key keeps its place in the iteration order, a new key goes to the end; iteration
order is visible to the callers, so a finite map would lose it. -/
namespace Peerz.Library

structure Dict (K V : Type*) where
  entries : List (K × V)
  nodupKeys : (entries.map Prod.fst).Nodup

namespace Dict

variable {K V W : Type*}

def empty : Dict K V := ⟨[], List.nodup_nil⟩

instance : Inhabited (Dict K V) := ⟨empty⟩

def keys (dict : Dict K V) : List K := dict.entries.map Prod.fst
def values (dict : Dict K V) : List V := dict.entries.map Prod.snd
def size (dict : Dict K V) : Nat := dict.entries.length

/-- The comprehension `{key: value for key, value in dict.items() if keep}`. -/
def filter (dict : Dict K V) (keep : K → V → Bool) : Dict K V where
  entries := dict.entries.filter fun entry => keep entry.1 entry.2
  nodupKeys := dict.nodupKeys.sublist (List.filter_sublist.map Prod.fst)

theorem mem_filter {dict : Dict K V} {keep : K → V → Bool} {key : K} {value : V} :
    (key, value) ∈ (dict.filter keep).entries ↔
      (key, value) ∈ dict.entries ∧ keep key value = true := by
  simp [filter]

theorem value_unique {dict : Dict K V} {key : K} {left right : V}
    (hl : (key, left) ∈ dict.entries) (hr : (key, right) ∈ dict.entries) : left = right := by
  have hinj := List.inj_on_of_nodup_map dict.nodupKeys hl hr rfl
  exact congrArg Prod.snd hinj

theorem mem_keys_iff {dict : Dict K V} {key : K} :
    key ∈ dict.keys ↔ ∃ value, (key, value) ∈ dict.entries := by
  simp [keys]

/-- The comprehension `{key: value for key in keys}`, less the keys without a value. -/
def tabulate (keys : List K) (hkeys : keys.Nodup) (values : K → Option V) : Dict K V where
  entries := keys.filterMap fun key => (values key).map fun value => (key, value)
  nodupKeys := by
    refine hkeys.sublist ?_
    clear hkeys
    induction keys with
    | nil => exact List.Sublist.refl _
    | cons key rest ih =>
        cases hvalue : values key with
        | none => simpa [hvalue] using ih.cons key
        | some value => simpa [hvalue] using ih.cons_cons key

theorem mem_tabulate {keys : List K} {hkeys : keys.Nodup} {values : K → Option V} {key : K}
    {value : V} : (key, value) ∈ (tabulate keys hkeys values).entries ↔
      key ∈ keys ∧ values key = some value := by
  simp only [tabulate, List.mem_filterMap, Option.map_eq_some_iff, Prod.mk.injEq]
  constructor
  · rintro ⟨other, hother, stored, hstored, rfl, rfl⟩
    exact ⟨hother, hstored⟩
  · rintro ⟨hkey, hvalue⟩
    exact ⟨key, hkey, value, hvalue, rfl, rfl⟩

theorem ext_entries {left right : Dict K V} (h : left.entries = right.entries) : left = right := by
  cases left
  cases right
  cases h
  rfl

section lookup
variable [DecidableEq K]

def get? (dict : Dict K V) (key : K) : Option V :=
  (dict.entries.find? fun entry => entry.1 = key).map Prod.snd

def contains (dict : Dict K V) (key : K) : Bool := (dict.get? key).isSome

def insert (dict : Dict K V) (key : K) (value : V) : Dict K V :=
  if h : key ∈ dict.keys then
    { entries := dict.entries.map fun entry => if entry.1 = key then (key, value) else entry
      nodupKeys := by
        have hkeys : (dict.entries.map fun entry =>
            if entry.1 = key then (key, value) else entry).map Prod.fst = dict.keys := by
          rw [List.map_map]
          apply List.map_congr_left
          intro entry _
          by_cases he : entry.1 = key <;> simp [he]
        rw [hkeys]
        exact dict.nodupKeys }
  else
    { entries := dict.entries ++ [(key, value)]
      nodupKeys := by
        rw [List.map_append]
        exact dict.nodupKeys.append (by simp) (by
          intro other hother heq
          simp only [List.map_cons, List.map_nil, List.mem_singleton] at heq
          exact h (heq ▸ hother)) }

/-- `dict.pop(key, None)`. -/
def erase (dict : Dict K V) (key : K) : Dict K V := dict.filter fun other _ => other ≠ key

def update (dict other : Dict K V) : Dict K V :=
  other.entries.foldl (fun merged entry => merged.insert entry.1 entry.2) dict

theorem get?_eq_some_iff {dict : Dict K V} {key : K} {value : V} :
    dict.get? key = some value ↔ (key, value) ∈ dict.entries := by
  constructor
  · intro h
    obtain ⟨entry, hfind, rfl⟩ := Option.map_eq_some_iff.mp h
    have hkey : entry.1 = key := by simpa using List.find?_some hfind
    rw [← hkey]
    exact List.mem_of_find?_eq_some hfind
  · intro hmem
    cases hfind : dict.entries.find? fun entry => entry.1 = key with
    | none =>
        have := List.find?_eq_none.mp hfind (key, value) hmem
        simp at this
    | some entry =>
        have hkey : entry.1 = key := by simpa using List.find?_some hfind
        have hentry : (key, entry.2) ∈ dict.entries := by
          rw [← hkey]
          exact List.mem_of_find?_eq_some hfind
        simp [get?, hfind, value_unique hentry hmem]

theorem get?_tabulate {keys : List K} {hkeys : keys.Nodup} {values : K → Option V} {key : K}
    {value : V} : (tabulate keys hkeys values).get? key = some value ↔
      key ∈ keys ∧ values key = some value :=
  get?_eq_some_iff.trans mem_tabulate

theorem get?_eq_none_iff {dict : Dict K V} {key : K} :
    dict.get? key = none ↔ key ∉ dict.keys := by
  rw [mem_keys_iff, Option.eq_none_iff_forall_ne_some]
  simp only [ne_eq, get?_eq_some_iff, not_exists]

theorem mem_keys_iff_isSome {dict : Dict K V} {key : K} :
    key ∈ dict.keys ↔ (dict.get? key).isSome = true := by
  rw [Option.isSome_iff_ne_none, Ne, get?_eq_none_iff, not_not]

@[simp] theorem get?_empty (key : K) : (empty : Dict K V).get? key = none := rfl

theorem mem_insert {dict : Dict K V} {key other : K} {value stored : V} :
    (other, stored) ∈ (dict.insert key value).entries ↔
      (other = key ∧ stored = value) ∨ (other ≠ key ∧ (other, stored) ∈ dict.entries) := by
  unfold insert
  split
  · rename_i hkey
    obtain ⟨old, hold⟩ := mem_keys_iff.mp hkey
    simp only [List.mem_map]
    constructor
    · rintro ⟨entry, hentry, heq⟩
      by_cases he : entry.1 = key
      · rw [if_pos he] at heq
        cases heq
        exact .inl ⟨rfl, rfl⟩
      · rw [if_neg he] at heq
        subst heq
        exact .inr ⟨he, hentry⟩
    · rintro (⟨rfl, rfl⟩ | ⟨hne, hmem⟩)
      · exact ⟨(other, old), hold, by simp⟩
      · exact ⟨(other, stored), hmem, by simp [hne]⟩
  · rename_i hkey
    simp only [List.mem_append, List.mem_singleton, Prod.mk.injEq]
    constructor
    · rintro (hmem | ⟨rfl, rfl⟩)
      · refine .inr ⟨?_, hmem⟩
        rintro rfl
        exact hkey (mem_keys_iff.mpr ⟨stored, hmem⟩)
      · exact .inl ⟨rfl, rfl⟩
    · rintro (⟨rfl, rfl⟩ | ⟨-, hmem⟩)
      · exact .inr ⟨rfl, rfl⟩
      · exact .inl hmem

theorem get?_insert (dict : Dict K V) (key other : K) (value : V) :
    (dict.insert key value).get? other = if other = key then some value else dict.get? other := by
  split
  · rename_i heq
    exact get?_eq_some_iff.mpr (mem_insert.mpr (.inl ⟨heq, rfl⟩))
  · rename_i hne
    apply Option.ext
    intro stored
    rw [get?_eq_some_iff, get?_eq_some_iff, mem_insert]
    simp [hne]

theorem get?_erase (dict : Dict K V) (key other : K) :
    (dict.erase key).get? other = if other = key then none else dict.get? other := by
  apply Option.ext
  intro stored
  rw [get?_eq_some_iff, erase, mem_filter]
  split
  · rename_i heq
    simp [heq]
  · rename_i hne
    simp [hne, get?_eq_some_iff]

private theorem get?_foldl_insert (entries : List (K × V)) (hnodup : (entries.map Prod.fst).Nodup)
    (dict : Dict K V) (key : K) :
    (entries.foldl (fun merged entry => merged.insert entry.1 entry.2) dict).get? key =
      ((entries.find? fun entry => entry.1 = key).map Prod.snd).or (dict.get? key) := by
  induction entries generalizing dict with
  | nil => rfl
  | cons entry tail ih =>
      obtain ⟨hhead, htail⟩ := List.nodup_cons.mp hnodup
      rw [List.foldl_cons, ih htail, get?_insert]
      by_cases hkey : entry.1 = key
      · have habsent : tail.find? (fun entry => entry.1 = key) = none := by
          rw [List.find?_eq_none]
          intro other hother heq
          have hsame : other.1 = entry.1 := (of_decide_eq_true heq).trans hkey.symm
          exact hhead (hsame ▸ List.mem_map_of_mem hother)
        rw [habsent, List.find?_cons_of_pos (by simp [hkey])]
        simp [hkey]
      · rw [List.find?_cons_of_neg (by simp [hkey]), if_neg (Ne.symm hkey)]

theorem get?_update (dict other : Dict K V) (key : K) :
    (dict.update other).get? key = (other.get? key).or (dict.get? key) :=
  get?_foldl_insert other.entries other.nodupKeys dict key

/-- Of several dictionaries merged in turn, the last one with the key decides its value. -/
theorem get?_foldl_update {α : Type*} (items : List α) (tables : α → Dict K V) (key : K)
    (value : V) :
    (items.foldl (fun merged item => merged.update (tables item)) empty).get? key = some value ↔
      ∃ before item after, items = before ++ item :: after ∧
        (tables item).get? key = some value ∧ ∀ later ∈ after, (tables later).get? key = none := by
  induction items using List.reverseRecOn with
  | nil => simp
  | append_singleton items last ih =>
      rw [List.foldl_append, List.foldl_cons, List.foldl_nil, get?_update]
      constructor
      · intro h
        cases hlast : (tables last).get? key with
        | some stored =>
            rw [hlast] at h
            exact ⟨items, last, [], rfl, hlast.trans h, fun _ hmem => absurd hmem List.not_mem_nil⟩
        | none =>
            rw [hlast, Option.none_or, ih] at h
            obtain ⟨before, item, after, rfl, hitem, hafter⟩ := h
            refine ⟨before, item, after ++ [last], by simp, hitem, fun later hlater => ?_⟩
            rcases List.mem_append.mp hlater with hlater | hlater
            · exact hafter later hlater
            · rw [List.mem_singleton.mp hlater]
              exact hlast
      · rintro ⟨before, item, after, hsplit, hitem, hafter⟩
        rcases List.eq_nil_or_concat after with rfl | ⟨rest, final, rfl⟩
        · obtain ⟨-, hsame⟩ := List.append_inj' hsplit rfl
          cases hsame
          rw [hitem]
          rfl
        · rw [List.concat_eq_append, ← List.cons_append, ← List.append_assoc] at hsplit
          obtain ⟨hitems, hsame⟩ := List.append_inj' hsplit rfl
          cases hsame
          rw [hafter last (by simp), Option.none_or, ih]
          exact ⟨before, item, rest, hitems, hitem, fun later hlater => hafter later (by simp [hlater])⟩

/-- Tables that agree on a key can be merged in any order. -/
theorem get?_foldl_update_of_agree {α : Type*} {items : List α} {tables : α → Dict K V} {key : K}
    (hagree : ∀ left ∈ items, ∀ right ∈ items, ∀ value other, (tables left).get? key = some value →
      (tables right).get? key = some other → value = other) (value : V) :
    (items.foldl (fun merged item => merged.update (tables item)) empty).get? key = some value ↔
      ∃ item ∈ items, (tables item).get? key = some value := by
  induction items using List.reverseRecOn with
  | nil => simp
  | append_singleton items last ih =>
      have hmem : last ∈ items ++ [last] := List.mem_append_right _ List.mem_cons_self
      have hearlier := ih fun left hleft right hright =>
        hagree left (List.mem_append_left _ hleft) right (List.mem_append_left _ hright)
      rw [List.foldl_append, List.foldl_cons, List.foldl_nil, get?_update]
      cases hlast : (tables last).get? key with
      | none =>
          rw [Option.none_or, hearlier]
          constructor
          · rintro ⟨item, hitem, hvalue⟩
            exact ⟨item, List.mem_append_left _ hitem, hvalue⟩
          · rintro ⟨item, hitem, hvalue⟩
            rcases List.mem_append.mp hitem with hitem | hitem
            · exact ⟨item, hitem, hvalue⟩
            · rw [List.mem_singleton.mp hitem, hlast] at hvalue
              cases hvalue
      | some stored =>
          rw [Option.some_or]
          constructor
          · intro hvalue
            exact ⟨last, hmem, hlast.trans hvalue⟩
          · rintro ⟨item, hitem, hvalue⟩
            rw [hagree last hmem item hitem stored value hlast hvalue]

theorem mem_values_iff {dict : Dict K V} {value : V} :
    value ∈ dict.values ↔ ∃ key, dict.get? key = some value := by
  simp [values, get?_eq_some_iff]

theorem entries_insert {dict : Dict K V} {key : K} {old : V} (h : dict.get? key = some old)
    (value : V) : ∃ left right, dict.entries = left ++ (key, old) :: right ∧
      (dict.insert key value).entries = left ++ (key, value) :: right := by
  have hmem := get?_eq_some_iff.mp h
  obtain ⟨left, right, hsplit⟩ := List.append_of_mem hmem
  refine ⟨left, right, hsplit, ?_⟩
  have hnodup := dict.nodupKeys
  rw [hsplit, List.map_append, List.map_cons, List.nodup_append] at hnodup
  obtain ⟨-, hright, hleft⟩ := hnodup
  have hsame (entries : List (K × V)) (hne : ∀ entry ∈ entries, entry.1 ≠ key) :
      entries.map (fun entry => if entry.1 = key then (key, value) else entry) = entries := by
    rw [List.map_congr_left fun entry hentry => if_neg (hne entry hentry), List.map_id']
  have hleftNe : ∀ entry ∈ left, entry.1 ≠ key := fun entry hentry =>
    hleft _ (List.mem_map_of_mem hentry) _ List.mem_cons_self
  have hrightNe : ∀ entry ∈ right, entry.1 ≠ key := by
    rintro entry hentry rfl
    exact (List.nodup_cons.mp hright).1 (List.mem_map.mpr ⟨entry, hentry, rfl⟩)
  unfold insert
  rw [dif_pos (mem_keys_iff.mpr ⟨old, hmem⟩)]
  dsimp only
  rw [hsplit, List.map_append, List.map_cons, if_pos rfl, hsame left hleftNe, hsame right hrightNe]

theorem insert_self {dict : Dict K V} {key : K} {value : V} (h : dict.get? key = some value) :
    dict.insert key value = dict := by
  obtain ⟨left, right, hentries, hinsert⟩ := entries_insert h value
  exact ext_entries (hinsert.trans hentries.symm)

theorem get?_filter {dict : Dict K V} {keep : K → V → Bool} {key : K} {value : V} :
    (dict.filter keep).get? key = some value ↔
      dict.get? key = some value ∧ keep key value = true := by
  rw [get?_eq_some_iff, get?_eq_some_iff, mem_filter]

theorem size_filter_pos_iff {dict : Dict K V} {keep : K → V → Bool} :
    0 < (dict.filter keep).size ↔
      ∃ key value, dict.get? key = some value ∧ keep key value = true := by
  unfold size filter
  rw [List.length_pos_iff_exists_mem]
  simp only [List.mem_filter, Prod.exists, get?_eq_some_iff]

theorem size_filter_lt_iff {dict : Dict K V} {keep : K → V → Bool} :
    (dict.filter keep).size < dict.size ↔
      ∃ key value, dict.get? key = some value ∧ keep key value = false := by
  unfold size filter
  rw [List.length_filter_lt_length_iff_exists]
  simp only [Prod.exists, get?_eq_some_iff, Bool.not_eq_true]

theorem keys_insert {dict : Dict K V} {key : K} (h : key ∉ dict.keys) (value : V) :
    (dict.insert key value).keys = dict.keys ++ [key] := by
  unfold insert
  rw [dif_neg h]
  simp [keys]

theorem keys_perm_erase {dict : Dict K V} {key : K} (h : key ∈ dict.keys) :
    dict.keys.Perm (key :: (dict.erase key).keys) := by
  have herase : (dict.erase key).keys = dict.keys.erase key := by
    unfold erase filter keys
    rw [dict.nodupKeys.erase_eq_filter, List.filter_map]
    congr 1
    apply List.filter_congr
    intro entry _
    by_cases hkey : entry.1 = key <;> simp [hkey]
  rw [herase]
  exact List.perm_cons_erase h

end lookup

section sorting
variable [LinearOrder K]

/-- `sorted(dict.items())`: the keys are distinct, so the values never decide. -/
def sortedItems (dict : Dict K V) : List (K × V) :=
  dict.entries.insertionSort fun left right => left.1 ≤ right.1

theorem sortedItems_perm (dict : Dict K V) : dict.sortedItems.Perm dict.entries :=
  List.perm_insertionSort _ _

theorem sortedItems_nodupKeys (dict : Dict K V) : (dict.sortedItems.map Prod.fst).Nodup :=
  ((dict.sortedItems_perm.map Prod.fst).nodup_iff).mpr dict.nodupKeys

end sorting

end Dict
end Peerz.Library
