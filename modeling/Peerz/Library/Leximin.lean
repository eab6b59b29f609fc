import Mathlib.Algebra.Order.Group.Basic
import Mathlib.Algebra.Order.Group.Multiset
import Mathlib.Data.Finset.Max
import Mathlib.Data.Finset.Powerset
import Mathlib.Data.List.Lex
import Mathlib.Data.List.Sort
import Mathlib.Tactic.Abel

/-! The leximin order: two multisets of one size compare as their sorted lists do, so that
the smallest value decides first. It is stated by counting, where common parts cancel. -/
namespace Peerz.Library
open Multiset

section splitting
variable {ι β : Type*} [DecidableEq ι]

theorem map_val_split {all part : Finset ι} (hsubset : part ⊆ all) (f : ι → β) :
    all.val.map f = part.val.map f + (all \ part).val.map f := by
  rw [← map_add, Finset.sdiff_val, add_tsub_cancel_of_le (Finset.val_le_iff.mpr hsubset)]

theorem map_ite_of_mem {part whole : Finset ι} (h : ∀ i ∈ part, i ∈ whole) (f g : ι → β) :
    part.val.map (fun i => if i ∈ whole then f i else g i) = part.val.map f :=
  map_congr rfl fun i hi => if_pos (h i hi)

theorem map_ite_of_notMem {part whole : Finset ι} (h : ∀ i ∈ part, i ∉ whole) (f g : ι → β) :
    part.val.map (fun i => if i ∈ whole then f i else g i) = part.val.map g :=
  map_congr rfl fun i hi => if_neg (h i hi)

end splitting

variable {α : Type*} [LinearOrder α]

/-- At the first value they do not hold equally often, `s` holds it more often than `t`. -/
def LeximinLT (s t : Multiset α) : Prop :=
  ∃ value, (∀ lower < value, s.count lower = t.count lower) ∧ t.count value < s.count value

theorem LeximinLT.irrefl (s : Multiset α) : ¬ LeximinLT s s := by
  rintro ⟨value, -, hlt⟩
  exact lt_irrefl _ hlt

theorem LeximinLT.trans {s t u : Multiset α} (hst : LeximinLT s t) (htu : LeximinLT t u) :
    LeximinLT s u := by
  obtain ⟨left, hleft, hleftlt⟩ := hst
  obtain ⟨right, hright, hrightlt⟩ := htu
  rcases lt_trichotomy left right with hlt | rfl | hgt
  · refine ⟨left, fun lower h => (hleft lower h).trans (hright lower (h.trans hlt)), ?_⟩
    rwa [← hright left hlt]
  · exact ⟨left, fun lower h => (hleft lower h).trans (hright lower h), hrightlt.trans hleftlt⟩
  · refine ⟨right, fun lower h => (hleft lower (h.trans hgt)).trans (hright lower h), ?_⟩
    rwa [hleft right hgt]

@[simp] theorem leximinLT_add_left_iff {common s t : Multiset α} :
    LeximinLT (common + s) (common + t) ↔ LeximinLT s t := by
  simp only [LeximinLT, count_add, Nat.add_left_cancel_iff, Nat.add_lt_add_iff_left]

theorem LeximinLT.exists_le {s t : Multiset α} (h : LeximinLT s t) {value : α} (hmem : value ∈ t) :
    ∃ lower ∈ s, lower ≤ value := by
  obtain ⟨first, hequal, hlt⟩ := h
  rcases lt_or_ge value first with hbefore | hafter
  · refine ⟨value, ?_, le_rfl⟩
    rw [← count_pos, hequal value hbefore]
    exact count_pos.mpr hmem
  · exact ⟨first, count_pos.mp (Nat.zero_lt_of_lt hlt), hafter⟩

section sorting

theorem leximinLT_of_lt {left right : List α} (hleft : left.Pairwise (· ≤ ·))
    (hright : right.Pairwise (· ≤ ·)) (hlength : left.length = right.length)
    (hlt : left < right) : LeximinLT (left : Multiset α) right := by
  induction left generalizing right with
  | nil =>
      cases right with
      | nil => exact absurd hlt (lt_irrefl _)
      | cons value right => cases hlength
  | cons least left ih =>
      cases right with
      | nil => cases hlength
      | cons value right =>
          obtain ⟨hleast, hleftTail⟩ := List.pairwise_cons.mp hleft
          obtain ⟨hvalue, hrightTail⟩ := List.pairwise_cons.mp hright
          rcases List.cons_lt_cons_iff.mp hlt with hhead | ⟨rfl, htail⟩
          · -- nothing on the right is as small as the head on the left
            have habsent : ∀ lower ≤ least, lower ∉ value :: right := by
              intro lower hlower hmem
              rcases List.mem_cons.mp hmem with rfl | hmem
              · exact (hlower.trans_lt hhead).ne rfl
              · exact (hlower.trans_lt hhead).not_ge (hvalue lower hmem)
            refine ⟨least, fun lower hlower => ?_, ?_⟩
            · rw [coe_count, coe_count, List.count_eq_zero_of_not_mem (habsent lower hlower.le)]
              refine List.count_eq_zero_of_not_mem fun hmem => ?_
              rcases List.mem_cons.mp hmem with rfl | hmem
              · exact lt_irrefl _ hlower
              · exact hlower.not_ge (hleast lower hmem)
            · rw [coe_count, coe_count, List.count_eq_zero_of_not_mem (habsent least le_rfl)]
              exact List.count_pos_iff.mpr List.mem_cons_self
          · have htails := ih hleftTail hrightTail (by simpa using hlength) htail
            rwa [← cons_coe, ← cons_coe, ← singleton_add, ← singleton_add,
              leximinLT_add_left_iff]

/-- The leximin order is the lexicographic order of the sorted lists. -/
theorem leximinLT_iff_sorted_lt {left right : List α} (hlength : left.length = right.length) :
    LeximinLT (left : Multiset α) right ↔
      left.insertionSort (· ≤ ·) < right.insertionSort (· ≤ ·) := by
  have hsorted {left right : List α} (hlength : left.length = right.length)
      (hlt : left.insertionSort (· ≤ ·) < right.insertionSort (· ≤ ·)) :
      LeximinLT (left : Multiset α) right := by
    have h := leximinLT_of_lt (List.pairwise_insertionSort _ left)
      (List.pairwise_insertionSort _ right) (by simpa using hlength) hlt
    rwa [coe_eq_coe.mpr (List.perm_insertionSort _ left),
      coe_eq_coe.mpr (List.perm_insertionSort _ right)] at h
  refine ⟨fun h => ?_, hsorted hlength⟩
  rcases lt_trichotomy (left.insertionSort (· ≤ ·)) (right.insertionSort (· ≤ ·)) with hlt | heq | hgt
  · exact hlt
  · have hperm : left.Perm right := by
      refine (List.perm_insertionSort (· ≤ ·) left).symm.trans ?_
      rw [heq]
      exact List.perm_insertionSort _ right
    rw [coe_eq_coe.mpr hperm] at h
    exact absurd h (LeximinLT.irrefl _)
  · exact absurd (h.trans (hsorted hlength.symm hgt)) (LeximinLT.irrefl _)

end sorting

theorem insertionSort_eq_of_coe_eq {left right : List α} (h : (left : Multiset α) = right) :
    left.insertionSort (· ≤ ·) = right.insertionSort (· ≤ ·) := by
  have hperm : (left.insertionSort (· ≤ ·)).Perm (right.insertionSort (· ≤ ·)) :=
    (List.perm_insertionSort _ left).trans
      ((coe_eq_coe.mp h).trans (List.perm_insertionSort _ right).symm)
  exact hperm.eq_of_pairwise' (List.pairwise_insertionSort _ left)
    (List.pairwise_insertionSort _ right)

section shifting
variable [AddCommGroup α] [IsOrderedAddMonoid α]

theorem count_map_add (s : Multiset α) (shift value : α) :
    (s.map (· + shift)).count value = s.count (value - shift) := by
  have h := count_map_eq_count' (· + shift) s (add_left_injective shift) (value - shift)
  rwa [sub_add_cancel] at h

theorem leximinLT_map_sub {s : Multiset α} (hne : s ≠ 0) {shift : α} (hshift : 0 < shift) :
    LeximinLT (s.map (· - shift)) s := by
  obtain ⟨least, hmem, hleast⟩ := s.toFinset.exists_min_image id (toFinset_nonempty.mpr hne)
  simp only [mem_toFinset, id] at hmem hleast
  have habsent (lower : α) (hlower : lower < least) : s.count lower = 0 :=
    count_eq_zero.mpr fun h => hlower.not_ge (hleast lower h)
  refine ⟨least - shift, fun lower hlower => ?_, ?_⟩
  · rw [habsent lower (hlower.trans (sub_lt_self least hshift))]
    refine count_eq_zero.mpr fun h => ?_
    obtain ⟨value, hvalue, rfl⟩ := mem_map.mp h
    exact hlower.not_ge (sub_le_sub_right (hleast value hvalue) shift)
  · rw [habsent _ (sub_lt_self least hshift)]
    exact count_pos.mpr (mem_map_of_mem _ hmem)

/-- Two groups swap: the one that was raised is now the better one, and at the first value
where they differ the raised copies do not count yet. -/
theorem leximinLT_swap {s t : Multiset α} (h : LeximinLT s t) {shift : α} (hshift : 0 < shift) :
    LeximinLT (s + t.map (· + shift)) (t + s.map (· + shift)) := by
  obtain ⟨value, hequal, hlt⟩ := h
  have hbelow (lower : α) (hlower : lower ≤ value) :
      s.count (lower - shift) = t.count (lower - shift) :=
    hequal _ ((sub_lt_self lower hshift).trans_le hlower)
  refine ⟨value, fun lower hlower => ?_, ?_⟩
  · simp only [count_add, count_map_add, hequal lower hlower, hbelow lower hlower.le]
  · simp only [count_add, count_map_add, hbelow value le_rfl]
    exact Nat.add_lt_add_right hlt _

section relocating
variable {ι : Type*} [DecidableEq ι] {all source target : Finset ι}

theorem map_val_split_parts {β : Type*} (hsource : source ⊆ all) (htarget : target ⊆ all) (f : ι → β) :
    all.val.map f =
      ((source ∩ target).val.map f + ((all \ source) \ (target \ source)).val.map f) +
        ((target \ source).val.map f + (source \ target).val.map f) := by
  have hleft : source.val.map f = (source ∩ target).val.map f + (source \ target).val.map f := by
    rw [map_val_split Finset.inter_subset_left f, Finset.sdiff_inter_self_left]
  rw [map_val_split hsource f, hleft,
    map_val_split (Finset.sdiff_subset_sdiff htarget le_rfl) f]
  abel

omit [LinearOrder α] [IsOrderedAddMonoid α] in
theorem exists_map_raise (hsource : source ⊆ all) (htarget : target ⊆ all) (base : ι → α) (gain : α) :
    ∃ common,
      (all.val.map fun i => if i ∈ source then base i + gain else base i) =
        common + ((target \ source).val.map base +
          ((source \ target).val.map base).map (· + gain)) ∧
      (all.val.map fun i => if i ∈ target then base i + gain else base i) =
        common + ((source \ target).val.map base +
          ((target \ source).val.map base).map (· + gain)) := by
  have hraised (part : Finset ι) : part.val.map (fun i => base i + gain) =
      (part.val.map base).map (· + gain) := by
    rw [map_map]
    rfl
  have hboth : ∀ i ∈ source ∩ target, i ∈ source ∧ i ∈ target := fun i => Finset.mem_inter.mp
  have hneither : ∀ i ∈ (all \ source) \ (target \ source), i ∉ source ∧ i ∉ target := by
    intro i hi
    simp only [Finset.mem_sdiff, not_and, not_not] at hi
    exact ⟨hi.1.2, fun htarget => hi.1.2 (hi.2 htarget)⟩
  refine ⟨(source ∩ target).val.map (fun i => base i + gain) +
    ((all \ source) \ (target \ source)).val.map base, ?_, ?_⟩
  · rw [map_val_split_parts hsource htarget, map_ite_of_mem fun i hi => (hboth i hi).1,
      map_ite_of_notMem fun i hi => (hneither i hi).1,
      map_ite_of_notMem fun i hi => (Finset.mem_sdiff.mp hi).2,
      map_ite_of_mem fun i hi => (Finset.mem_sdiff.mp hi).1, hraised (source \ target)]
  · rw [map_val_split_parts hsource htarget, map_ite_of_mem fun i hi => (hboth i hi).2,
      map_ite_of_notMem fun i hi => (hneither i hi).2,
      map_ite_of_mem fun i hi => (Finset.mem_sdiff.mp hi).1,
      map_ite_of_notMem fun i hi => (Finset.mem_sdiff.mp hi).2, hraised (target \ source),
      add_comm (((target \ source).val.map base).map (· + gain))]

/-- A gain does more good where it raises the smaller values. -/
theorem leximinLT_raise (hsource : source ⊆ all) (htarget : target ⊆ all) {base : ι → α} {gain : α}
    (hgain : 0 < gain)
    (hless : LeximinLT ((target \ source).val.map base) ((source \ target).val.map base)) :
    LeximinLT (all.val.map fun i => if i ∈ source then base i + gain else base i)
      (all.val.map fun i => if i ∈ target then base i + gain else base i) := by
  obtain ⟨common, hraisedSource, hraisedTarget⟩ := exists_map_raise hsource htarget base gain
  rw [hraisedSource, hraisedTarget, leximinLT_add_left_iff]
  exact leximinLT_swap hless hgain

/-- A gain moves from the indices `source` to as many others. Where these were no better
without it, even after the source had lost a little more, the whole has improved. -/
theorem leximinLT_relocate (hsource : source ⊆ all)
    (htarget : target ⊆ all) (hcard : source.card = target.card) (hne : source ≠ target)
    (base : ι → α) {gain loss : α} (hgain : 0 < gain) (hloss : 0 < loss)
    (hchosen : target.val.map (fun i => if i ∈ source then base i - loss else base i) =
        source.val.map (fun i => if i ∈ source then base i - loss else base i) ∨
      LeximinLT (target.val.map fun i => if i ∈ source then base i - loss else base i)
        (source.val.map fun i => if i ∈ source then base i - loss else base i)) :
    LeximinLT (all.val.map fun i => if i ∈ source then base i + gain else base i)
      (all.val.map fun i => if i ∈ target then base i + gain else base i) := by
  apply leximinLT_raise hsource htarget hgain
  have houtside : ∀ i ∈ target \ source, i ∉ source := fun i hi => (Finset.mem_sdiff.mp hi).2
  have hleft : ∀ i ∈ source \ target, i ∈ source := fun i hi => (Finset.mem_sdiff.mp hi).1
  have hnonempty : (source \ target).val.map base ≠ 0 := by
    intro hzero
    rw [map_eq_zero, Finset.val_eq_zero, Finset.sdiff_eq_empty_iff_subset] at hzero
    exact hne (Finset.eq_of_subset_of_card_le hzero hcard.ge)
  have hlost : (source \ target).val.map (fun i => base i - loss) =
      ((source \ target).val.map base).map (· - loss) := by
    rw [map_map]
    rfl
  rw [map_val_split Finset.inter_subset_right, Finset.sdiff_inter_self_right,
    map_ite_of_notMem houtside, map_val_split (Finset.inter_subset_left : source ∩ target ⊆ source),
    Finset.sdiff_inter_self_left, map_ite_of_mem hleft, hlost] at hchosen
  have hlower := leximinLT_map_sub hnonempty hloss
  rcases hchosen with hequal | hless
  · rwa [add_left_cancel hequal]
  · exact (leximinLT_add_left_iff.mp hless).trans hlower

/-- The part with the smaller values is the better one to raise. -/
theorem leximin_raise_best (hsource : source ⊆ all) (htarget : target ⊆ all) (base : ι → α)
    {gain : α} (hgain : 0 < gain)
    (hchosen : target.val.map base = source.val.map base ∨
      LeximinLT (target.val.map base) (source.val.map base)) :
    (all.val.map fun i => if i ∈ source then base i + gain else base i) =
        (all.val.map fun i => if i ∈ target then base i + gain else base i) ∨
      LeximinLT (all.val.map fun i => if i ∈ source then base i + gain else base i)
        (all.val.map fun i => if i ∈ target then base i + gain else base i) := by
  have htargetSplit := map_val_split (Finset.inter_subset_right : source ∩ target ⊆ target) base
  have hsourceSplit := map_val_split (Finset.inter_subset_left : source ∩ target ⊆ source) base
  rw [Finset.sdiff_inter_self_right] at htargetSplit
  rw [Finset.sdiff_inter_self_left] at hsourceSplit
  rw [htargetSplit, hsourceSplit] at hchosen
  rcases hchosen with hequal | hless
  · left
    obtain ⟨common, hraisedSource, hraisedTarget⟩ := exists_map_raise hsource htarget base gain
    rw [hraisedSource, hraisedTarget, add_left_cancel hequal]
  · exact .inr (leximinLT_raise hsource htarget hgain (leximinLT_add_left_iff.mp hless))

end relocating

end shifting

/-! A finite family of multisets bounds how often a value may increase. -/

section ranking

open Classical in
noncomputable def leximinRank (family : Finset (Multiset α)) (s : Multiset α) : Nat :=
  (family.filter fun t => LeximinLT t s).card

open Classical in
theorem leximinRank_le (family : Finset (Multiset α)) (s : Multiset α) :
    leximinRank family s ≤ family.card :=
  Finset.card_filter_le _ _

open Classical in
theorem leximinRank_lt {family : Finset (Multiset α)} {s t : Multiset α} (hmem : s ∈ family)
    (hlt : LeximinLT s t) : leximinRank family s < leximinRank family t := by
  unfold leximinRank
  refine Finset.card_lt_card ⟨fun u hu => ?_, fun hsubset => ?_⟩
  · obtain ⟨hfamily, hus⟩ := Finset.mem_filter.mp hu
    exact Finset.mem_filter.mpr ⟨hfamily, hus.trans hlt⟩
  · have := Finset.mem_filter.mp (hsubset (Finset.mem_filter.mpr ⟨hmem, hlt⟩))
    exact LeximinLT.irrefl s this.2

def multisetsOver (values : Finset α) (size : Nat) : Finset (Multiset α) :=
  (size • values.val).powerset.toFinset

theorem mem_multisetsOver {values : Finset α} {s : Multiset α} (hvalues : ∀ value ∈ s, value ∈ values) :
    s ∈ multisetsOver values (card s) := by
  rw [multisetsOver, mem_toFinset, mem_powerset, le_iff_count]
  intro value
  rw [count_nsmul]
  by_cases hmem : value ∈ s
  · rw [count_eq_one_of_mem values.nodup (hvalues value hmem), mul_one]
    exact count_le_card value s
  · rw [count_eq_zero.mpr hmem]
    exact Nat.zero_le _

end ranking

end Peerz.Library
