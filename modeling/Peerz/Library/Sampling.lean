import Mathlib.Data.Finset.Card
import Mathlib.Data.List.Perm.Subperm

/-! Draws without replacement from a list. A member of the population that stands at several
positions may be drawn as often. -/
namespace Peerz.Library

variable {α : Type*}

/-- A possible result of `random.sample(population, count)`: the members at `count` positions,
in any order. -/
structure IsSample (population : List α) (count : Nat) (sample : List α) : Prop where
  length : sample.length = count
  subperm : sample.Subperm population

theorem IsSample.all (population : List α) : IsSample population population.length population :=
  ⟨rfl, List.Subperm.refl _⟩

theorem IsSample.subset {population sample : List α} {count : Nat}
    (h : IsSample population count sample) : sample ⊆ population :=
  h.subperm.subset

theorem IsSample.card_toFinset [DecidableEq α] {population sample : List α} {count : Nat}
    (h : IsSample population count sample) (hnodup : population.Nodup) :
    sample.toFinset.card = count := by
  obtain ⟨reordered, hperm, hsublist⟩ := h.subperm
  have hsample : sample.Nodup := hperm.nodup_iff.mp (hnodup.sublist hsublist)
  rw [List.toFinset_card_of_nodup hsample, h.length]

/-- A draw can miss whatever leaves enough positions for it. -/
theorem exists_isSample_missing_iff {population : List α} {count : Nat} (missed : α → Bool)
    (hcount : count ≤ population.length) :
    (∃ sample, IsSample population count sample ∧ ∀ item ∈ sample, missed item = false) ↔
      population.countP missed ≤ population.length - count := by
  have hsplit := List.length_eq_countP_add_countP missed (l := population)
  have hkept : (population.filter fun item => !missed item).length =
      population.length - population.countP missed := by
    rw [← List.countP_eq_length_filter, hsplit, Nat.add_sub_cancel_left]
    exact List.countP_congr fun item _ => by simp
  constructor
  · rintro ⟨sample, hsample, hmissed⟩
    have hfiltered : sample.filter (fun item => !missed item) = sample :=
      List.filter_eq_self.mpr fun item hitem => by simp [hmissed item hitem]
    have hle := (hsample.subperm.filter fun item => !missed item).length_le
    rw [hfiltered, hsample.length, hkept] at hle
    omega
  · intro hle
    refine ⟨(population.filter fun item => !missed item).take count, ⟨?_, ?_⟩, ?_⟩
    · rw [List.length_take, hkept]
      omega
    · exact ((List.take_sublist _ _).trans List.filter_sublist).subperm
    · intro item hitem
      simpa using (List.mem_filter.mp (List.mem_of_mem_take hitem)).2

/-- A set reaches enough of a group exactly when it leaves out few enough of it. -/
theorem min_card_le_inter_iff [DecidableEq α] (group reached : Finset α) (count : Nat) :
    min count group.card ≤ (group ∩ reached).card ↔
      (group \ reached).card ≤ group.card - count := by
  have hsplit := Finset.card_inter_add_card_sdiff group reached
  omega

end Peerz.Library
