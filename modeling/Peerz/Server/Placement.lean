import Mathlib.Data.NNRat.Defs
import Peerz.Server.BlockThroughputs

/-! The window of blocks that a new server chooses, and what becomes of the whole swarm when it
comes to serve that window. -/
namespace Peerz.Server
open Library Utils.Dht

def placeAt (throughputs : List ℚ) (numBlocks start : Int) (throughput : ℚ) : List ℚ :=
  pyMapSlice throughputs start (start + numBlocks) (· + throughput)

structure BestWindow (throughputs : List ℚ) (numBlocks start : Int) : Prop where
  inside : 0 ≤ start ∧ start + numBlocks ≤ throughputs.length
  /-- no other window leaves the swarm a higher lowest throughput -/
  bottleneck : ∀ throughput, 0 ≤ throughput → ∀ other, 0 ≤ other →
    other + numBlocks ≤ throughputs.length →
    ∃ lowest best, minThroughput (placeAt throughputs numBlocks other throughput) = .ok lowest ∧
      minThroughput (placeAt throughputs numBlocks start throughput) = .ok best ∧ lowest ≤ best
  /-- nor a larger sorted vector of throughputs -/
  sorted : ∀ throughput, 0 < throughput → ∀ other, 0 ≤ other →
    other + numBlocks ≤ throughputs.length →
    (placeAt throughputs numBlocks other throughput).insertionSort (· ≤ ·) ≤
      (placeAt throughputs numBlocks start throughput).insertionSort (· ≤ ·)
  first : ∀ other, 0 ≤ other → other + numBlocks ≤ throughputs.length →
    (pySlice throughputs other (other + numBlocks)).insertionSort (· ≤ ·) =
      (pySlice throughputs start (start + numBlocks)).insertionSort (· ≤ ·) → start ≤ other

section placing
variable (throughputs : List ℚ) (numBlocks start : Int) (throughput : ℚ)

@[simp] theorem placeAt_length :
    (placeAt throughputs numBlocks start throughput).length = throughputs.length :=
  pyMapSlice_length _ _ _ _

theorem coe_placeAt : (placeAt throughputs numBlocks start throughput : Multiset ℚ) =
    (Finset.range throughputs.length).val.map fun block =>
      if block ∈ Finset.Ico (pyClamp throughputs.length start)
        (pyClamp throughputs.length (start + numBlocks))
      then throughputAt throughputs block + throughput else throughputAt throughputs block := by
  rw [coe_eq_map, placeAt_length]
  refine Multiset.map_congr rfl fun block hblock => ?_
  have hlt : block < throughputs.length := Finset.mem_range.mp hblock
  unfold throughputAt placeAt
  rw [pyMapSlice_getD _ _ _ hlt]
  simp only [Finset.mem_Ico]

theorem placeAt_zero : placeAt throughputs numBlocks start 0 = throughputs := by
  apply ext_throughputAt (placeAt_length _ _ _ _)
  intro block hblock
  rw [placeAt_length] at hblock
  unfold throughputAt placeAt
  rw [pyMapSlice_getD _ _ _ hblock, add_zero, ite_self]

end placing

/-- Where the window holds the smaller values, placing the server there is no worse. -/
theorem placeAt_leximin {throughputs : List ℚ} {numBlocks start other : Int} {throughput : ℚ}
    (hgain : 0 < throughput)
    (hchosen : (pySlice throughputs start (start + numBlocks) : Multiset ℚ) =
        pySlice throughputs other (other + numBlocks) ∨
      LeximinLT (pySlice throughputs start (start + numBlocks) : Multiset ℚ)
        (pySlice throughputs other (other + numBlocks))) :
    (placeAt throughputs numBlocks other throughput : Multiset ℚ) =
        placeAt throughputs numBlocks start throughput ∨
      LeximinLT (placeAt throughputs numBlocks other throughput : Multiset ℚ)
        (placeAt throughputs numBlocks start throughput) := by
  have hinside (start : Int) : Finset.Ico (pyClamp throughputs.length start)
      (pyClamp throughputs.length (start + numBlocks)) ⊆ Finset.range throughputs.length := by
    intro block hblock
    have hstop := pyClamp_le throughputs.length (start + numBlocks)
    have := (Finset.mem_Ico.mp hblock).2
    exact Finset.mem_range.mpr (by omega)
  rw [coe_pySlice_eq_Ico, coe_pySlice_eq_Ico] at hchosen
  rw [coe_placeAt, coe_placeAt]
  exact leximin_raise_best (hinside other) (hinside start) _ hgain hchosen

theorem chooseBestStart_best {throughputs : List ℚ} {numBlocks start : Int}
    (hpositive : 1 ≤ numBlocks) (h : chooseBestStart throughputs numBlocks = .ok start) :
    BestWindow throughputs numBlocks start := by
  obtain ⟨hlow, hhigh, hleast⟩ := chooseBestStart_eq_ok h
  have hplaced : ∀ throughput, 0 < throughput → ∀ other, 0 ≤ other →
      other + numBlocks ≤ throughputs.length →
      (placeAt throughputs numBlocks other throughput : Multiset ℚ) =
          placeAt throughputs numBlocks start throughput ∨
        LeximinLT (placeAt throughputs numBlocks other throughput : Multiset ℚ)
          (placeAt throughputs numBlocks start throughput) := by
    intro throughput hgain other hother hstop
    apply placeAt_leximin hgain
    apply chooseBestStart_leximin h hother hstop
    rw [pySlice_length_inside hlow (by omega) hhigh, pySlice_length_inside hother (by omega) hstop]
    omega
  refine ⟨⟨hlow, hhigh⟩, ?_, ?_, ?_⟩
  · intro throughput hgain other hother hstop
    have hne (start : Int) : placeAt throughputs numBlocks start throughput ≠ [] := by
      rw [← List.length_pos_iff, placeAt_length]
      omega
    obtain ⟨lowest, hlowest⟩ := exists_minThroughput (hne other)
    obtain ⟨best, hbest⟩ := exists_minThroughput (hne start)
    refine ⟨lowest, best, hlowest, hbest, ?_⟩
    rcases hgain.eq_or_lt with rfl | hgain
    · rw [placeAt_zero] at hlowest hbest
      cases hlowest.symm.trans hbest
      exact le_rfl
    · have hleast := (minThroughput_eq_ok hlowest).2
      have hmem := (minThroughput_eq_ok hbest).1
      rcases hplaced throughput hgain other hother hstop with hequal | hless
      · exact hleast best ((Multiset.coe_eq_coe.mp hequal).mem_iff.mpr hmem)
      · obtain ⟨lower, hlower, hle⟩ := hless.exists_le (Multiset.mem_coe.mpr hmem)
        exact (hleast lower (Multiset.mem_coe.mp hlower)).trans hle
  · intro throughput hgain other hother hstop
    rcases hplaced throughput hgain other hother hstop with hequal | hless
    · exact (insertionSort_eq_of_coe_eq hequal).le
    · exact ((leximinLT_iff_sorted_lt (by simp)).mp hless).le
  · intro other hother hstop hsame
    have hle := hleast other hother hstop
    unfold startOption at hle
    rw [hsame] at hle
    rcases Prod.Lex.toLex_le_toLex.mp hle with hlt | ⟨-, hle⟩
    · exact absurd hlt (lt_irrefl _)
    · exact hle

variable {PeerID : Type} [LinearOrder PeerID]

/-- The window that a new server chooses is the best one for the whole swarm. -/
theorem chooseBestBlocks_best {moduleInfos : List (RemoteModuleInfo PeerID)} {numBlocks : Int}
    (hpositive : 1 ≤ numBlocks) (hfits : numBlocks ≤ moduleInfos.length) :
    ∃ start, chooseBestBlocks numBlocks moduleInfos = .ok (Int.range start (start + numBlocks)) ∧
      BestWindow (computeThroughputs (computeSpans moduleInfos .joining) moduleInfos.length)
        numBlocks start := by
  have hfits : numBlocks ≤
      (computeThroughputs (computeSpans moduleInfos .joining) moduleInfos.length).length := by
    rwa [computeThroughputs_length]
  obtain ⟨start, hstart⟩ := exists_chooseBestStart hfits
  refine ⟨start, ?_, chooseBestStart_best hpositive hstart⟩
  unfold chooseBestBlocks
  dsimp only
  rw [hstart]
  rfl

private def firstServed : List (RemoteModuleInfo Nat) :=
  [⟨⟨"model", 0⟩, Dict.empty.insert 7
      { state := .online, throughput := 1, startBlock := some 0, endBlock := some 1 }⟩,
    ⟨⟨"model", 1⟩, Dict.empty⟩, ⟨⟨"model", 2⟩, Dict.empty⟩]

theorem chooseBestBlocks_best_firstServed :
    chooseBestBlocks 2 firstServed = .ok [1, 2] ∧
      ∃ start, chooseBestBlocks 2 firstServed = .ok (Int.range start (start + 2)) ∧
        BestWindow (computeThroughputs (computeSpans firstServed .joining) 3) 2 start :=
  ⟨by decide +kernel, chooseBestBlocks_best (by decide) (by decide)⟩

end Peerz.Server
