import Mathlib.Order.Interval.Finset.Nat
import Peerz.Library.Leximin
import Peerz.Server.BlockSelection

/-! The block throughputs as a function of the block, windows as sets of blocks, and the
best start as the leximin-smallest window. -/
namespace Peerz.Server
open Library

variable {PeerID : Type}

def throughputAt (throughputs : List ℚ) (block : Nat) : ℚ := throughputs.getD block 0

def window (numBlocks : Nat) (span : RemoteSpanInfo PeerID) : Finset Nat :=
  Finset.Ico (pyClamp numBlocks span.start) (pyClamp numBlocks span.stop)

theorem window_subset (numBlocks : Nat) (span : RemoteSpanInfo PeerID) :
    window numBlocks span ⊆ Finset.range numBlocks := by
  intro block hblock
  have hstop := pyClamp_le numBlocks span.stop
  have := (Finset.mem_Ico.mp hblock).2
  exact Finset.mem_range.mpr (by omega)

theorem ext_throughputAt {left right : List ℚ} (hlength : left.length = right.length)
    (h : ∀ block < left.length, throughputAt left block = throughputAt right block) :
    left = right := by
  apply List.ext_getElem hlength
  intro block hleft hright
  have hblock := h block hleft
  rwa [throughputAt, throughputAt, List.getD_eq_getElem _ _ hleft,
    List.getD_eq_getElem _ _ hright] at hblock

theorem coe_eq_map (throughputs : List ℚ) :
    (throughputs : Multiset ℚ) =
      (Finset.range throughputs.length).val.map (throughputAt throughputs) := by
  have hlist : throughputs = (List.range throughputs.length).map (throughputAt throughputs) := by
    apply List.ext_getElem (by simp)
    intro block hleft hright
    simp [throughputAt, hleft]
  conv_lhs => rw [hlist]
  rfl

theorem coe_pySlice_eq_Ico (throughputs : List ℚ) (start stop : Int) :
    (pySlice throughputs start stop : Multiset ℚ) =
      (Finset.Ico (pyClamp throughputs.length start) (pyClamp throughputs.length stop)).val.map
        (throughputAt throughputs) := by
  rw [pySlice_eq_map throughputs start stop 0]
  rfl

theorem coe_pySlice (throughputs : List ℚ) (span : RemoteSpanInfo PeerID) :
    (pySlice throughputs span.start span.stop : Multiset ℚ) =
      (window throughputs.length span).val.map (throughputAt throughputs) :=
  coe_pySlice_eq_Ico throughputs span.start span.stop

@[simp] theorem addOver_length (throughputs : List ℚ) (span : RemoteSpanInfo PeerID) (amount : ℚ) :
    (addOver throughputs span amount).length = throughputs.length :=
  pyMapSlice_length _ _ _ _

theorem throughputAt_addOver {throughputs : List ℚ} (span : RemoteSpanInfo PeerID) (amount : ℚ)
    {block : Nat} (hblock : block < throughputs.length) :
    throughputAt (addOver throughputs span amount) block =
      if block ∈ window throughputs.length span then throughputAt throughputs block + amount
      else throughputAt throughputs block := by
  unfold throughputAt addOver window
  rw [pyMapSlice_getD _ _ _ hblock]
  simp only [Finset.mem_Ico]

theorem addOver_addOver (throughputs : List ℚ) (span : RemoteSpanInfo PeerID) (first second : ℚ) :
    addOver (addOver throughputs span first) span second =
      addOver throughputs span (first + second) := by
  apply ext_throughputAt (by simp)
  intro block hblock
  simp only [addOver_length] at hblock
  rw [throughputAt_addOver _ _ (by simpa using hblock), throughputAt_addOver _ _ hblock,
    throughputAt_addOver _ _ hblock, addOver_length]
  split
  · exact add_assoc _ _ _
  · rfl

theorem addOver_eq_self {throughputs : List ℚ} {span : RemoteSpanInfo PeerID} {amount : ℚ}
    (h : window throughputs.length span = ∅ ∨ amount = 0) :
    addOver throughputs span amount = throughputs := by
  apply ext_throughputAt (by simp)
  intro block hblock
  simp only [addOver_length] at hblock
  rw [throughputAt_addOver _ _ hblock]
  rcases h with hempty | rfl
  · simp [hempty]
  · simp

theorem computeThroughputs_length [LinearOrder PeerID]
    (spans : Dict PeerID (RemoteSpanInfo PeerID)) (totalBlocks : Nat) :
    (computeThroughputs spans totalBlocks).length = totalBlocks := by
  unfold computeThroughputs
  refine List.foldlRecOn _ _ (motive := fun throughputs : List ℚ => throughputs.length = totalBlocks)
    (List.length_replicate ..) fun throughputs hlength span _ => ?_
  rw [addOver_length, hlength]

theorem exists_minThroughput {throughputs : List ℚ} (h : throughputs ≠ []) :
    ∃ lowest, minThroughput throughputs = .ok lowest := by
  unfold minThroughput
  split
  · exact ⟨_, rfl⟩
  · rename_i hnone
    exact absurd (List.min?_eq_none_iff.mp hnone) h

theorem minThroughput_eq_ok {throughputs : List ℚ} {lowest : ℚ}
    (h : minThroughput throughputs = .ok lowest) :
    lowest ∈ throughputs ∧ ∀ throughput ∈ throughputs, lowest ≤ throughput := by
  unfold minThroughput at h
  split at h
  · rename_i hmin
    cases h
    exact List.min?_eq_some_iff.mp hmin
  · cases h

section choosing

theorem chooseBestStart_eq_ok {throughputs : List ℚ} {numBlocks start : Int}
    (h : chooseBestStart throughputs numBlocks = .ok start) :
    0 ≤ start ∧ start + numBlocks ≤ throughputs.length ∧
      ∀ other, 0 ≤ other → other + numBlocks ≤ throughputs.length →
        startOption throughputs numBlocks start ≤ startOption throughputs numBlocks other := by
  unfold chooseBestStart at h
  split at h
  · rename_i best hbest
    cases h
    obtain ⟨hmem, hleast⟩ := List.min?_eq_some_iff.mp hbest
    obtain ⟨start, hstart, rfl⟩ := List.mem_map.mp hmem
    obtain ⟨hlow, hhigh⟩ := Int.mem_range_iff.mp hstart
    refine ⟨hlow, by change start + numBlocks ≤ _; omega, fun other hother hstop => ?_⟩
    exact hleast _ (List.mem_map_of_mem (Int.mem_range_iff.mpr ⟨hother, by omega⟩))
  · cases h

theorem exists_chooseBestStart {throughputs : List ℚ} {numBlocks : Int}
    (h : numBlocks ≤ throughputs.length) :
    ∃ start, chooseBestStart throughputs numBlocks = .ok start := by
  unfold chooseBestStart
  split
  · exact ⟨_, rfl⟩
  · rename_i hnone
    rw [List.min?_eq_none_iff, List.map_eq_nil_iff] at hnone
    have hzero : (0 : Int) ∈ Int.range 0 (throughputs.length - numBlocks + 1) :=
      Int.mem_range_iff.mpr ⟨le_rfl, by omega⟩
    rw [hnone] at hzero
    cases hzero

/-- No window of the same length is better chosen: none is leximin-smaller. -/
theorem chooseBestStart_leximin {throughputs : List ℚ} {numBlocks start other : Int}
    (h : chooseBestStart throughputs numBlocks = .ok start) (hother : 0 ≤ other)
    (hstop : other + numBlocks ≤ throughputs.length)
    (hlength : (pySlice throughputs start (start + numBlocks)).length =
      (pySlice throughputs other (other + numBlocks)).length) :
    (pySlice throughputs start (start + numBlocks) : Multiset ℚ) =
        pySlice throughputs other (other + numBlocks) ∨
      LeximinLT (pySlice throughputs start (start + numBlocks) : Multiset ℚ)
        (pySlice throughputs other (other + numBlocks)) := by
  have hle := (chooseBestStart_eq_ok h).2.2 other hother hstop
  rcases Prod.Lex.toLex_le_toLex.mp hle with hlt | ⟨heq, -⟩
  · exact .inr ((leximinLT_iff_sorted_lt hlength).mpr hlt)
  · left
    refine Multiset.coe_eq_coe.mpr ((List.perm_insertionSort (· ≤ ·) _).symm.trans ?_)
    rw [show (pySlice throughputs start (start + numBlocks)).insertionSort (· ≤ ·) = _ from heq]
    exact List.perm_insertionSort _ _

theorem chooseBestStart_empty {throughputs : List ℚ} {numBlocks start : Int}
    (h : chooseBestStart throughputs numBlocks = .ok start) (hempty : numBlocks ≤ 0) :
    pySlice throughputs start (start + numBlocks) = [] := by
  have hle := (chooseBestStart_eq_ok h).2.2 (-numBlocks) (by omega) (by omega)
  have hnil : pySlice throughputs (-numBlocks) (-numBlocks + numBlocks) = [] := by
    rw [← List.length_eq_zero_iff, pySlice_length]
    have : pyClamp throughputs.length (-numBlocks + numBlocks) = 0 := by
      unfold pyClamp
      rw [if_neg (by omega)]
      omega
    omega
  unfold startOption at hle
  rw [hnil] at hle
  rcases Prod.Lex.toLex_le_toLex.mp hle with hlt | ⟨heq, -⟩
  · exact absurd hlt (List.not_lt_nil _)
  · exact List.length_eq_zero_iff.mp (by simpa using congrArg List.length heq)

end choosing

end Peerz.Server
