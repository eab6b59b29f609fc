import Mathlib.Algebra.Order.BigOperators.Group.List
import Mathlib.Data.Finset.Card
import Peerz.Server.Settling

/-! The blocks that no server serves, and how many of them a new server takes. -/
namespace Peerz.Server
open Library Utils.Dht

def uncovered (throughputs : List ℚ) : Finset Nat :=
  (Finset.range throughputs.length).filter fun block => throughputAt throughputs block = 0

theorem mem_uncovered {throughputs : List ℚ} {block : Nat} :
    block ∈ uncovered throughputs ↔
      block < throughputs.length ∧ throughputAt throughputs block = 0 := by
  simp [uncovered]

section slices
variable {throughputs : List ℚ} {start numBlocks : Nat}

theorem coe_pySlice_window (h : start + numBlocks ≤ throughputs.length) :
    (pySlice throughputs start (start + numBlocks : Nat) : Multiset ℚ) =
      (Finset.Ico start (start + numBlocks)).val.map (throughputAt throughputs) := by
  rw [coe_pySlice_eq_Ico, pyClamp_natCast (by omega), pyClamp_natCast h]

theorem length_pySlice_window (h : start + numBlocks ≤ throughputs.length) :
    (pySlice throughputs start (start + numBlocks : Nat)).length = numBlocks := by
  have hcard := congrArg Multiset.card (coe_pySlice_window h)
  simpa using hcard

theorem count_zero_pySlice (h : start + numBlocks ≤ throughputs.length) :
    Multiset.count 0 (pySlice throughputs start (start + numBlocks : Nat) : Multiset ℚ) =
      (uncovered throughputs ∩ Finset.Ico start (start + numBlocks)).card := by
  rw [coe_pySlice_window h, Multiset.count_map, ← Finset.filter_val, Finset.card_val]
  congr 1
  ext block
  rw [Finset.mem_filter, Finset.mem_inter, mem_uncovered, Finset.mem_Ico]
  constructor
  · rintro ⟨hblock, hzero⟩
    exact ⟨⟨by omega, hzero.symm⟩, hblock⟩
  · rintro ⟨⟨-, hzero⟩, hblock⟩
    exact ⟨hblock, hzero.symm⟩

theorem pySlice_eq_replicate (h : start + numBlocks ≤ throughputs.length)
    (hinside : Finset.Ico start (start + numBlocks) ⊆ uncovered throughputs) :
    pySlice throughputs start (start + numBlocks : Nat) = List.replicate numBlocks 0 := by
  refine List.eq_replicate_iff.mpr ⟨length_pySlice_window h, fun throughput hmem => ?_⟩
  rw [← Multiset.mem_coe, coe_pySlice_window h, Multiset.mem_map] at hmem
  obtain ⟨block, hblock, rfl⟩ := hmem
  exact (mem_uncovered.mp (hinside hblock)).2

end slices

section choosing
variable {throughputs : List ℚ} {numBlocks start other : Nat}

theorem chooseBestStart_inside (h : chooseBestStart throughputs numBlocks = .ok start) :
    start + numBlocks ≤ throughputs.length := by
  have hstop := (chooseBestStart_eq_ok h).2.1
  omega

theorem chooseBestStart_uncovered (hnonneg : ∀ throughput ∈ throughputs, 0 ≤ throughput)
    (h : chooseBestStart throughputs numBlocks = .ok start)
    (hother : other + numBlocks ≤ throughputs.length) :
    (uncovered throughputs ∩ Finset.Ico other (other + numBlocks)).card ≤
      (uncovered throughputs ∩ Finset.Ico start (start + numBlocks)).card := by
  have hinside := chooseBestStart_inside h
  have hleximin := chooseBestStart_leximin h (Int.natCast_nonneg other) (by omega)
    ((length_pySlice_window hinside).trans (length_pySlice_window hother).symm)
  rw [← count_zero_pySlice hother, ← count_zero_pySlice hinside]
  rcases hleximin with hsame | ⟨value, hlower, hvalue⟩
  · exact (congrArg (Multiset.count 0) hsame).ge
  · rcases lt_trichotomy value 0 with hnegative | rfl | hpositive
    · -- the chosen window would hold a negative throughput
      have hmem : value ∈ pySlice throughputs start (start + numBlocks : Nat) :=
        Multiset.mem_coe.mp (Multiset.count_pos.mp (Nat.zero_lt_of_lt hvalue))
      have := hnonneg value (List.mem_of_mem_take (List.mem_of_mem_drop hmem))
      exact absurd hnegative (not_lt.mpr this)
    · exact hvalue.le
    · exact (hlower 0 hpositive).ge

theorem chooseBestStart_first (h : chooseBestStart throughputs numBlocks = .ok start)
    (hstart : Finset.Ico start (start + numBlocks) ⊆ uncovered throughputs)
    (hother : other + numBlocks ≤ throughputs.length)
    (hempty : Finset.Ico other (other + numBlocks) ⊆ uncovered throughputs) : start ≤ other := by
  have hle := (chooseBestStart_eq_ok h).2.2 other (Int.natCast_nonneg other) (by omega)
  have hslice := pySlice_eq_replicate (chooseBestStart_inside h) hstart
  have hotherSlice := pySlice_eq_replicate hother hempty
  rw [Nat.cast_add] at hslice hotherSlice
  unfold startOption at hle
  rw [hslice, hotherSlice] at hle
  rcases Prod.Lex.toLex_le_toLex.mp hle with hlt | ⟨-, hle⟩
  · exact absurd hlt (lt_irrefl _)
  · exact Int.ofNat_le.mp hle

/-- A new server takes a block that no server serves, if there is one. -/
theorem chooseBestStart_progress (hpositive : 0 < numBlocks)
    (hnonneg : ∀ throughput ∈ throughputs, 0 ≤ throughput)
    (h : chooseBestStart throughputs numBlocks = .ok start) :
    (uncovered throughputs \ Finset.Ico start (start + numBlocks)).card ≤
      (uncovered throughputs).card - 1 := by
  have hinside := chooseBestStart_inside h
  have hsplit := Finset.card_sdiff_add_card_inter (uncovered throughputs)
    (Finset.Ico start (start + numBlocks))
  rcases (uncovered throughputs).eq_empty_or_nonempty with hempty | ⟨block, hblock⟩
  · simp [hempty]
  · have hlt := (mem_uncovered.mp hblock).1
    have hbound : min block (throughputs.length - numBlocks) + numBlocks ≤ throughputs.length := by
      omega
    have hmost := chooseBestStart_uncovered hnonneg h hbound
    have hone : 0 < (uncovered throughputs ∩
        Finset.Ico (min block (throughputs.length - numBlocks))
          (min block (throughputs.length - numBlocks) + numBlocks)).card := by
      refine Finset.card_pos.mpr ⟨block, Finset.mem_inter.mpr ⟨hblock, ?_⟩⟩
      rw [Finset.mem_Ico]
      omega
    omega

/-- Where exactly the first blocks are served, a new server goes on with the next ones. -/
theorem chooseBestStart_next {covered : Nat} (hpositive : 0 < numBlocks)
    (hnonneg : ∀ throughput ∈ throughputs, 0 ≤ throughput)
    (h : chooseBestStart throughputs numBlocks = .ok start)
    (hcovered : uncovered throughputs = Finset.Ico covered throughputs.length) :
    uncovered throughputs \ Finset.Ico start (start + numBlocks) =
      Finset.Ico (covered + numBlocks) throughputs.length := by
  have hinside := chooseBestStart_inside h
  have hmost {other : Nat} (hother : other + numBlocks ≤ throughputs.length) :=
    chooseBestStart_uncovered hnonneg h hother
  rw [hcovered] at hmost ⊢
  by_cases hfits : covered + numBlocks ≤ throughputs.length
  · -- a window fits into the rest
    have hrest : Finset.Ico covered (covered + numBlocks) ⊆
        Finset.Ico covered throughputs.length := Finset.Ico_subset_Ico_right hfits
    have hfull := hmost hfits
    rw [Finset.inter_eq_right.mpr hrest, Nat.card_Ico, Nat.add_sub_cancel_left] at hfull
    have hstart : Finset.Ico start (start + numBlocks) ⊆ Finset.Ico covered throughputs.length := by
      refine Finset.inter_eq_right.mp (Finset.eq_of_subset_of_card_le Finset.inter_subset_right ?_)
      simpa using hfull
    have hlow : covered ≤ start :=
      (Finset.mem_Ico.mp (hstart (Finset.mem_Ico.mpr ⟨le_rfl, by omega⟩))).1
    have hhigh : start ≤ covered :=
      chooseBestStart_first h (hcovered ▸ hstart) hfits (hcovered ▸ hrest)
    obtain rfl : start = covered := le_antisymm hhigh hlow
    ext block
    rw [Finset.mem_sdiff, Finset.mem_Ico, Finset.mem_Ico, Finset.mem_Ico]
    omega
  · -- the last window holds the whole rest
    have hbound : throughputs.length - numBlocks + numBlocks ≤ throughputs.length := by omega
    have hlast := hmost hbound
    have hwhole : Finset.Ico covered throughputs.length ⊆
        Finset.Ico (throughputs.length - numBlocks)
          (throughputs.length - numBlocks + numBlocks) := by
      intro block hblock
      rw [Finset.mem_Ico] at hblock ⊢
      omega
    rw [Finset.inter_eq_left.mpr hwhole] at hlast
    have hstart : Finset.Ico covered throughputs.length ⊆ Finset.Ico start (start + numBlocks) :=
      Finset.inter_eq_left.mp (Finset.eq_of_subset_of_card_le Finset.inter_subset_left hlast)
    rw [Finset.sdiff_eq_empty_iff_subset.mpr hstart, Finset.Ico_eq_empty (by omega)]

end choosing

section spans
variable {PeerID : Type} [LinearOrder PeerID] (spans : Dict PeerID (RemoteSpanInfo PeerID))
  {totalBlocks block : Nat}

omit [LinearOrder PeerID] in
theorem share_nonneg : ∀ share ∈ spans.values.map (fun span =>
    if block ∈ window totalBlocks span then (span.throughput : ℚ) else 0), 0 ≤ share := by
  intro share hshare
  obtain ⟨span, -, rfl⟩ := List.mem_map.mp hshare
  split
  · exact NNRat.cast_nonneg _
  · exact le_rfl

theorem computeThroughputs_nonneg :
    ∀ throughput ∈ computeThroughputs spans totalBlocks, 0 ≤ throughput := by
  intro throughput hmem
  obtain ⟨block, hlt, rfl⟩ := List.getElem_of_mem hmem
  have hsum := throughputAt_computeThroughputs spans (computeThroughputs_length spans _ ▸ hlt)
  rw [throughputAt, List.getD_eq_getElem _ _ hlt] at hsum
  rw [hsum]
  exact List.sum_nonneg (share_nonneg spans)

theorem mem_uncovered_computeThroughputs :
    block ∈ uncovered (computeThroughputs spans totalBlocks) ↔ block < totalBlocks ∧
      ∀ peerId span, spans.get? peerId = some span → block ∈ window totalBlocks span →
        span.throughput = 0 := by
  rw [mem_uncovered, computeThroughputs_length]
  refine and_congr_right fun hblock => ?_
  rw [throughputAt_computeThroughputs spans hblock]
  constructor
  · intro hsum peerId span hspan hinside
    have hzero := List.all_zero_of_le_zero_le_of_sum_eq_zero (share_nonneg spans) hsum
      (List.mem_map_of_mem (Dict.mem_values_iff.mpr ⟨peerId, hspan⟩))
    rw [if_pos hinside] at hzero
    exact NNRat.cast_eq_zero.mp hzero
  · intro hzero
    refine List.sum_eq_zero fun share hshare => ?_
    obtain ⟨span, hmem, rfl⟩ := List.mem_map.mp hshare
    obtain ⟨peerId, hspan⟩ := Dict.mem_values_iff.mp hmem
    split
    · rename_i hinside
      exact NNRat.cast_eq_zero.mpr (hzero peerId span hspan hinside)
    · rfl

end spans
end Peerz.Server
