import Mathlib.Algebra.Order.Field.Basic
import Peerz.Server.Settling

/-! What a decision to move promises: the simulated throughputs are those of the simulated spans,
the bottleneck gains, and no block goes dark while the server is away. -/
namespace Peerz.Server
open Library Utils.Dht

variable {PeerID : Type} [LinearOrder PeerID]

omit [LinearOrder PeerID] in
theorem sum_map_values_erase [DecidableEq PeerID] {V : Type} {dict : Dict PeerID V} {key : PeerID}
    {value : V} (h : dict.get? key = some value) (f : V → ℚ) :
    (dict.values.map f).sum = f value + ((dict.erase key).values.map f).sum := by
  obtain ⟨left, right, hsplit⟩ := List.append_of_mem (Dict.get?_eq_some_iff.mp h)
  have hnodup := dict.nodupKeys
  rw [hsplit, List.map_append, List.map_cons, List.nodup_append] at hnodup
  obtain ⟨-, hright, hleft⟩ := hnodup
  have hleftKept : left.filter (fun entry => decide (entry.1 ≠ key)) = left :=
    List.filter_eq_self.mpr fun entry hentry => decide_eq_true
      (hleft _ (List.mem_map_of_mem hentry) _ List.mem_cons_self)
  have hrightKept : right.filter (fun entry => decide (entry.1 ≠ key)) = right := by
    apply List.filter_eq_self.mpr
    intro entry hentry
    apply decide_eq_true
    intro hkey
    exact (List.nodup_cons.mp hright).1 (List.mem_map.mpr ⟨entry, hentry, hkey⟩)
  have herase : (dict.erase key).entries = left ++ right := by
    change dict.entries.filter (fun entry => decide (entry.1 ≠ key)) = _
    rw [hsplit, List.filter_append, hleftKept, List.filter_cons_of_neg (by simp), hrightKept]
  unfold Dict.values
  rw [herase, hsplit]
  simp only [List.map_append, List.map_cons, List.sum_append, List.sum_cons]
  ring

namespace Simulation

variable {numBlocks : Nat} {servers : List (PeerID × RPS)} {sim next settled : Simulation PeerID}

theorem Consistent.throughputs_eq (h : sim.Consistent numBlocks servers) :
    sim.throughputs = computeThroughputs sim.spans numBlocks := by
  apply ext_throughputAt (h.length.trans (computeThroughputs_length _ _).symm)
  intro block hblock
  rw [h.length] at hblock
  rw [h.sums block hblock, throughputAt_computeThroughputs _ hblock]

end Simulation

theorem simulateMoves_some {orders : Nat → List PeerID} {passes : Nat} {localPeerId : PeerID}
    {sim settled : Simulation PeerID} {numBlocks : Nat} {servers : List (PeerID × RPS)}
    (hsim : sim.Consistent numBlocks servers) {initialThroughput : ℚ}
    (h : simulateMoves orders passes localPeerId sim initialThroughput = .ok (some settled)) :
    ∃ localSpan lowest next, sim.spans.get? localPeerId = some localSpan ∧
      minThroughput (removed sim.throughputs localSpan) = .ok lowest ∧
      ¬ (eps < initialThroughput ∧ lowest ≤ 0) ∧ sim.visit localPeerId = .ok (next, true) ∧
      Simulation.whileMoved orders passes 0 next = .ok settled := by
  have hopened := h
  unfold simulateMoves at hopened
  cases hlocal : sim.spans.get? localPeerId with
  | none =>
      rw [hlocal] at hopened
      cases hopened
  | some localSpan =>
      rw [hlocal] at hopened
      obtain ⟨lowest, hlowest, -⟩ := bind_eq_ok.mp hopened
      obtain ⟨⟨next, moved⟩, hvisit⟩ := Simulation.exists_visit hsim (hsim.mem_servers hlocal)
      rw [simulateMoves_eq hlocal hlowest hvisit] at h
      split at h
      · cases h
      · rename_i hlit
        cases moved with
        | false => cases h
        | true =>
            obtain ⟨final, hfinal, h⟩ := bind_eq_ok.mp h
            cases h
            exact ⟨localSpan, lowest, next, rfl, hlowest, hlit, hvisit, hfinal⟩

/-- A block that stays lit with a little more than the server removed stays lit without it. -/
theorem positive_without {sim : Simulation PeerID} {numBlocks : Nat}
    {servers : List (PeerID × RPS)} (hsim : sim.Consistent numBlocks servers)
    {localPeerId : PeerID} {localSpan : RemoteSpanInfo PeerID}
    (hlocal : sim.spans.get? localPeerId = some localSpan) {lowest : ℚ}
    (hlowest : minThroughput (removed sim.throughputs localSpan) = .ok lowest)
    (hpositive : 0 < lowest) {block : Nat} (hblock : block < numBlocks) :
    0 < throughputAt (computeThroughputs (sim.spans.erase localPeerId) numBlocks) block := by
  have hinside : block < sim.throughputs.length := hsim.length.symm ▸ hblock
  have hremoved : 0 < throughputAt (removed sim.throughputs localSpan) block := by
    refine hpositive.trans_le ((minThroughput_eq_ok hlowest).2 _ ?_)
    have hlt : block < (removed sim.throughputs localSpan).length := by rwa [removed_length]
    rw [throughputAt, List.getD_eq_getElem _ _ hlt]
    exact List.getElem_mem hlt
  have hshare := sum_map_values_erase hlocal fun span =>
    if block ∈ window numBlocks span then (span.throughput : ℚ) else 0
  rw [← hsim.sums block hblock] at hshare
  rw [removed, throughputAt_addOver _ _ hinside, hsim.length] at hremoved
  rw [throughputAt_computeThroughputs _ hblock]
  have hrate : (0 : ℚ) ≤ localSpan.throughput := NNRat.cast_nonneg _
  have hextra : 0 ≤ (localSpan.throughput : ℚ) * eps :=
    mul_nonneg hrate (by norm_num [eps])
  split_ifs at hshare hremoved with hholds
  · rw [mul_add, mul_one] at hremoved
    linarith
  · linarith

/-- Between the visits, in whatever order, the throughputs are those of the current spans. A
decision to move means that the bottleneck gains by more than the balance quality asks for, and
that the other servers keep every block while this one is away. -/
theorem rebalancing_sound {moduleInfos : List (RemoteModuleInfo PeerID)}
    (hnumbered : Numbered moduleInfos) :
    (∀ visits sim, LeadsTo Simulation.visitStep (initialSimulation moduleInfos) visits sim →
      sim.throughputs = computeThroughputs sim.spans moduleInfos.length) ∧
    ∀ orders passes localPeerId balanceQuality, balanceQuality ≤ 1 →
      shouldChooseOtherBlocks orders passes localPeerId moduleInfos balanceQuality = .ok true →
      ∃ initialThroughput settled count newThroughput,
        minThroughput (initialSimulation moduleInfos).throughputs = .ok initialThroughput ∧
        simulateMoves orders passes localPeerId (initialSimulation moduleInfos)
          initialThroughput = .ok (some settled) ∧
        LeadsTo Simulation.visitStep (initialSimulation moduleInfos)
          (localPeerId :: (List.range count).flatMap orders) settled ∧
        minThroughput settled.throughputs = .ok newThroughput ∧
        initialThroughput < balanceQuality * newThroughput ∧
        (eps < initialThroughput → ∀ block < moduleInfos.length,
          0 < throughputAt (computeThroughputs
            ((computeSpans moduleInfos .joining).erase localPeerId) moduleInfos.length) block) := by
  have hstart := initialSimulation_consistent hnumbered
  constructor
  · intro visits sim hvisits
    exact (hstart.leadsTo hvisits).throughputs_eq
  · intro orders passes localPeerId balanceQuality hquality h
    unfold shouldChooseOtherBlocks at h
    rw [if_neg hquality.not_gt] at h
    obtain ⟨initialThroughput, hinitial, h⟩ := bind_eq_ok.mp h
    obtain ⟨outcome, houtcome, h⟩ := bind_eq_ok.mp h
    cases outcome with
    | none => cases h
    | some settled =>
        obtain ⟨newThroughput, hnew, h⟩ := bind_eq_ok.mp h
        by_cases hlow : newThroughput < initialThroughput ∨ newThroughput < eps
        · rw [if_pos hlow] at h
          cases h
        · rw [if_neg hlow] at h
          obtain ⟨localSpan, lowest, next, hlocal, hlowest, hlit, hvisit, hloop⟩ :=
            simulateMoves_some hstart houtcome
          obtain ⟨count, hleads⟩ := Simulation.whileMoved_leadsTo hloop
          rw [← List.range_eq_range'] at hleads
          refine ⟨initialThroughput, settled, count, newThroughput, hinitial, houtcome,
            leadsTo_cons.mpr ⟨next, Simulation.visitStep_eq_some.mpr ⟨true, hvisit⟩, hleads⟩,
            hnew, ?_, ?_⟩
          · have hgain : initialThroughput / newThroughput < balanceQuality - eps :=
              of_decide_eq_true (Except.ok.inj h)
            have heps : 0 < eps := by norm_num [eps]
            have hpositive : 0 < newThroughput := by
              rw [not_or, not_lt, not_lt] at hlow
              exact heps.trans_le hlow.2
            exact (div_lt_iff₀ hpositive).mp (hgain.trans (sub_lt_self _ heps))
          · intro hbright block hblock
            have hpositive : 0 < lowest := by
              by_contra hdark
              exact hlit ⟨hbright, not_lt.mp hdark⟩
            exact positive_without hstart hlocal hlowest hpositive hblock

def unevenBlocks : List (RemoteModuleInfo Nat) :=
  let first (throughput : RPS) : ServerInfo :=
    { state := .online, throughput, startBlock := some 0, endBlock := some 1 }
  let second : ServerInfo :=
    { state := .online, throughput := 1, startBlock := some 1, endBlock := some 2 }
  [⟨⟨"model", 0⟩, (Dict.empty.insert 1 (first 1)).insert 2 (first 3)⟩,
    ⟨⟨"model", 1⟩, Dict.empty.insert 3 second⟩]

theorem rebalancing_sound_unevenBlocks :
    shouldChooseOtherBlocks (fun _ => [1, 2, 3]) 2 1 unevenBlocks 1 = .ok true ∧
      ∃ initialThroughput newThroughput,
        minThroughput (initialSimulation unevenBlocks).throughputs = .ok initialThroughput ∧
        initialThroughput < 1 * newThroughput ∧ 0 < throughputAt (computeThroughputs
          ((computeSpans unevenBlocks .joining).erase 1) 2) 0 := by
  have hnumbered : Numbered unevenBlocks := by
    intro blockIdx moduleInfo hblock
    match blockIdx with
    | 0 | 1 =>
        cases hblock
        rfl
  have hdecision : shouldChooseOtherBlocks (fun _ => [1, 2, 3]) 2 1 unevenBlocks 1 = .ok true := by
    decide +kernel
  obtain ⟨initialThroughput, settled, count, newThroughput, hinitial, -, -, -, hgain, hlit⟩ :=
    (rebalancing_sound hnumbered).2 (fun _ => [1, 2, 3]) 2 1 1 le_rfl hdecision
  have hone : minThroughput (initialSimulation unevenBlocks).throughputs = .ok 1 := by
    decide +kernel
  obtain rfl := Except.ok.inj (hinitial.symm.trans hone)
  exact ⟨hdecision, 1, newThroughput, hone, hgain,
    hlit (by norm_num [eps]) 0 (by decide)⟩

end Peerz.Server
