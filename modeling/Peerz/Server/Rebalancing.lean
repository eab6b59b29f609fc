import Mathlib.Data.NNRat.Lemmas
import Mathlib.Tactic.Linarith
import Mathlib.Tactic.Ring
import Peerz.Library.Checked
import Peerz.Library.Runs
import Peerz.Server.BlockThroughputs

/-! One relocation of a span improves the sorted block throughputs, or changes none of
them. Since finitely many vectors of throughputs can come up, the simulation settles. -/
namespace Peerz.Server
open Library Utils.Dht

variable {PeerID : Type}

def Positive (span : RemoteSpanInfo PeerID) : Prop := 0 < span.throughput ∧ 0 < span.length

instance (span : RemoteSpanInfo PeerID) : Decidable (Positive span) :=
  inferInstanceAs (Decidable (_ ∧ _))

/-- A span covers a window of the model or none of its blocks. -/
def Placed (numBlocks : Nat) (span : RemoteSpanInfo PeerID) : Prop :=
  (0 ≤ span.start ∧ span.start < span.stop ∧ span.stop ≤ numBlocks) ∨
    (span.length ≤ 0 ∧ window numBlocks span = ∅)

@[simp] theorem moveSpan_length (span : RemoteSpanInfo PeerID) (newStart : Int) :
    (moveSpan span newStart).length = span.length := by
  unfold moveSpan
  simp [RemoteSpanInfo.length]

theorem positive_moveSpan {span : RemoteSpanInfo PeerID} {newStart : Int} :
    Positive (moveSpan span newStart) ↔ Positive span := by
  unfold Positive
  rw [moveSpan_length]
  rfl

theorem window_of_bounds {numBlocks : Nat} {span : RemoteSpanInfo PeerID} (hlow : 0 ≤ span.start)
    (hlt : span.start < span.stop) (hhigh : span.stop ≤ numBlocks) :
    window numBlocks span = Finset.Ico span.start.toNat span.stop.toNat := by
  unfold window pyClamp
  rw [if_neg (by omega), if_neg (by omega)]
  congr 1 <;> omega

/-- What the best start is chosen from: the throughputs without the server, and a little less. -/
def removed (throughputs : List ℚ) (span : RemoteSpanInfo PeerID) : List ℚ :=
  addOver throughputs span (-(span.throughput * (1 + eps)))

def relocated (throughputs : List ℚ) (span : RemoteSpanInfo PeerID) (newStart : Int) : List ℚ :=
  addOver (addOver throughputs span (-span.throughput)) (moveSpan span newStart) span.throughput

@[simp] theorem removed_length (throughputs : List ℚ) (span : RemoteSpanInfo PeerID) :
    (removed throughputs span).length = throughputs.length :=
  addOver_length _ _ _

theorem addOver_null {throughputs : List ℚ} {span : RemoteSpanInfo PeerID}
    (hplaced : Placed throughputs.length span) (hnull : ¬ Positive span) {amount : ℚ}
    (hamount : span.throughput = 0 → amount = 0) : addOver throughputs span amount = throughputs := by
  apply addOver_eq_self
  by_cases hzero : span.throughput = 0
  · exact .inr (hamount hzero)
  · left
    rcases hplaced with ⟨-, hlt, -⟩ | ⟨-, hempty⟩
    · refine absurd ⟨pos_iff_ne_zero.mpr hzero, ?_⟩ hnull
      unfold RemoteSpanInfo.length
      omega
    · exact hempty

theorem removed_null {throughputs : List ℚ} {span : RemoteSpanInfo PeerID}
    (hplaced : Placed throughputs.length span) (hnull : ¬ Positive span) :
    removed throughputs span = throughputs :=
  addOver_null hplaced hnull fun hzero => by simp [hzero]

section relocation
variable {throughputs : List ℚ} {span : RemoteSpanInfo PeerID} {newStart : Int}
  (hplaced : Placed throughputs.length span)
  (hchosen : chooseBestStart (removed throughputs span) span.length = .ok newStart)
include hplaced hchosen

theorem placed_moveSpan : Placed throughputs.length (moveSpan span newStart) := by
  obtain ⟨hlow, hhigh, -⟩ := chooseBestStart_eq_ok hchosen
  rw [removed_length] at hhigh
  rcases hplaced with ⟨hstart, hlt, hstop⟩ | ⟨hempty, -⟩
  · left
    unfold moveSpan RemoteSpanInfo.length at *
    dsimp only
    omega
  · right
    refine ⟨by rwa [moveSpan_length], ?_⟩
    have hslice := congrArg List.length (chooseBestStart_empty hchosen hempty)
    rw [pySlice_length, removed_length] at hslice
    unfold window moveSpan
    rw [Finset.Ico_eq_empty_iff]
    dsimp only [List.length_nil] at *
    omega

theorem relocated_null (hnull : ¬ Positive span) :
    relocated throughputs span newStart = throughputs := by
  have hmoved := placed_moveSpan hplaced hchosen
  have hfirst : addOver throughputs span (-span.throughput) = throughputs :=
    addOver_null hplaced hnull fun hzero => by simp [hzero]
  unfold relocated
  rw [hfirst]
  refine addOver_null hmoved (mt positive_moveSpan.mp hnull) fun hzero => ?_
  exact_mod_cast hzero

omit hplaced in
theorem window_moveSpan (hstart : 0 ≤ span.start) (hlt : span.start < span.stop)
    (hstop : span.stop ≤ throughputs.length) (hmoves : span.start ≠ newStart) :
    (window throughputs.length span).card =
        (window throughputs.length (moveSpan span newStart)).card ∧
      window throughputs.length span ≠ window throughputs.length (moveSpan span newStart) := by
  obtain ⟨hlow, hhigh, -⟩ := chooseBestStart_eq_ok hchosen
  rw [removed_length] at hhigh
  have hlength : span.length = span.stop - span.start := rfl
  have hsource := window_of_bounds hstart hlt hstop
  have htarget : window throughputs.length (moveSpan span newStart) =
      Finset.Ico newStart.toNat (newStart + span.length).toNat :=
    window_of_bounds hlow (by unfold moveSpan; dsimp only; omega) hhigh
  rw [hsource, htarget]
  refine ⟨by rw [Nat.card_Ico, Nat.card_Ico]; omega, fun heq => ?_⟩
  have hfirst : span.start.toNat ∈ Finset.Ico newStart.toNat (newStart + span.length).toNat := by
    rw [← heq, Finset.mem_Ico]
    omega
  have hsecond : newStart.toNat ∈ Finset.Ico span.start.toNat span.stop.toNat := by
    rw [heq, Finset.mem_Ico]
    omega
  rw [Finset.mem_Ico] at hfirst hsecond
  omega

omit hplaced in
/-- The chosen window is no better than the old one, which has lost a little more. -/
theorem removed_leximin (hstart : 0 ≤ span.start) (hlt : span.start < span.stop)
    (hstop : span.stop ≤ throughputs.length) (hmoves : span.start ≠ newStart) :
    (window throughputs.length (moveSpan span newStart)).val.map
          (throughputAt (removed throughputs span)) =
        (window throughputs.length span).val.map (throughputAt (removed throughputs span)) ∨
      LeximinLT ((window throughputs.length (moveSpan span newStart)).val.map
          (throughputAt (removed throughputs span)))
        ((window throughputs.length span).val.map (throughputAt (removed throughputs span))) := by
  have hcard := (window_moveSpan hchosen hstart hlt hstop hmoves).1
  have hspanStop : span.start + span.length = span.stop := add_sub_cancel _ _
  have hslice (other : RemoteSpanInfo PeerID) :
      (pySlice (removed throughputs span) other.start other.stop : Multiset ℚ) =
        (window throughputs.length other).val.map (throughputAt (removed throughputs span)) := by
    rw [coe_pySlice, removed_length]
  have hsize (other : RemoteSpanInfo PeerID) :
      (pySlice (removed throughputs span) other.start other.stop).length =
        (window throughputs.length other).card := by
    rw [pySlice_length, removed_length, window, Nat.card_Ico]
  have hchoice := chooseBestStart_leximin hchosen hstart
    (by rw [removed_length, hspanStop]; exact hstop)
    (by rw [hspanStop, hsize span]; exact (hsize (moveSpan span newStart)).trans hcard.symm)
  rw [hspanStop, hslice span] at hchoice
  rwa [← hslice (moveSpan span newStart)]

/-- A positive span moves to where the sorted throughputs gain. -/
theorem relocated_positive (hpositive : Positive span) (hmoves : span.start ≠ newStart) :
    LeximinLT (throughputs : Multiset ℚ) (relocated throughputs span newStart) := by
  have hrate : (0 : ℚ) < span.throughput := by exact_mod_cast hpositive.1
  have hbounds : 0 ≤ span.start ∧ span.start < span.stop ∧ span.stop ≤ throughputs.length :=
    hplaced.resolve_right fun h => h.1.not_gt hpositive.2
  obtain ⟨hstart, hlt, hstop⟩ := hbounds
  obtain ⟨hcard, hne⟩ := window_moveSpan hchosen hstart hlt hstop hmoves
  have hleximin := removed_leximin hchosen hstart hlt hstop hmoves
  -- the throughputs without the server; the choice sees its old window a little lower
  let base := throughputAt (addOver throughputs span (-span.throughput))
  have hbase {block : Nat} (hblock : block < throughputs.length) :
      base block = if block ∈ window throughputs.length span then
        throughputAt throughputs block - span.throughput else throughputAt throughputs block := by
    rw [sub_eq_add_neg]
    exact throughputAt_addOver _ _ hblock
  have hbefore : (throughputs : Multiset ℚ) = (Finset.range throughputs.length).val.map
      fun block => if block ∈ window throughputs.length span then base block + span.throughput
        else base block := by
    rw [coe_eq_map]
    refine Multiset.map_congr rfl fun block hblock => ?_
    rw [hbase (Finset.mem_range.mp hblock)]
    split
    · rw [sub_add_cancel]
    · rfl
  have hafter : (relocated throughputs span newStart : Multiset ℚ) =
      (Finset.range throughputs.length).val.map
        fun block => if block ∈ window throughputs.length (moveSpan span newStart) then
          base block + span.throughput else base block := by
    rw [coe_eq_map, relocated, addOver_length, addOver_length]
    refine Multiset.map_congr rfl fun block hblock => ?_
    rw [throughputAt_addOver _ _ (by simpa using hblock), addOver_length]
  have hlowered (span' : RemoteSpanInfo PeerID) :
      (window throughputs.length span').val.map (throughputAt (removed throughputs span)) =
        (window throughputs.length span').val.map fun block =>
          if block ∈ window throughputs.length span then base block - span.throughput * eps
          else base block := by
    refine Multiset.map_congr rfl fun block hblock => ?_
    have hblock := Finset.mem_range.mp (window_subset _ span' hblock)
    rw [hbase hblock, removed, throughputAt_addOver _ _ hblock]
    split
    · ring
    · rfl
  rw [hlowered, hlowered] at hleximin
  rw [hbefore, hafter]
  exact leximinLT_relocate (window_subset _ _) (window_subset _ _) hcard hne base hrate
    (mul_pos hrate (by norm_num [eps])) hleximin

end relocation

variable [LinearOrder PeerID]

namespace Simulation

/-- What every visit keeps: the servers with their throughputs, and the throughputs of the
blocks as the sums over the spans. -/
structure Consistent (numBlocks : Nat) (servers : List (PeerID × RPS)) (sim : Simulation PeerID) :
    Prop where
  servers : sim.spans.entries.map (fun entry => (entry.1, entry.2.throughput)) = servers
  length : sim.throughputs.length = numBlocks
  placed : ∀ peerId span, sim.spans.get? peerId = some span → Placed numBlocks span
  sums : ∀ block < numBlocks, throughputAt sim.throughputs block =
    (sim.spans.values.map fun span =>
      if block ∈ window numBlocks span then (span.throughput : ℚ) else 0).sum

structure Moves (sim next : Simulation PeerID) (peerId : PeerID) (span : RemoteSpanInfo PeerID)
    (newStart : Int) : Prop where
  present : sim.spans.get? peerId = some span
  chosen : chooseBestStart (removed sim.throughputs span) span.length = .ok newStart
  away : span.start ≠ newStart
  spans : next.spans = sim.spans.insert peerId (moveSpan span newStart)
  throughputs : next.throughputs = relocated sim.throughputs span newStart

theorem visit_cases {sim next : Simulation PeerID} {peerId : PeerID} {moved : Bool}
    (h : sim.visit peerId = .ok (next, moved)) :
    (moved = false ∧ next = sim ∧ ∃ span, sim.spans.get? peerId = some span ∧
        chooseBestStart (removed sim.throughputs span) span.length = .ok span.start) ∨
      moved = true ∧ ∃ span newStart, sim.Moves next peerId span newStart := by
  unfold visit at h
  cases hspan : sim.spans.get? peerId with
  | none =>
      rw [hspan] at h
      cases h
  | some span =>
      rw [hspan] at h
      obtain ⟨newStart, hchosen, h⟩ := bind_eq_ok.mp h
      have hback : -((span.throughput : ℚ) * (1 + eps)) + span.throughput * eps =
          -span.throughput := by ring
      rw [addOver_addOver, hback] at h
      cases h
      by_cases haway : span.start = newStart
      · subst haway
        refine .inl ⟨by simp, ?_, span, rfl, hchosen⟩
        simp only [ne_eq, not_true_eq_false, if_false]
        rw [addOver_addOver, neg_add_cancel, addOver_eq_self (.inr rfl), Dict.insert_self hspan]
      · refine .inr ⟨by simpa using haway, span, newStart, hspan, hchosen, haway, ?_, ?_⟩
        · simp [haway]
        · simp [haway, relocated, moveSpan, RemoteSpanInfo.throughput]

theorem exists_visit {numBlocks : Nat} {servers : List (PeerID × RPS)} {sim : Simulation PeerID}
    (hsim : sim.Consistent numBlocks servers) {peerId : PeerID}
    (hpeer : peerId ∈ servers.map Prod.fst) : ∃ result, sim.visit peerId = .ok result := by
  rw [← hsim.servers, List.map_map] at hpeer
  obtain ⟨span, hspan⟩ := Dict.mem_keys_iff.mp hpeer
  have hget := Dict.get?_eq_some_iff.mpr hspan
  have hlength : span.length ≤ (removed sim.throughputs span).length := by
    rw [removed_length, hsim.length]
    rcases hsim.placed peerId span hget with ⟨hlow, hlt, hhigh⟩ | ⟨hempty, -⟩
    · unfold RemoteSpanInfo.length
      omega
    · omega
  obtain ⟨newStart, hchosen⟩ := exists_chooseBestStart hlength
  unfold visit
  rw [hget]
  dsimp only
  rw [show addOver sim.throughputs span (-(span.throughput * (1 + eps))) =
    removed sim.throughputs span from rfl, hchosen]
  exact ⟨_, rfl⟩

namespace Moves

variable {sim next : Simulation PeerID} {peerId : PeerID} {span : RemoteSpanInfo PeerID}
  {newStart : Int} {numBlocks : Nat} {servers : List (PeerID × RPS)}

theorem get?_self (h : sim.Moves next peerId span newStart) :
    next.spans.get? peerId = some (moveSpan span newStart) := by
  rw [h.spans, Dict.get?_insert, if_pos rfl]

theorem get?_other (h : sim.Moves next peerId span newStart) {other : PeerID}
    (hne : other ≠ peerId) : next.spans.get? other = sim.spans.get? other := by
  rw [h.spans, Dict.get?_insert, if_neg hne]

theorem consistent (h : sim.Moves next peerId span newStart)
    (hsim : sim.Consistent numBlocks servers) : next.Consistent numBlocks servers := by
  obtain ⟨left, right, hentries, hinsert⟩ :=
    Dict.entries_insert h.present (moveSpan span newStart)
  have hplaced : Placed sim.throughputs.length span :=
    hsim.length.symm ▸ hsim.placed peerId span h.present
  constructor
  · rw [← hsim.servers, h.spans, hinsert, hentries]
    simp [moveSpan, RemoteSpanInfo.throughput]
  · rw [h.throughputs, relocated, addOver_length, addOver_length, hsim.length]
  · intro other otherSpan hother
    by_cases hne : other = peerId
    · subst hne
      cases h.get?_self.symm.trans hother
      exact hsim.length ▸ placed_moveSpan hplaced h.chosen
    · rw [h.get?_other hne] at hother
      exact hsim.placed other otherSpan hother
  · intro block hblock
    have hlength : block < sim.throughputs.length := hsim.length.symm ▸ hblock
    have hsums := hsim.sums block hblock
    rw [h.throughputs, relocated, throughputAt_addOver _ _ (by simpa using hlength),
      throughputAt_addOver _ _ hlength, addOver_length, hsim.length, hsums, h.spans]
    unfold Dict.values
    rw [hinsert, hentries]
    simp only [List.map_append, List.map_cons, List.sum_append, List.sum_cons]
    have hrate : (moveSpan span newStart).throughput = span.throughput := rfl
    rw [hrate]
    split_ifs <;> ring

section outcomes
variable (h : sim.Moves next peerId span newStart) (hsim : sim.Consistent numBlocks servers)
include h hsim

theorem placed : Placed sim.throughputs.length span :=
  hsim.length.symm ▸ hsim.placed peerId span h.present

theorem positive (hpositive : Positive span) :
    LeximinLT (sim.throughputs : Multiset ℚ) next.throughputs := by
  rw [h.throughputs]
  exact relocated_positive (h.placed hsim) h.chosen hpositive h.away

theorem null (hnull : ¬ Positive span) : next.throughputs = sim.throughputs ∧
    chooseBestStart sim.throughputs span.length = .ok newStart := by
  have hplaced := h.placed hsim
  refine ⟨by rw [h.throughputs, relocated_null hplaced h.chosen hnull], ?_⟩
  have hchosen := h.chosen
  rwa [removed_null hplaced hnull] at hchosen

end outcomes
end Moves

/-! The measure of a simulation: how many vectors of throughputs are behind it, and then
how many null spans have come to rest. -/

def Settled (sim : Simulation PeerID) (peerId : PeerID) : Prop :=
  ∃ span, sim.spans.get? peerId = some span ∧ ¬ Positive span ∧
    chooseBestStart sim.throughputs span.length = .ok span.start

theorem Settled.not_moves {sim next : Simulation PeerID} {peerId : PeerID} {numBlocks : Nat}
    {servers : List (PeerID × RPS)} {span : RemoteSpanInfo PeerID} {newStart : Int}
    (h : sim.Settled peerId) (hsim : sim.Consistent numBlocks servers) :
    ¬ sim.Moves next peerId span newStart := by
  intro hmoves
  obtain ⟨settled, hget, hnull, hstart⟩ := h
  cases hget.symm.trans hmoves.present
  have hchosen := (hmoves.null hsim hnull).2
  exact hmoves.away (Except.ok.inj (hstart.symm.trans hchosen))

section measure
variable {numBlocks : Nat} {servers : List (PeerID × RPS)} {sim next : Simulation PeerID}
  {peerId : PeerID} {span : RemoteSpanInfo PeerID} {newStart : Int}

def subsetSums : List RPS → Finset ℚ
  | [] => {0}
  | rate :: rates => subsetSums rates ∪ (subsetSums rates).image ((rate : ℚ) + ·)

theorem sum_mem_subsetSums {α : Type} (items : List α) (chosen : α → Prop) [DecidablePred chosen]
    (rate : α → RPS) : (items.map fun item => if chosen item then (rate item : ℚ) else 0).sum ∈
      subsetSums (items.map rate) := by
  induction items with
  | nil => simp [subsetSums]
  | cons item items ih =>
      simp only [List.map_cons, List.sum_cons, subsetSums, Finset.mem_union]
      split
      · exact .inr (Finset.mem_image_of_mem _ ih)
      · left
        rwa [zero_add]

def reachableThroughputs (numBlocks : Nat) (servers : List (PeerID × RPS)) :
    Finset (Multiset ℚ) :=
  multisetsOver (subsetSums (servers.map Prod.snd)) numBlocks

theorem Consistent.mem_reachableThroughputs (hsim : sim.Consistent numBlocks servers) :
    (sim.throughputs : Multiset ℚ) ∈ reachableThroughputs numBlocks servers := by
  unfold reachableThroughputs
  rw [← hsim.length, ← Multiset.coe_card]
  refine mem_multisetsOver fun value hvalue => ?_
  rw [coe_eq_map] at hvalue
  obtain ⟨block, hblock, rfl⟩ := Multiset.mem_map.mp hvalue
  have hblock : block < numBlocks := hsim.length ▸ Finset.mem_range.mp hblock
  have hrates : servers.map Prod.snd = sim.spans.values.map RemoteSpanInfo.throughput := by
    rw [← hsim.servers, Dict.values, List.map_map, List.map_map]
    rfl
  rw [hsim.sums block hblock, hrates]
  exact sum_mem_subsetSums _ _ _

open Classical in
noncomputable def settledServers (servers : List (PeerID × RPS)) (sim : Simulation PeerID) :
    Finset PeerID :=
  (servers.map Prod.fst).toFinset.filter sim.Settled

open Classical in
theorem settledServers_card_le (servers : List (PeerID × RPS)) (sim : Simulation PeerID) :
    (settledServers servers sim).card ≤ servers.length := by
  refine (Finset.card_filter_le _ _).trans ((List.toFinset_card_le _).trans ?_)
  rw [List.length_map]

noncomputable def potential (numBlocks : Nat) (servers : List (PeerID × RPS))
    (sim : Simulation PeerID) : Nat :=
  leximinRank (reachableThroughputs numBlocks servers) sim.throughputs * (servers.length + 1) +
    (settledServers servers sim).card

def potentialBound (numBlocks : Nat) (servers : List (PeerID × RPS)) : Nat :=
  ((reachableThroughputs numBlocks servers).card + 1) * (servers.length + 1)

theorem potential_lt_bound (numBlocks : Nat) (servers : List (PeerID × RPS))
    (sim : Simulation PeerID) :
    potential numBlocks servers sim < potentialBound numBlocks servers := by
  have hrank := leximinRank_le (reachableThroughputs numBlocks servers) (sim.throughputs : Multiset ℚ)
  have hsettled := settledServers_card_le servers sim
  have hproduct := Nat.mul_le_mul_right (servers.length + 1) hrank
  unfold potential potentialBound
  rw [Nat.add_mul, Nat.one_mul]
  omega

theorem Consistent.mem_servers (hsim : sim.Consistent numBlocks servers) {peerId : PeerID}
    {span : RemoteSpanInfo PeerID} (h : sim.spans.get? peerId = some span) :
    peerId ∈ servers.map Prod.fst := by
  rw [← hsim.servers, List.map_map]
  exact List.mem_map_of_mem (Dict.get?_eq_some_iff.mp h)

open Classical in
theorem Moves.settledServers_eq (h : sim.Moves next peerId span newStart)
    (hsim : sim.Consistent numBlocks servers) (hnull : ¬ Positive span) :
    settledServers servers next = insert peerId (settledServers servers sim) := by
  obtain ⟨hthroughputs, hchosen⟩ := h.null hsim hnull
  ext other
  unfold settledServers
  rw [Finset.mem_insert, Finset.mem_filter, Finset.mem_filter, List.mem_toFinset]
  by_cases hother : other = peerId
  · subst hother
    refine iff_of_true ⟨hsim.mem_servers h.present, moveSpan span newStart, h.get?_self,
      mt positive_moveSpan.mp hnull, ?_⟩ (.inl rfl)
    rw [hthroughputs, moveSpan_length]
    exact hchosen
  · rw [or_iff_right hother]
    unfold Settled
    rw [h.get?_other hother, hthroughputs]

open Classical in
/-- Every move makes progress. -/
theorem Moves.potential_lt (h : sim.Moves next peerId span newStart)
    (hsim : sim.Consistent numBlocks servers) :
    potential numBlocks servers sim < potential numBlocks servers next := by
  unfold potential
  by_cases hpositive : Positive span
  · have hrank := leximinRank_lt hsim.mem_reachableThroughputs (h.positive hsim hpositive)
    have hsettled := settledServers_card_le servers sim
    have hproduct := Nat.mul_le_mul_right (servers.length + 1) (Nat.succ_le_of_lt hrank)
    rw [Nat.succ_mul] at hproduct
    omega
  · have hfresh : peerId ∉ settledServers servers sim := fun hmem =>
      (Finset.mem_filter.mp hmem).2.not_moves hsim h
    rw [(h.null hsim hpositive).1, h.settledServers_eq hsim hpositive,
      Finset.card_insert_of_notMem hfresh]
    omega

end measure

end Simulation
end Peerz.Server
