import Mathlib.Data.List.MinMax
import Peerz.Server.Rebalancing

/-! Runs of visits: passes over the servers end where none of them moves, and the
bottleneck of the swarm is never lower than before. -/
namespace Peerz.Server
open Library Utils.Dht

variable {PeerID : Type} [LinearOrder PeerID]

namespace Simulation

variable {numBlocks : Nat} {servers : List (PeerID × RPS)} {sim next final : Simulation PeerID}

def visitStep (sim : Simulation PeerID) (peerId : PeerID) : Option (Simulation PeerID) :=
  match sim.visit peerId with
  | .ok (next, _) => some next
  | .error _ => none

theorem visitStep_eq_some {peerId : PeerID} :
    sim.visitStep peerId = some next ↔ ∃ moved, sim.visit peerId = .ok (next, moved) := by
  unfold visitStep
  split
  · rename_i after moved hvisit
    simp [hvisit]
  · rename_i hvisit
    simp [hvisit]

theorem Consistent.visit (hsim : sim.Consistent numBlocks servers) {peerId : PeerID} {moved : Bool}
    (h : sim.visit peerId = .ok (next, moved)) : next.Consistent numBlocks servers := by
  rcases visit_cases h with ⟨-, rfl, -⟩ | ⟨-, span, newStart, hmoves⟩
  · exact hsim
  · exact hmoves.consistent hsim

theorem Consistent.leadsTo (hsim : sim.Consistent numBlocks servers) {visits : List PeerID}
    (h : LeadsTo visitStep sim visits final) : final.Consistent numBlocks servers := by
  refine h.invariant (fun state peerId after hstate hstep => ?_) hsim
  obtain ⟨moved, hvisit⟩ := visitStep_eq_some.mp hstep
  exact hstate.visit hvisit

def NoWorse (sim next : Simulation PeerID) : Prop :=
  sim.throughputs = next.throughputs ∨ LeximinLT (sim.throughputs : Multiset ℚ) next.throughputs

omit [LinearOrder PeerID] in
theorem NoWorse.trans (hleft : sim.NoWorse next) (hright : next.NoWorse final) :
    sim.NoWorse final := by
  rcases hleft with hsame | hless
  · unfold NoWorse
    rwa [hsame]
  · rcases hright with hsame | hmore
    · exact .inr (hsame ▸ hless)
    · exact .inr (hless.trans hmore)

theorem noWorse_visit (hsim : sim.Consistent numBlocks servers) {peerId : PeerID} {moved : Bool}
    (h : sim.visit peerId = .ok (next, moved)) : sim.NoWorse next := by
  rcases visit_cases h with ⟨-, rfl, -⟩ | ⟨-, span, newStart, hmoves⟩
  · exact .inl rfl
  · by_cases hpositive : Positive span
    · exact .inr (hmoves.positive hsim hpositive)
    · exact .inl (hmoves.null hsim hpositive).1.symm

theorem noWorse_leadsTo (hsim : sim.Consistent numBlocks servers) {visits : List PeerID}
    (h : LeadsTo visitStep sim visits final) : sim.NoWorse final := by
  induction visits generalizing sim with
  | nil => exact .inl (leadsTo_nil.mp h ▸ rfl)
  | cons peerId visits ih =>
      obtain ⟨next, hstep, hrest⟩ := leadsTo_cons.mp h
      obtain ⟨moved, hvisit⟩ := visitStep_eq_some.mp hstep
      exact (noWorse_visit hsim hvisit).trans (ih (hsim.visit hvisit) hrest)

omit [LinearOrder PeerID] in
theorem NoWorse.minThroughput_le (h : sim.NoWorse next) {before after : ℚ}
    (hbefore : minThroughput sim.throughputs = .ok before)
    (hafter : minThroughput next.throughputs = .ok after) : before ≤ after := by
  have hleast := (minThroughput_eq_ok hbefore).2
  have hmem := (minThroughput_eq_ok hafter).1
  rcases h with hsame | hless
  · exact hleast after (hsame ▸ hmem)
  · obtain ⟨lower, hlower, hle⟩ := hless.exists_le (Multiset.mem_coe.mpr hmem)
    exact (hleast lower (Multiset.mem_coe.mp hlower)).trans hle

section passes

/-- One turn of a pass, with whether a span has moved so far. -/
def passStep (state : Simulation PeerID × Bool) (peerId : PeerID) :
    Except SelectionError (Simulation PeerID × Bool) :=
  state.1.visit peerId >>= fun visited => pure (visited.1, state.2 || visited.2)

theorem runPass_leadsTo {order : List PeerID} {moved : Bool}
    (h : sim.runPass order = .ok (next, moved)) : LeadsTo visitStep sim order next := by
  have hfold : ∀ (order : List PeerID) (sim : Simulation PeerID) (before : Bool),
      order.foldlM passStep (sim, before) = .ok (next, moved) →
      LeadsTo visitStep sim order next := by
    intro order
    induction order with
    | nil =>
        intro sim before h
        cases h
        exact leadsTo_nil.mpr rfl
    | cons peerId order ih =>
        intro sim before h
        rw [List.foldlM_cons] at h
        obtain ⟨middle, hmiddle, hrest⟩ := bind_eq_ok.mp h
        obtain ⟨⟨visited, movedHere⟩, hvisit, hmiddle⟩ := bind_eq_ok.mp hmiddle
        cases hmiddle
        exact leadsTo_cons.mpr
          ⟨visited, visitStep_eq_some.mpr ⟨movedHere, hvisit⟩, ih visited _ hrest⟩
  exact hfold order sim false h

theorem whileMoved_leadsTo {orders : Nat → List PeerID} {passes pass : Nat}
    (h : whileMoved orders passes pass sim = .ok final) :
    ∃ count, LeadsTo visitStep sim ((List.range' pass count).flatMap orders) final := by
  induction passes generalizing pass sim with
  | zero => cases h
  | succ passes ih =>
      obtain ⟨⟨next, moved⟩, hrun, h⟩ := bind_eq_ok.mp h
      have hleads := runPass_leadsTo hrun
      cases moved with
      | false =>
          cases h
          refine ⟨1, ?_⟩
          simpa using hleads
      | true =>
          obtain ⟨count, hrest⟩ := ih h
          refine ⟨count + 1, ?_⟩
          rw [List.range'_succ, List.flatMap_cons, leadsTo_append]
          exact ⟨next, hleads, hrest⟩

theorem runPass_spec (hsim : sim.Consistent numBlocks servers) {order : List PeerID}
    (horder : ∀ peerId ∈ order, peerId ∈ servers.map Prod.fst) :
    ∃ next moved, sim.runPass order = .ok (next, moved) ∧
      (moved = true → potential numBlocks servers sim < potential numBlocks servers next) := by
  have hfold : ∀ (order : List PeerID) (sim : Simulation PeerID) (before : Bool),
      sim.Consistent numBlocks servers → (∀ peerId ∈ order, peerId ∈ servers.map Prod.fst) →
      ∃ next moved,
        order.foldlM passStep (sim, before) = .ok (next, moved) ∧
        (moved = before ∧ next = sim ∨
          potential numBlocks servers sim < potential numBlocks servers next) := by
    intro order
    induction order with
    | nil => exact fun sim before _ _ => ⟨sim, before, rfl, .inl ⟨rfl, rfl⟩⟩
    | cons peerId order ih =>
        intro sim before hsim horder
        obtain ⟨⟨middle, moved⟩, hvisit⟩ := exists_visit hsim (horder peerId List.mem_cons_self)
        obtain ⟨next, after, hrest, hprogress⟩ := ih middle (before || moved)
          (hsim.visit hvisit) fun other h => horder other (List.mem_cons_of_mem _ h)
        refine ⟨next, after, ?_, ?_⟩
        · rw [List.foldlM_cons, passStep, hvisit]
          exact hrest
        · rcases visit_cases hvisit with ⟨rfl, rfl, -⟩ | ⟨rfl, span, newStart, hmoves⟩
          · rwa [Bool.or_false] at hprogress
          · right
            have hlt := hmoves.potential_lt hsim
            rcases hprogress with ⟨-, rfl⟩ | hmore
            · exact hlt
            · exact hlt.trans hmore
  obtain ⟨next, moved, hrun, hprogress⟩ := hfold order sim false hsim horder
  refine ⟨next, moved, hrun, fun hmoved => ?_⟩
  rcases hprogress with ⟨hfalse, -⟩ | hlt
  · exact absurd (hmoved.symm.trans hfalse) (by decide)
  · exact hlt

/-- Each pass that moves a span is followed by one with less left to gain. -/
theorem whileMoved_settles {orders : Nat → List PeerID}
    (horders : ∀ pass, ∀ peerId ∈ orders pass, peerId ∈ servers.map Prod.fst) (passes pass : Nat)
    (hsim : sim.Consistent numBlocks servers)
    (hpasses : Simulation.potentialBound numBlocks servers ≤
      potential numBlocks servers sim + passes) :
    ∃ settled, whileMoved orders passes pass sim = .ok settled := by
  induction passes generalizing pass sim with
  | zero =>
      have hlt := potential_lt_bound numBlocks servers sim
      omega
  | succ passes ih =>
      obtain ⟨next, moved, hrun, hprogress⟩ := runPass_spec hsim (horders pass)
      unfold whileMoved
      rw [hrun]
      cases moved with
      | false => exact ⟨next, rfl⟩
      | true =>
          have hlt := hprogress rfl
          exact ih (pass + 1) (hsim.leadsTo (runPass_leadsTo hrun)) (by omega)

end passes

/-! Null spans: what one of them does is undone only by the others. -/

def Relocates (sim : Simulation PeerID) (peerId : PeerID) (span : RemoteSpanInfo PeerID)
    (next : Simulation PeerID) : Prop :=
  sim.spans.get? peerId = some span ∧ sim.visit peerId = .ok (next, true)

theorem Relocates.moves {peerId : PeerID} {span : RemoteSpanInfo PeerID}
    (h : sim.Relocates peerId span next) : ∃ newStart, sim.Moves next peerId span newStart := by
  rcases visit_cases h.2 with ⟨hfalse, -⟩ | ⟨-, other, newStart, hmoves⟩
  · cases hfalse
  · cases h.1.symm.trans hmoves.present
    exact ⟨newStart, hmoves⟩

def Idle (sim : Simulation PeerID) (peerId : PeerID) : Prop :=
  ∀ span next, sim.Relocates peerId span next → ¬ Positive span

theorem Relocates.settled {peerId : PeerID} {span : RemoteSpanInfo PeerID}
    (h : sim.Relocates peerId span next) (hsim : sim.Consistent numBlocks servers)
    (hnull : ¬ Positive span) : next.Settled peerId := by
  obtain ⟨newStart, hmoves⟩ := h.moves
  obtain ⟨hthroughputs, hchosen⟩ := hmoves.null hsim hnull
  refine ⟨moveSpan span newStart, hmoves.get?_self, mt positive_moveSpan.mp hnull, ?_⟩
  rwa [hthroughputs, moveSpan_length]

theorem Settled.visit {peerId other : PeerID} (h : sim.Settled peerId)
    (hsim : sim.Consistent numBlocks servers) {moved : Bool}
    (hvisit : sim.visit other = .ok (next, moved)) (hidle : sim.Idle other) :
    next.Settled peerId := by
  rcases visit_cases hvisit with ⟨-, rfl, -⟩ | ⟨rfl, span, newStart, hmoves⟩
  · exact h
  · have hnull := hidle span next ⟨hmoves.present, hvisit⟩
    have hother : peerId ≠ other := by
      rintro rfl
      exact h.not_moves hsim hmoves
    obtain ⟨settled, hget, hsettled, hstart⟩ := h
    refine ⟨settled, (hmoves.get?_other hother).trans hget, hsettled, ?_⟩
    rwa [(hmoves.null hsim hnull).1]

theorem Settled.stays {peerId : PeerID} (h : sim.Settled peerId)
    (hsim : sim.Consistent numBlocks servers) {later : List PeerID}
    (hidle : EveryStep visitStep Idle sim later) (hlater : LeadsTo visitStep sim later final)
    (span : RemoteSpanInfo PeerID) (after : Simulation PeerID) :
    ¬ final.Relocates peerId span after := by
  have hkept := everyState_of_everyStep
    (P := fun state => state.Consistent numBlocks servers ∧ state.Settled peerId)
    (fun state other next hstate hstep hok => by
      obtain ⟨moved, hvisit⟩ := visitStep_eq_some.mp hstep
      exact ⟨hstate.1.visit hvisit, hstate.2.visit hstate.1 hvisit hok⟩)
    ⟨hsim, h⟩ hidle
  rw [← List.append_nil later] at hkept
  obtain ⟨hconsistent, hsettled⟩ := hkept.leadsTo hlater
  intro hrelocates
  obtain ⟨newStart, hmoves⟩ := hrelocates.moves
  exact hsettled.not_moves hconsistent hmoves

end Simulation

/-! The simulation starts from the spans of a whole model. -/

def Numbered (moduleInfos : List (RemoteModuleInfo PeerID)) : Prop :=
  ∀ (blockIdx : Nat) (moduleInfo : RemoteModuleInfo PeerID),
    moduleInfos[blockIdx]? = some moduleInfo → moduleInfo.uid.index = blockIdx

omit [LinearOrder PeerID] in
theorem Numbered.blockOffset_eq {moduleInfos : List (RemoteModuleInfo PeerID)}
    (hnumbered : Numbered moduleInfos) : blockOffset moduleInfos = 0 := by
  cases moduleInfos with
  | nil => rfl
  | cons moduleInfo tail => exact hnumbered 0 moduleInfo rfl

theorem computeSpans_placed {moduleInfos : List (RemoteModuleInfo PeerID)}
    (hnumbered : Numbered moduleInfos) {peerId : PeerID} {span : RemoteSpanInfo PeerID}
    (hspan : (computeSpans moduleInfos .joining).get? peerId = some span) :
    Placed moduleInfos.length span := by
  have hbounds := computeSpans_bounds hspan
  have hstop : 0 ≤ span.stop := by
    refine computeSpans_induction (fun span => 0 ≤ span.stop) ?_ ?_ hspan
    · intro blockIdx moduleInfo serverInfo _ _ _
      rw [hnumbered.blockOffset_eq]
      unfold openSpan
      split
      · dsimp only
        omega
      · dsimp only
        omega
    · intro blockIdx span _ _
      unfold extendSpan
      dsimp only
      omega
  by_cases hlt : span.start < span.stop
  · exact .inl ⟨hbounds.1, hlt, hbounds.2⟩
  · right
    refine ⟨by unfold RemoteSpanInfo.length; omega, ?_⟩
    unfold window pyClamp
    rw [Finset.Ico_eq_empty_iff, if_neg (by omega), if_neg (by omega)]
    omega

omit [LinearOrder PeerID] in
theorem throughputAt_foldl_addOver (spans : List (RemoteSpanInfo PeerID)) (throughputs : List ℚ)
    {block : Nat} (hblock : block < throughputs.length) :
    throughputAt (spans.foldl (fun throughputs span => addOver throughputs span span.throughput)
        throughputs) block =
      throughputAt throughputs block + (spans.map fun span =>
        if block ∈ window throughputs.length span then (span.throughput : ℚ) else 0).sum := by
  induction spans generalizing throughputs with
  | nil => simp
  | cons span spans ih =>
      rw [List.foldl_cons, ih _ (by simpa using hblock), throughputAt_addOver _ _ hblock,
        addOver_length, List.map_cons, List.sum_cons]
      split
      · rw [add_assoc]
      · rw [zero_add]

theorem throughputAt_computeThroughputs (spans : Dict PeerID (RemoteSpanInfo PeerID))
    {totalBlocks block : Nat} (hblock : block < totalBlocks) :
    throughputAt (computeThroughputs spans totalBlocks) block =
      (spans.values.map fun span =>
        if block ∈ window totalBlocks span then (span.throughput : ℚ) else 0).sum := by
  unfold computeThroughputs
  rw [throughputAt_foldl_addOver _ _ (by simpa using hblock), List.length_replicate,
    ((List.perm_insertionSort _ spans.values).map _).sum_eq]
  simp [throughputAt, hblock]

def announcedServers (moduleInfos : List (RemoteModuleInfo PeerID)) : List (PeerID × RPS) :=
  (computeSpans moduleInfos .joining).entries.map fun entry => (entry.1, entry.2.throughput)

theorem initialSimulation_consistent {moduleInfos : List (RemoteModuleInfo PeerID)}
    (hnumbered : Numbered moduleInfos) :
    (initialSimulation moduleInfos).Consistent moduleInfos.length
      (announcedServers moduleInfos) where
  servers := rfl
  length := computeThroughputs_length _ _
  placed := fun _ _ hspan => computeSpans_placed hnumbered hspan
  sums := fun _ hblock => throughputAt_computeThroughputs _ hblock

theorem initialSimulation_keys (moduleInfos : List (RemoteModuleInfo PeerID)) :
    (announcedServers moduleInfos).map Prod.fst = (computeSpans moduleInfos .joining).keys := by
  unfold announcedServers Dict.keys
  rw [List.map_map]
  rfl

theorem simulateMoves_eq {sim next : Simulation PeerID} {localPeerId : PeerID}
    {localSpan : RemoteSpanInfo PeerID} {lowest : ℚ} {moved : Bool}
    (hlocal : sim.spans.get? localPeerId = some localSpan)
    (hlowest : minThroughput (removed sim.throughputs localSpan) = .ok lowest)
    (hvisit : sim.visit localPeerId = .ok (next, moved)) (orders : Nat → List PeerID)
    (passes : Nat) (initialThroughput : ℚ) :
    simulateMoves orders passes localPeerId sim initialThroughput =
      if eps < initialThroughput ∧ lowest ≤ 0 then .ok none
      else if moved then do
        let settled ← Simulation.whileMoved orders passes 0 next
        return some settled
      else .ok none := by
  unfold removed at hlowest
  unfold Simulation.visit at hvisit
  unfold simulateMoves
  rw [hlocal] at hvisit ⊢
  obtain ⟨newStart, hchosen, hvisit⟩ := bind_eq_ok.mp hvisit
  dsimp only
  rw [hlowest, hchosen]
  by_cases hdisjoint : eps < initialThroughput ∧ lowest ≤ 0
  · simp only [bind, Except.bind, if_pos hdisjoint]
    rfl
  · by_cases hbest : localSpan.start = newStart
    · simp only [ne_eq, hbest, not_true_eq_false, if_false, decide_false] at hvisit
      cases hvisit
      simp only [bind, Except.bind, if_neg hdisjoint, if_pos hbest]
      rfl
    · simp only [ne_eq, hbest, not_false_eq_true, if_true, decide_true] at hvisit
      cases hvisit
      simp only [bind, Except.bind, if_neg hdisjoint, if_neg hbest, if_true]

section outcome
variable {moduleInfos : List (RemoteModuleInfo PeerID)} {localPeerId : PeerID}
  (hnumbered : Numbered moduleInfos)
  (hlocal : localPeerId ∈ (computeSpans moduleInfos .joining).keys)
include hlocal

theorem initialSimulation_throughputs_ne_nil : (initialSimulation moduleInfos).throughputs ≠ [] := by
  rw [← List.length_pos_iff]
  change 0 < (computeThroughputs _ _).length
  rw [computeThroughputs_length, List.length_pos_iff]
  rintro rfl
  exact List.not_mem_nil hlocal

include hnumbered

/-- With enough passes the simulation returns, and what it returns is where its visits lead. -/
theorem simulateMoves_settles {passes : Nat}
    (hpasses : Simulation.potentialBound moduleInfos.length (announcedServers moduleInfos) ≤ passes)
    {orders : Nat → List PeerID}
    (horders : ∀ pass, (orders pass).Perm (computeSpans moduleInfos .joining).keys)
    (initialThroughput : ℚ) :
    ∃ outcome, simulateMoves orders passes localPeerId (initialSimulation moduleInfos)
        initialThroughput = .ok outcome ∧
      ∀ settled ∈ outcome, ∃ count,
        LeadsTo Simulation.visitStep (initialSimulation moduleInfos)
          (localPeerId :: (List.range count).flatMap orders) settled := by
  have hstart := initialSimulation_consistent hnumbered
  obtain ⟨localSpan, hmem⟩ := Dict.mem_keys_iff.mp hlocal
  have hspan := Dict.get?_eq_some_iff.mpr hmem
  have hremoved : removed (initialSimulation moduleInfos).throughputs localSpan ≠ [] := by
    rw [ne_eq, ← List.length_eq_zero_iff, removed_length, List.length_eq_zero_iff]
    exact initialSimulation_throughputs_ne_nil hlocal
  obtain ⟨lowest, hlowest⟩ := exists_minThroughput hremoved
  obtain ⟨⟨next, moved⟩, hvisit⟩ := Simulation.exists_visit hstart (hstart.mem_servers hspan)
  rw [simulateMoves_eq hspan hlowest hvisit]
  split
  · exact ⟨none, rfl, by simp⟩
  · cases moved with
    | false => exact ⟨none, rfl, by simp⟩
    | true =>
        have hmembers : ∀ pass, ∀ peerId ∈ orders pass,
            peerId ∈ (announcedServers moduleInfos).map Prod.fst := by
          intro pass peerId hpeer
          rw [initialSimulation_keys]
          exact (horders pass).mem_iff.mp hpeer
        obtain ⟨settled, hruns⟩ := Simulation.whileMoved_settles hmembers passes 0
          (hstart.visit hvisit) (by omega)
        refine ⟨some settled, by rw [if_pos rfl, hruns]; rfl, ?_⟩
        rintro _ ⟨⟩
        obtain ⟨count, hleads⟩ := Simulation.whileMoved_leadsTo hruns
        refine ⟨count, leadsTo_cons.mpr
          ⟨next, Simulation.visitStep_eq_some.mpr ⟨true, hvisit⟩, ?_⟩⟩
        rwa [List.range_eq_range']

end outcome

/-- A positive span gains by its move and any other one changes nothing by it, so that the
loop ends and the bottleneck is no lower. -/
theorem rebalancing_settles {moduleInfos : List (RemoteModuleInfo PeerID)} {localPeerId : PeerID}
    (hnumbered : Numbered moduleInfos)
    (hlocal : localPeerId ∈ (computeSpans moduleInfos .joining).keys) :
    (∀ visits sim, LeadsTo Simulation.visitStep (initialSimulation moduleInfos) visits sim →
      ∀ peerId span next, sim.Relocates peerId span next →
        (Positive span → sim.throughputs.insertionSort (· ≤ ·) <
          next.throughputs.insertionSort (· ≤ ·)) ∧
        (¬ Positive span → next.throughputs = sim.throughputs ∧
          ∀ later final, LeadsTo Simulation.visitStep next later final →
            EveryStep Simulation.visitStep Simulation.Idle next later →
            ∀ again after, ¬ final.Relocates peerId again after)) ∧
    ∃ bound, ∀ passes ≥ bound, ∀ orders : Nat → List PeerID,
      (∀ pass, (orders pass).Perm (computeSpans moduleInfos .joining).keys) →
      (∀ balanceQuality, ∃ answer, shouldChooseOtherBlocks orders passes localPeerId moduleInfos
        balanceQuality = .ok answer) ∧
      ∃ initialThroughput,
        minThroughput (initialSimulation moduleInfos).throughputs = .ok initialThroughput ∧
        ∃ outcome, simulateMoves orders passes localPeerId (initialSimulation moduleInfos)
            initialThroughput = .ok outcome ∧
          ∀ settled ∈ outcome,
            (∃ count, LeadsTo Simulation.visitStep (initialSimulation moduleInfos)
              (localPeerId :: (List.range count).flatMap orders) settled) ∧
            ∃ newThroughput, minThroughput settled.throughputs = .ok newThroughput ∧
              initialThroughput ≤ newThroughput := by
  have hstart := initialSimulation_consistent hnumbered
  have hnonempty := initialSimulation_throughputs_ne_nil hlocal
  refine ⟨fun visits sim hreach peerId span next hrelocates => ?_,
    Simulation.potentialBound moduleInfos.length (announcedServers moduleInfos),
    fun passes hpasses orders horders => ?_⟩
  · have hsim := hstart.leadsTo hreach
    obtain ⟨newStart, hmoves⟩ := hrelocates.moves
    refine ⟨fun hpositive => ?_, fun hnull => ⟨(hmoves.null hsim hnull).1, ?_⟩⟩
    · have hlength := hsim.length.trans (hmoves.consistent hsim).length.symm
      exact (leximinLT_iff_sorted_lt hlength).mp (hmoves.positive hsim hpositive)
    · intro later final hlater hidle
      exact (hrelocates.settled hsim hnull).stays (hmoves.consistent hsim) hidle hlater
  · obtain ⟨initialThroughput, hinitial⟩ := exists_minThroughput hnonempty
    obtain ⟨outcome, hcall, hleads⟩ := simulateMoves_settles hnumbered hlocal hpasses horders
      initialThroughput
    have hsettled : ∀ settled ∈ outcome, ∃ newThroughput,
        minThroughput settled.throughputs = .ok newThroughput ∧
          initialThroughput ≤ newThroughput := by
      intro settled hmem
      obtain ⟨count, hreach⟩ := hleads settled hmem
      have hlength := (hstart.leadsTo hreach).length.trans hstart.length.symm
      have hblocks : settled.throughputs ≠ [] := by
        rwa [ne_eq, ← List.length_eq_zero_iff, hlength, List.length_eq_zero_iff]
      obtain ⟨newThroughput, hnew⟩ := exists_minThroughput hblocks
      exact ⟨newThroughput, hnew,
        (Simulation.noWorse_leadsTo hstart hreach).minThroughput_le hinitial hnew⟩
    refine ⟨fun balanceQuality => ?_, initialThroughput, hinitial, outcome, hcall,
      fun settled hmem => ⟨hleads settled hmem, hsettled settled hmem⟩⟩
    unfold shouldChooseOtherBlocks
    by_cases hforced : 1 < balanceQuality
    · exact ⟨true, if_pos hforced⟩
    · rw [if_neg hforced]
      dsimp only
      rw [hinitial]
      simp only [bind, Except.bind]
      rw [hcall]
      cases outcome with
      | none => exact ⟨false, rfl⟩
      | some settled =>
          obtain ⟨newThroughput, hnew, -⟩ := hsettled settled rfl
          dsimp only
          rw [hnew]
          dsimp only
          split <;> exact ⟨_, rfl⟩

/-- Two servers of the first of two blocks: each of them may be the one that leaves. -/
private def crowdedBlock : List (RemoteModuleInfo Nat) :=
  let holder : ServerInfo :=
    { state := .online, throughput := 1, startBlock := some 0, endBlock := some 1 }
  [⟨⟨"model", 0⟩, (Dict.empty.insert 7 holder).insert 9 holder⟩, ⟨⟨"model", 1⟩, Dict.empty⟩]

theorem rebalancing_settles_crowdedBlock :
    (∃ sim, Simulation.visitStep (initialSimulation crowdedBlock) 9 = some sim ∧
      (initialSimulation crowdedBlock).throughputs.insertionSort (· ≤ ·) <
        sim.throughputs.insertionSort (· ≤ ·)) ∧
    ∃ bound, ∀ passes ≥ bound, ∃ answer,
      shouldChooseOtherBlocks (fun _ => [7, 9]) passes 9 crowdedBlock 1 = .ok answer := by
  have hnumbered : Numbered crowdedBlock := by
    intro blockIdx moduleInfo hblock
    match blockIdx with
    | 0 | 1 =>
        cases hblock
        rfl
  have hkeys : (computeSpans crowdedBlock .joining).keys = [7, 9] := by decide +kernel
  obtain ⟨hsteps, bound, hbound⟩ := rebalancing_settles hnumbered
    (by rw [hkeys]; decide : 9 ∈ (computeSpans crowdedBlock .joining).keys)
  constructor
  · have hspan : (((initialSimulation crowdedBlock).spans.get? 9).map fun span =>
        decide (Positive span)) = some true := by decide +kernel
    have hmoved : ((initialSimulation crowdedBlock).visit 9).map Prod.snd = .ok true := by
      decide +kernel
    obtain ⟨span, hget, hpositive⟩ := Option.map_eq_some_iff.mp hspan
    cases hvisit : (initialSimulation crowdedBlock).visit 9 with
    | error e =>
        rw [hvisit] at hmoved
        cases hmoved
    | ok result =>
        obtain ⟨sim, moved⟩ := result
        rw [hvisit] at hmoved
        cases hmoved
        refine ⟨sim, Simulation.visitStep_eq_some.mpr ⟨true, hvisit⟩, ?_⟩
        exact (hsteps [] _ (leadsTo_nil.mpr rfl) 9 span sim ⟨hget, hvisit⟩).1
          (of_decide_eq_true hpositive)
  · refine ⟨bound, fun passes hpasses => ?_⟩
    exact (hbound passes hpasses (fun _ => [7, 9]) fun _ => by rw [hkeys]).1 1

end Peerz.Server
