import Peerz.Server.Swarm

/-! How a swarm comes to serve all blocks: servers that choose one after the other fill the model
from its start, and after losses each of them takes over at least one block that nobody serves. -/
namespace Peerz.Server
open Library Utils.Dht

namespace SwarmConfig

variable {PeerID : Type} [LinearOrder PeerID] {config : SwarmConfig PeerID}
  {servers next final : PeerID → ServerSystem}

/-- Where a server chooses, the records of the others are current. -/
def Informed (config : SwarmConfig PeerID) (servers : PeerID → ServerSystem)
    (event : PeerID × ServerEvent) : Prop :=
  event.2.chosen.isSome = true →
    ∀ peerId ∈ config.peers, peerId ≠ event.1 → config.Current (servers peerId)

instance (event : PeerID × ServerEvent) : Decidable (config.Informed servers event) :=
  inferInstanceAs (Decidable (_ → _))

def choosers (events : List (PeerID × ServerEvent)) : List PeerID :=
  (events.filter fun event => event.2.chosen.isSome).map Prod.fst

/-- Every server announces what it does, and none is about to leave. -/
def Steady (config : SwarmConfig PeerID) (servers : PeerID → ServerSystem) : Prop :=
  ∀ peerId ∈ config.peers,
    config.Orderly peerId (servers peerId) ∧ (servers peerId).phase.Stays

theorem throughputs_length : (config.throughputs servers).length = config.modelBlocks :=
  computeThroughputs_length _ _

theorem throughputs_nonneg : ∀ throughput ∈ config.throughputs servers, 0 ≤ throughput :=
  computeThroughputs_nonneg _

theorem map_toNat_intRange (start len : Nat) :
    (Int.range start (start + len)).map Int.toNat = List.range' start len := by
  have hlen : ((start : Int) + len - start).toNat = len := by omega
  unfold Int.range
  rw [hlen, List.range'_eq_map_range, List.map_map]
  refine List.map_congr_left fun offset _ => ?_
  rw [Function.comp_apply]
  omega

theorem chooseBlocks_eq_some {peerId : PeerID} {blockIndices : List Nat}
    (h : config.chooseBlocks servers peerId = some blockIndices) : ∃ start : Nat,
      chooseBestStart (config.throughputs servers) (config.numBlocks peerId) = .ok start ∧
        blockIndices = List.range' start (config.numBlocks peerId) := by
  unfold chooseBlocks chooseBestBlocks at h
  rw [moduleInfos_length] at h
  cases hstart : chooseBestStart (config.throughputs servers) (config.numBlocks peerId) with
  | error cause =>
      unfold throughputs at hstart
      dsimp only at h
      rw [hstart] at h
      cases h
  | ok start =>
      obtain ⟨index, rfl⟩ := Int.eq_ofNat_of_zero_le (chooseBestStart_eq_ok hstart).1
      unfold throughputs at hstart
      dsimp only at h
      rw [hstart] at h
      refine ⟨index, rfl, ?_⟩
      rw [← map_toNat_intRange]
      exact (Option.some.inj h).symm

theorem inWindow_of_allowed {event : PeerID × ServerEvent}
    (h : config.Allowed servers event.1 event.2) : config.InWindow event.1 event.2 := by
  intro blockIndices hchosen
  obtain ⟨start, hstart, rfl⟩ := chooseBlocks_eq_some (h.2 blockIndices hchosen)
  exact ⟨start, rfl, by
    simpa only [throughputs_length] using chooseBestStart_inside hstart⟩

theorem orderly_step {event : PeerID × ServerEvent}
    (h : ∀ peerId ∈ config.peers, config.Orderly peerId (servers peerId))
    (hreliable : event.2.Reliable) (htimely : (servers event.1).Timely event.2)
    (hstep : config.step servers event = some next) :
    ∀ peerId ∈ config.peers, config.Orderly peerId (next peerId) :=
  partyStep_keeps (fun peerId system => peerId ∈ config.peers → config.Orderly peerId system)
    (fun _ horderly hmoved hpeer => (horderly hpeer).step hreliable htimely
      (inWindow_of_allowed (partyStep_eq_some.mp hstep).1) hmoved) h hstep

omit [LinearOrder PeerID] in
theorem orderly_initial {serverInfo : PeerID → ServerInfo}
    {records : PeerID → Nat → Option ServerInfo}
    (hthroughput : ∀ peerId, 0 < (serverInfo peerId).throughput)
    (hgone : ∀ peerId blockIdx, ServerSystem.Gone (records peerId blockIdx)) (peerId : PeerID) :
    config.Orderly peerId (initial serverInfo records peerId) where
  announces := .initial _ _
  hosts hhosting := by cases hhosting
  sweeps := ⟨fun _ => hgone peerId, fun hhosting => (by cases hhosting),
    fun again hphase => by rcases hphase with hphase | hphase <;> cases hphase⟩
  stated := .of_gone (hgone peerId) fun _ hthread => by cases hthread
  throughput := hthroughput peerId
  window _ hthread := by cases hthread

theorem Steady.step {event : PeerID × ServerEvent} (h : config.Steady servers)
    (hreliable : event.2.Reliable) (hstays : event.2.Stays)
    (hstep : config.step servers event = some next) : config.Steady next := by
  obtain ⟨⟨hpeer, hallowed⟩, -⟩ := partyStep_eq_some.mp hstep
  have htimely : (servers event.1).Timely event.2 := by
    unfold ServerSystem.Timely
    have hphase := (h event.1 hpeer).2
    split
    · split
      · rename_i hwriting _
        rw [hwriting] at hphase
        exact hphase.elim
      · trivial
    · trivial
  have hphases := partyStep_keeps
    (fun peerId system => peerId ∈ config.peers → system.phase.Stays)
    (fun system hphase hmoved _ => ?_) (fun peerId hpeer => (h peerId hpeer).2) hstep
  · exact fun peerId hpeer => ⟨orderly_step (fun peerId hpeer => (h peerId hpeer).1) hreliable
      htimely hstep peerId hpeer, hphases peerId hpeer⟩
  · cases hchosen : event.2.chosen with
    | none =>
        refine (ServerSystem.claims_step (hphase hpeer) hstays (fun blockIndices hevent => ?_)
          hmoved).1
        rw [hevent] at hchosen
        cases hchosen
    | some blockIndices =>
        obtain ⟨start, hblocks, -⟩ := inWindow_of_allowed (partyStep_eq_some.mp hstep).1 _ hchosen
        obtain ⟨peerId, chosen⟩ := event
        cases chosen with
        | choose blocks =>
            obtain rfl := Option.some.inj hchosen
            cases ServerSystem.step_move hmoved
            rw [hblocks]
            exact (ServerSystem.claims_create (config.numBlocks_pos peerId) 0).1
        | _ => cases hchosen

theorem unclaimed_stay {event : PeerID × ServerEvent} (h : config.Steady servers)
    (hstays : event.2.Stays) (hchosen : event.2.chosen = none)
    (hstep : config.step servers event = some next) :
    config.unclaimed next = config.unclaimed servers := by
  obtain ⟨⟨hpeer, -⟩, state, hmoved, rfl⟩ := partyStep_eq_some.mp hstep
  have hclaims := (ServerSystem.claims_step (h event.1 hpeer).2 hstays (fun blockIndices hevent => by
    rw [hevent] at hchosen
    cases hchosen) hmoved).2
  ext blockIdx
  rw [mem_unclaimed, mem_unclaimed]
  refine and_congr_right fun _ => forall₂_congr fun peerId _ => not_congr ?_
  by_cases hsame : peerId = event.1
  · subst hsame
    rw [Function.update_self]
    exact hclaims blockIdx
  · rw [Function.update_of_ne hsame]

/-- A server that chooses finds the blocks that no server holds, and takes a window of its size
that has the most of them. -/
theorem unclaimed_choose {peerId : PeerID} {blockIndices : List Nat} (h : config.Steady servers)
    (hinformed : config.Informed servers (peerId, .choose blockIndices))
    (hstep : config.step servers (peerId, .choose blockIndices) = some next) : ∃ start : Nat,
      chooseBestStart (config.throughputs servers) (config.numBlocks peerId) = .ok start ∧
      uncovered (config.throughputs servers) = config.unclaimed servers ∧
      config.unclaimed next =
        config.unclaimed servers \ Finset.Ico start (start + config.numBlocks peerId) := by
  obtain ⟨⟨hpeer, hallowed⟩, state, hmoved, rfl⟩ := partyStep_eq_some.mp hstep
  dsimp only at hpeer hallowed hmoved ⊢
  obtain ⟨start, hstart, rfl⟩ := chooseBlocks_eq_some (hallowed _ rfl)
  have hphase : (servers peerId).phase = .choosing ∧
      state = (servers peerId).create (List.range' start (config.numBlocks peerId)) := by
    cases ServerSystem.step_move hmoved with
    | chooses found => exact ⟨found, rfl⟩
  obtain ⟨hchoosing, rfl⟩ := hphase
  -- the server itself has no live record and holds nothing
  have hfree (blockIdx : Nat) : ¬ (servers peerId).Claims blockIdx := by
    rintro ⟨hhosting, -⟩
    rw [hchoosing] at hhosting
    exact hhosting
  have hcurrent : ∀ other ∈ config.peers, config.Current (servers other) := by
    intro other hother
    by_cases hsame : other = peerId
    · subst hsame
      exact fun blockIdx _ => iff_of_false
        (not_not.mpr ((h other hpeer).1.sweeps.choosing hchoosing blockIdx)) (hfree blockIdx)
    · exact hinformed rfl other hother hsame
  refine ⟨start, hstart, uncovered_throughputs (fun other hother => (h other hother).1) hcurrent, ?_⟩
  ext blockIdx
  rw [Finset.mem_sdiff, mem_unclaimed, mem_unclaimed]
  constructor
  · rintro ⟨hlt, hnone⟩
    refine ⟨⟨hlt, fun other hother hclaims => ?_⟩, fun hinside => ?_⟩
    · by_cases hsame : other = peerId
      · exact hfree blockIdx (hsame ▸ hclaims)
      · exact hnone other hother (by rwa [Function.update_of_ne hsame])
    · refine hnone peerId hpeer ?_
      rw [Function.update_self]
      exact (ServerSystem.claims_create (config.numBlocks_pos peerId) blockIdx).2.mpr hinside
  · rintro ⟨⟨hlt, hnone⟩, houtside⟩
    refine ⟨hlt, fun other hother hclaims => ?_⟩
    by_cases hsame : other = peerId
    · subst hsame
      rw [Function.update_self] at hclaims
      exact houtside
        ((ServerSystem.claims_create (config.numBlocks_pos other) blockIdx).2.mp hclaims)
    · rw [Function.update_of_ne hsame] at hclaims
      exact hnone other hother hclaims

section runs
variable {events : List (PeerID × ServerEvent)}

/-- The rule for what the blocks without a server come to in a run: a choice changes them as
`chooseBestStart` does, and nothing else does. -/
theorem unclaimed_run (P : Finset Nat → List PeerID → Prop)
    (hchoose : ∀ servers peerId start earlier, P (config.unclaimed servers) earlier →
      chooseBestStart (config.throughputs servers) (config.numBlocks peerId) = .ok (start : Nat) →
      uncovered (config.throughputs servers) = config.unclaimed servers →
      P (config.unclaimed servers \ Finset.Ico start (start + config.numBlocks peerId))
        (earlier ++ [peerId]))
    (h : LeadsTo config.step servers events final) (hsteady : config.Steady servers)
    (hreliable : ∀ event ∈ events, event.2.Reliable) (hstays : ∀ event ∈ events, event.2.Stays)
    (hinformed : EveryStep config.step config.Informed servers events) (earlier : List PeerID)
    (hstart : P (config.unclaimed servers) earlier) :
    config.Steady final ∧ P (config.unclaimed final) (earlier ++ choosers events) := by
  induction events generalizing servers earlier with
  | nil =>
      obtain rfl := leadsTo_nil.mp h
      exact ⟨hsteady, by simpa [choosers] using hstart⟩
  | cons event events ih =>
      obtain ⟨next, hstep, hrest⟩ := leadsTo_cons.mp h
      obtain ⟨hfirst, hlater⟩ := hinformed next hstep
      have hnext := hsteady.step (hreliable event List.mem_cons_self)
        (hstays event List.mem_cons_self) hstep
      have hreliable' := fun other hmem => hreliable other (List.mem_cons_of_mem event hmem)
      have hstays' := fun other hmem => hstays other (List.mem_cons_of_mem event hmem)
      obtain ⟨peerId, chosen⟩ := event
      cases hchosen : chosen.chosen with
      | none =>
          have hsame := unclaimed_stay hsteady (hstays _ List.mem_cons_self) hchosen hstep
          simpa [choosers, hchosen] using
            ih hrest hnext hreliable' hstays' hlater earlier (hsame ▸ hstart)
      | some blockIndices =>
          obtain ⟨start, hbest, hfound, hunclaimed⟩ : ∃ start : Nat, chooseBestStart
              (config.throughputs servers) (config.numBlocks peerId) = .ok start ∧
              uncovered (config.throughputs servers) = config.unclaimed servers ∧
              config.unclaimed next =
                config.unclaimed servers \ Finset.Ico start (start + config.numBlocks peerId) := by
            cases chosen with
            | choose blocks => exact unclaimed_choose hsteady hfirst hstep
            | _ => cases hchosen
          have hafter := hchoose servers peerId start earlier hstart hbest hfound
          rw [← hunclaimed] at hafter
          simpa [choosers, hchosen] using
            ih hrest hnext hreliable' hstays' hlater (earlier ++ [peerId]) hafter

def pairServers : SwarmConfig Nat where
  peers := [0, 1]
  nodup := by decide
  dhtPrefix := "bloom"
  modelBlocks := 3
  numBlocks _ := 2
  numBlocks_pos _ := by decide
  bytesPerToken _ := 4
  repository _ := none

def unknownServer (_ : Nat) : ServerInfo := ⟨.offline, 1, none, none, none, [], none, none⟩

def noServers : Nat → ServerSystem := initial unknownServer fun _ _ => none

def joinsAt (peerId : Nat) (blockIndices : List Nat) : List (Nat × ServerEvent) :=
  (.choose blockIndices :: ServerSystem.firstRound).map (peerId, ·)

theorem joinsAt_reliable (peerId : Nat) (blockIndices : List Nat) :
    ∀ event ∈ joinsAt peerId blockIndices, event.2.Reliable := by
  simp [joinsAt, ServerSystem.firstRound, ServerEvent.Reliable, ServerEvent.Accepted]

theorem joinsAt_stays (peerId : Nat) (blockIndices : List Nat) :
    ∀ event ∈ joinsAt peerId blockIndices, event.2.Stays := by
  simp [joinsAt, ServerSystem.firstRound, ServerEvent.Stays]

def afterAll (events : List (Nat × ServerEvent)) : Nat → ServerSystem :=
  (events.foldlM pairServers.step noServers).getD noServers

/-- Whatever has become of the servers before: each server that joins takes over a block that no
server holds, until there is none, as long as none leaves again. -/
theorem restored {serverInfo : PeerID → ServerInfo} {records : PeerID → Nat → Option ServerInfo}
    {later : List (PeerID × ServerEvent)}
    (h : LeadsTo config.step (initial serverInfo records) events servers)
    (hlater : LeadsTo config.step servers later final)
    (hthroughput : ∀ peerId, 0 < (serverInfo peerId).throughput)
    (hgone : ∀ peerId blockIdx, ServerSystem.Gone (records peerId blockIdx))
    (hreliable : ∀ event ∈ events ++ later, event.2.Reliable)
    (htimely : EveryStep config.step (fun servers event => (servers event.1).Timely event.2)
      (initial serverInfo records) events)
    (hpresent : ∀ peerId ∈ config.peers, (servers peerId).phase.Stays)
    (hstays : ∀ event ∈ later, event.2.Stays)
    (hinformed : EveryStep config.step config.Informed servers later) :
    (config.unclaimed final).card ≤ (config.unclaimed servers).card - (choosers later).length ∧
      ((∀ peerId ∈ config.peers, config.Current (final peerId)) →
        uncovered (config.throughputs final) = config.unclaimed final) := by
  obtain ⟨hreliableBefore, hreliableLater⟩ := List.forall_mem_append.mp hreliable
  have horderly : ∀ peerId ∈ config.peers, config.Orderly peerId (servers peerId) :=
    (everyState_of_everyStep
      (P := fun servers => ∀ peerId ∈ config.peers, config.Orderly peerId (servers peerId))
      (by
        intro state event next horderly hstep hok
        exact orderly_step horderly hok.2 hok.1 hstep)
      (fun peerId _ => orderly_initial hthroughput hgone peerId)
      (htimely.and_forall hreliableBefore)).final h
  obtain ⟨hfinal, hcard⟩ := unclaimed_run
    (fun free earlier => free.card ≤ (config.unclaimed servers).card - earlier.length)
    (fun current peerId start earlier hfree hbest hfound => by
      have hless := chooseBestStart_progress (config.numBlocks_pos peerId) throughputs_nonneg hbest
      rw [hfound] at hless
      rw [List.length_append, List.length_singleton]
      omega) hlater (fun peerId hpeer => ⟨horderly peerId hpeer, hpresent peerId hpeer⟩)
    hreliableLater hstays hinformed [] le_rfl
  exact ⟨by simpa using hcard, uncovered_throughputs fun peerId hpeer => (hfinal peerId hpeer).1⟩

def goes : List ServerEvent :=
  [.load, .construct, .write, .signal, .start, .leave false, .write, .signal] ++
    [.wake, .clear, .measure 8, .test, .send, .store fun _ => true, .check].map .announcer ++ [.join]

def comesAndGoes : List (Nat × ServerEvent) := joinsAt 0 [0, 1] ++ goes.map (0, ·)

theorem comesAndGoes_reliable : ∀ event ∈ comesAndGoes, event.2.Reliable := by
  refine List.forall_mem_append.mpr ⟨joinsAt_reliable 0 [0, 1], ?_⟩
  simp [goes, ServerEvent.Reliable, ServerEvent.Accepted]

theorem restored_gone :
    (pairServers.unclaimed (afterAll (comesAndGoes ++ joinsAt 1 [0, 1]))).card ≤
        (pairServers.unclaimed (afterAll comesAndGoes)).card - 1 ∧
      uncovered (pairServers.throughputs (afterAll (comesAndGoes ++ joinsAt 1 [0, 1]))) =
        pairServers.unclaimed (afterAll (comesAndGoes ++ joinsAt 1 [0, 1])) := by
  have hbefore : LeadsTo pairServers.step noServers comesAndGoes (afterAll comesAndGoes) :=
    leadsTo_getD (by decide +kernel)
  have hall : LeadsTo pairServers.step noServers (comesAndGoes ++ joinsAt 1 [0, 1])
      (afterAll (comesAndGoes ++ joinsAt 1 [0, 1])) := leadsTo_getD (by decide +kernel)
  obtain ⟨middle, hmiddle, hlater⟩ := leadsTo_append.mp hall
  obtain rfl := hmiddle.unique hbefore
  have hpresent : ∀ peerId ∈ pairServers.peers, (afterAll comesAndGoes peerId).phase.Stays := by
    decide +kernel
  have hrestored := restored hbefore hlater (fun _ => zero_lt_one)
    (fun _ _ _ hrecord => by cases hrecord)
    (List.forall_mem_append.mpr ⟨comesAndGoes_reliable, joinsAt_reliable 1 [0, 1]⟩)
    (by decide +kernel) hpresent (joinsAt_stays 1 [0, 1]) (by decide +kernel)
  exact ⟨hrestored.1, hrestored.2 (by decide +kernel)⟩

end runs

end SwarmConfig
end Peerz.Server
