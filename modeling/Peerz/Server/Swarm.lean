import Peerz.Library.Parties
import Peerz.Server.DeclaredSpans
import Peerz.Server.UncoveredBlocks

/-! The servers of one model on one DHT. Each of them chooses its blocks by the records of all
servers, and announces them while the others do the same. -/
namespace Peerz.Server
open Library Utils.Dht

def ServerEvent.Stays : ServerEvent → Prop
  | .leave _ | .raise => False
  | _ => True

def ServerEvent.chosen : ServerEvent → Option (List Nat)
  | .choose blockIndices => some blockIndices
  | _ => none

def ServerPhase.Stays : ServerPhase → Prop
  | .writing (.offline _) | .signalling (.offline _) | .joining _ => False
  | _ => True

instance : DecidablePred ServerPhase.Stays
  | .writing (.offline _) | .signalling (.offline _) | .joining _ => .isFalse id
  | .choosing | .loading | .constructing | .starting | .serving | .writing .online
  | .signalling .online | .ended => .isTrue trivial

instance : DecidablePred ServerPhase.Hosting
  | .loading | .constructing | .starting | .serving | .writing _ | .signalling .online =>
      .isTrue trivial
  | .choosing | .signalling (.offline _) | .joining _ | .ended => .isFalse id

namespace ServerSystem

variable {config : AnnouncerConfig} {system next : ServerSystem} {thread : ModuleAnnouncerThread}

/-- The server holds the block, in its container or on the way there. -/
def Claims (system : ServerSystem) (blockIdx : Nat) : Prop :=
  system.phase.Hosting ∧ ∃ thread ∈ system.announcer, blockIdx ∈ thread.blockIndices

instance (record : Option ServerInfo) : Decidable (Gone record) :=
  inferInstanceAs (Decidable (∀ serverInfo ∈ record, serverInfo.state = .offline))

instance (system : ServerSystem) (blockIdx : Nat) : Decidable (system.Claims blockIdx) :=
  inferInstanceAs (Decidable (_ ∧ _))

/-- The throughput and the bounds in a record are those of the server. -/
def States (system : ServerSystem) (serverInfo : ServerInfo) : Prop :=
  serverInfo.throughput = system.serverInfo.throughput ∧
    serverInfo.startBlock = system.serverInfo.startBlock ∧
    serverInfo.endBlock = system.serverInfo.endBlock

/-- What the announcer sends is the record of the present container, and all that the DHT has of
the server is one such record for the container's blocks. -/
structure Stated (system : ServerSystem) : Prop where
  sent : ∀ thread ∈ system.announcer, ∀ sent, thread.phase = .storing sent → system.States sent
  outside : ∀ thread ∈ system.announcer, ∀ blockIdx ∉ thread.blockIndices,
    Gone (system.records blockIdx)
  record : ∃ stored, system.States stored ∧ ∀ blockIdx, ∀ serverInfo ∈ system.records blockIdx,
    serverInfo.state ≠ .offline → serverInfo = stored

theorem AnnouncerMove.throughput {event : AnnouncerEvent}
    (h : AnnouncerMove config system thread event next) :
    next.serverInfo.throughput = system.serverInfo.throughput := by
  cases h <;> rfl

theorem throughput_step {event : ServerEvent} (hstep : system.step config event = some next) :
    next.serverInfo.throughput = system.serverInfo.throughput := by
  cases step_move hstep with
  | chooses found blockIndices =>
      unfold create
      cases announcedBounds blockIndices <;> rfl
  | announcer known moved => exact moved.throughput
  | loads | constructs | starts | leaves | givesUp | breaksOff | writes | signals | joins => rfl

theorem Stated.of_gone (hgone : ∀ blockIdx, Gone (system.records blockIdx))
    (hsent : ∀ thread ∈ system.announcer, ∀ sent, thread.phase ≠ .storing sent) :
    system.Stated where
  sent thread hthread sent hphase := absurd hphase (hsent thread hthread sent)
  outside _ _ blockIdx _ := hgone blockIdx
  record := ⟨system.serverInfo, ⟨rfl, rfl, rfl⟩, fun blockIdx serverInfo hrecord hstate =>
    absurd (hgone blockIdx serverInfo hrecord) hstate⟩

theorem Stated.frame (h : system.Stated) (hthread : system.announcer = some thread)
    {later : ModuleAnnouncerThread} (hlater : next.announcer = some later)
    (hblocks : later.blockIndices = thread.blockIndices)
    (hsent : ∀ sent, later.phase = .storing sent → thread.phase = .storing sent)
    (hinfo : ∀ sent, system.States sent → next.States sent)
    (hrecords : next.records = system.records) : next.Stated where
  sent other hother sent hphase := by
    obtain rfl := Option.some.inj (hlater.symm.trans hother)
    exact hinfo sent (h.sent thread hthread sent (hsent sent hphase))
  outside other hother blockIdx hmem := by
    obtain rfl := Option.some.inj (hlater.symm.trans hother)
    rw [hrecords]
    exact h.outside thread hthread blockIdx (hblocks ▸ hmem)
  record := by
    obtain ⟨stored, hstored, hlive⟩ := h.record
    exact ⟨stored, hinfo stored hstored, hrecords ▸ hlive⟩

theorem Stated.announcerMove {event : AnnouncerEvent} (h : system.Stated)
    (hthread : system.announcer = some thread)
    (hreliable : ServerEvent.Reliable (.announcer event))
    (hmove : AnnouncerMove config system thread event next) : next.Stated := by
  cases hmove with
  | sends found =>
      refine ⟨?_, ?_, h.record⟩
      · rintro later ⟨⟩ sent ⟨⟩
        exact ⟨rfl, rfl, rfl⟩
      · rintro later ⟨⟩
        exact h.outside thread hthread
  | @stores sent found accepted =>
      have houtside (blockIdx : Nat) (hmem : blockIdx ∉ thread.blockIndices) :
          declareActiveModules system.records thread.blockIndices sent accepted blockIdx =
            system.records blockIdx := if_neg fun hboth => hmem hboth.1
      refine ⟨?_, ?_, sent, h.sent thread hthread sent found, ?_⟩
      · rintro later ⟨⟩ other hphase
        cases hphase
      · rintro later ⟨⟩ blockIdx hmem
        change Gone (declareActiveModules system.records thread.blockIndices sent accepted blockIdx)
        rw [houtside blockIdx hmem]
        exact h.outside thread hthread blockIdx hmem
      · intro blockIdx serverInfo hrecord hstate
        replace hrecord : declareActiveModules system.records thread.blockIndices sent accepted
            blockIdx = some serverInfo := hrecord
        by_cases hmem : blockIdx ∈ thread.blockIndices
        · rw [declareActiveModules_accepted hreliable.1 hmem] at hrecord
          exact (Option.some.inj hrecord).symm
        · rw [houtside blockIdx hmem] at hrecord
          exact absurd (h.outside thread hthread blockIdx hmem serverInfo hrecord) hstate
  | measures | skipsPings | turnsToPings | pings | ends | goesOn | publishes | wakes | clears
  | dies =>
      exact h.frame hthread rfl rfl (fun sent hphase => (by cases hphase)) (fun _ hsent => hsent) rfl

theorem Stated.step {event : ServerEvent} (h : system.Stated) (hannounces : system.Announces)
    (hsweeps : system.Sweeps) (hreliable : event.Reliable)
    (hstep : system.step config event = some next) : next.Stated := by
  cases step_move hstep with
  | chooses found blockIndices =>
      have hgone := hsweeps.choosing found
      unfold create
      cases announcedBounds blockIndices with
      | none =>
          refine .of_gone hgone fun thread hthread sent hphase => ?_
          cases (hannounces.between found thread hthread).symm.trans hphase
      | some bounds =>
          refine .of_gone hgone ?_
          rintro thread ⟨⟩ sent hphase
          cases hphase
  | announcer known moved => exact h.announcerMove known hreliable moved
  | signals found known =>
      exact h.frame known rfl rfl (fun _ hphase => hphase) (fun _ hsent => hsent) rfl
  | joins found known ended =>
      exact h.frame known rfl rfl (fun _ hphase => hphase) (fun _ hsent => hsent) rfl
  | loads | constructs | starts | leaves | givesUp | breaksOff | writes =>
      exact ⟨h.sent, h.outside, h.record⟩

theorem AnnouncerMove.claims {event : AnnouncerEvent} (hthread : system.announcer = some thread)
    (h : AnnouncerMove config system thread event next) (blockIdx : Nat) :
    next.Claims blockIdx ↔ system.Claims blockIdx := by
  obtain ⟨hphase, -, -, -, later, hlater, hblocks⟩ := h.frame
  unfold Claims
  rw [hphase, hlater, hthread]
  simp [hblocks]

/-- Servers that stay hold what they have chosen. -/
theorem claims_step {event : ServerEvent} (hphase : system.phase.Stays) (hevent : event.Stays)
    (hchoose : ∀ blockIndices, event ≠ .choose blockIndices)
    (hstep : system.step config event = some next) :
    next.phase.Stays ∧ ∀ blockIdx, next.Claims blockIdx ↔ system.Claims blockIdx := by
  cases step_move hstep with
  | chooses found blockIndices => exact absurd rfl (hchoose blockIndices)
  | loads found | constructs found | starts found =>
      refine ⟨trivial, fun blockIdx => and_congr_left fun _ => ?_⟩
      rw [found]
      exact Iff.rfl
  | leaves => exact hevent.elim
  | givesUp | breaksOff => exact hevent.elim
  | @writes announcement found =>
      rw [found] at hphase
      cases announcement with
      | online =>
          refine ⟨trivial, fun blockIdx => and_congr_left fun _ => ?_⟩
          rw [found]
          exact Iff.rfl
      | offline again => exact hphase.elim
  | @signals announcement thread found known =>
      rw [found] at hphase
      cases announcement with
      | online =>
          refine ⟨trivial, fun blockIdx => ?_⟩
          unfold Claims
          rw [found, known]
          simp [Announcement.next, ServerPhase.Hosting]
      | offline again => exact hphase.elim
  | joins found =>
      rw [found] at hphase
      exact hphase.elim
  | announcer known moved => exact ⟨moved.frame.1 ▸ hphase, moved.claims known⟩

theorem claims_create {start len : Nat} (hlen : 0 < len) (blockIdx : Nat) :
    (system.create (List.range' start len)).phase.Stays ∧
      ((system.create (List.range' start len)).Claims blockIdx ↔
        blockIdx ∈ Finset.Ico start (start + len)) := by
  unfold create
  rw [announcedBounds_range' hlen]
  refine ⟨trivial, ?_⟩
  simp [Claims, ServerPhase.Hosting]

end ServerSystem

structure SwarmConfig (PeerID : Type) where
  peers : List PeerID
  nodup : peers.Nodup
  dhtPrefix : String
  /-- `block_config.num_hidden_layers` -/
  modelBlocks : Nat
  /-- `Server.num_blocks` -/
  numBlocks : PeerID → Nat
  numBlocks_pos : ∀ peerId, 0 < numBlocks peerId
  bytesPerToken : PeerID → Nat
  repository : PeerID → Option String

namespace SwarmConfig

variable {PeerID : Type}

def announcer (config : SwarmConfig PeerID) (peerId : PeerID) : AnnouncerConfig where
  dhtPrefix := config.dhtPrefix
  bytesPerToken := config.bytesPerToken peerId
  numBlocks := config.modelBlocks
  repository := config.repository peerId

def moduleUids (config : SwarmConfig PeerID) : List ModuleUID :=
  (List.range config.modelBlocks).map fun blockIdx => ⟨config.dhtPrefix, blockIdx⟩

variable (config : SwarmConfig PeerID) (servers : PeerID → ServerSystem)

def found (blockIdx : Nat) : DHTRecord PeerID :=
  Dict.tabulate config.peers config.nodup fun peerId => ((servers peerId).records blockIdx).map some

def moduleInfos : List (RemoteModuleInfo PeerID) :=
  getRemoteModuleInfos (fun uid => config.found servers uid.index) config.moduleUids none

def initial (serverInfo : PeerID → ServerInfo) (records : PeerID → Nat → Option ServerInfo)
    (peerId : PeerID) : ServerSystem :=
  .initial (serverInfo peerId) (records peerId)

def unclaimed : Finset Nat :=
  (Finset.range config.modelBlocks).filter fun blockIdx =>
    ∀ peerId ∈ config.peers, ¬ (servers peerId).Claims blockIdx

/-- The DHT has live records of a server for exactly the blocks that it holds. -/
def Current (system : ServerSystem) : Prop :=
  ∀ blockIdx < config.modelBlocks,
    ¬ ServerSystem.Gone (system.records blockIdx) ↔ system.Claims blockIdx

instance (system : ServerSystem) : Decidable (config.Current system) :=
  inferInstanceAs (Decidable (∀ blockIdx < config.modelBlocks, _))

section choosing
variable [LinearOrder PeerID]

/-- `_choose_blocks`, where the operator has not chosen. -/
def chooseBlocks (peerId : PeerID) : Option (List Nat) :=
  match chooseBestBlocks (config.numBlocks peerId) (config.moduleInfos servers) with
  | .ok blocks => some (blocks.map Int.toNat)
  | .error _ => none

/-- A server chooses by what the DHT holds at that time. -/
def Allowed (peerId : PeerID) (event : ServerEvent) : Prop :=
  peerId ∈ config.peers ∧
    ∀ blockIndices ∈ event.chosen, config.chooseBlocks servers peerId = some blockIndices

instance (peerId : PeerID) (event : ServerEvent) :
    Decidable (config.Allowed servers peerId event) :=
  inferInstanceAs (Decidable (_ ∧ _))

def step : (PeerID → ServerSystem) → PeerID × ServerEvent → Option (PeerID → ServerSystem) :=
  partyStep (fun peerId => ServerSystem.step (config.announcer peerId)) fun servers =>
    config.Allowed servers

def throughputs : List ℚ :=
  computeThroughputs (computeSpans (config.moduleInfos servers) .joining) config.modelBlocks

end choosing

variable {config servers}

@[simp] theorem moduleInfos_length : (config.moduleInfos servers).length = config.modelBlocks := by
  simp [moduleInfos, getRemoteModuleInfos, moduleUids]

theorem moduleInfos_numbered : Numbered (config.moduleInfos servers) := by
  intro blockIdx moduleInfo h
  obtain ⟨uid, huid, rfl⟩ := Option.map_eq_some_iff.mp ((List.getElem?_map ..).symm.trans h)
  obtain ⟨index, hindex, rfl⟩ := Option.map_eq_some_iff.mp ((List.getElem?_map ..).symm.trans huid)
  exact (by simpa using (List.getElem?_eq_some_iff.mp hindex).2.symm : index = blockIdx)

theorem mem_unclaimed {blockIdx : Nat} : blockIdx ∈ config.unclaimed servers ↔
    blockIdx < config.modelBlocks ∧ ∀ peerId ∈ config.peers, ¬ (servers peerId).Claims blockIdx := by
  simp [unclaimed]

variable [LinearOrder PeerID]

theorem moduleInfos_entry {blockIdx : Nat} {moduleInfo : RemoteModuleInfo PeerID}
    (h : (config.moduleInfos servers)[blockIdx]? = some moduleInfo) {peerId : PeerID}
    {serverInfo : ServerInfo} : moduleInfo.servers.get? peerId = some serverInfo ↔
      peerId ∈ config.peers ∧ (servers peerId).records blockIdx = some serverInfo := by
  obtain ⟨uid, huid, hservers⟩ := getRemoteModuleInfos_getElem? h peerId
  obtain ⟨index, hindex, rfl⟩ := Option.map_eq_some_iff.mp ((List.getElem?_map ..).symm.trans huid)
  obtain rfl : blockIdx = index := by simpa using (List.getElem?_eq_some_iff.mp hindex).2
  rw [hservers, Option.bind_eq_some_iff]
  constructor
  · rintro ⟨parsed, hparsed, haccepted⟩
    obtain ⟨hpeer, hrecord⟩ := Dict.get?_tabulate.mp hparsed
    obtain ⟨stored, hstored, rfl⟩ := Option.map_eq_some_iff.mp hrecord
    cases haccepted
    exact ⟨hpeer, hstored⟩
  · rintro ⟨hpeer, hrecord⟩
    exact ⟨some serverInfo, Dict.get?_tabulate.mpr ⟨hpeer, by rw [hrecord]; rfl⟩, rfl⟩

/-- What is known of a server that stores what it announces. -/
structure Orderly (config : SwarmConfig PeerID) (peerId : PeerID) (system : ServerSystem) :
    Prop where
  announces : system.Announces
  hosts : system.Hosts
  sweeps : system.Sweeps
  stated : system.Stated
  throughput : 0 < system.serverInfo.throughput
  window : ∀ thread ∈ system.announcer, ∃ start,
    thread.blockIndices = List.range' start (config.numBlocks peerId) ∧
      start + config.numBlocks peerId ≤ config.modelBlocks

/-- The blocks to choose form a window of the model. -/
def InWindow (config : SwarmConfig PeerID) (peerId : PeerID) (event : ServerEvent) : Prop :=
  ∀ blockIndices ∈ event.chosen, ∃ start,
    blockIndices = List.range' start (config.numBlocks peerId) ∧
      start + config.numBlocks peerId ≤ config.modelBlocks

namespace Orderly

variable {peerId : PeerID} {system next : ServerSystem} {event : ServerEvent}

omit [LinearOrder PeerID] in
theorem step (h : config.Orderly peerId system) (hreliable : event.Reliable)
    (htimely : system.Timely event) (hwindow : config.InWindow peerId event)
    (hstep : system.step (config.announcer peerId) event = some next) :
    config.Orderly peerId next where
  announces := h.announces.step hreliable.1 hstep
  hosts := h.hosts.step hreliable hstep
  sweeps := h.sweeps.step h.announces h.hosts hreliable htimely hstep
  stated := h.stated.step h.announces h.sweeps hreliable hstep
  throughput := ServerSystem.throughput_step hstep ▸ h.throughput
  window := by
    cases ServerSystem.step_move hstep with
    | chooses found blockIndices =>
        unfold ServerSystem.create
        cases announcedBounds blockIndices with
        | none => exact h.window
        | some bounds =>
            rintro thread ⟨⟩
            exact hwindow blockIndices rfl
    | announcer known moved =>
        obtain ⟨-, -, -, -, later, hlater, hblocks⟩ := moved.frame
        rw [hlater]
        rintro thread ⟨⟩
        rw [hblocks]
        exact h.window _ known
    | @signals announcement thread found known =>
        rintro later ⟨⟩
        exact h.window thread known
    | @joins again thread found known ended =>
        rintro later ⟨⟩
        exact h.window thread known
    | loads | constructs | starts | leaves | givesUp | breaksOff | writes => exact h.window

omit [LinearOrder PeerID] in
theorem claims_iff {blockIdx : Nat} (h : config.Orderly peerId system)
    (hclaims : system.Claims blockIdx) : ∃ start,
      system.serverInfo.startBlock = some start ∧
      system.serverInfo.endBlock = some (start + config.numBlocks peerId) ∧
      start + config.numBlocks peerId ≤ config.modelBlocks ∧
      ∀ other, system.Claims other ↔ other ∈ Finset.Ico start (start + config.numBlocks peerId) := by
  obtain ⟨hhosting, thread, hthread, -⟩ := hclaims
  obtain ⟨other, hother, hosted⟩ := h.hosts hhosting
  have hthread : system.announcer = some thread := hthread
  obtain rfl := Option.some.inj (hthread.symm.trans hother)
  obtain ⟨start, hblocks, hinside⟩ := h.window thread hthread
  obtain ⟨low, high, hbounds, hlow, hhigh⟩ := hosted.bounds
  rw [hblocks, announcedBounds_range' (config.numBlocks_pos peerId)] at hbounds
  cases hbounds
  refine ⟨start, hlow, hhigh, hinside, fun other => ?_⟩
  simp [ServerSystem.Claims, hhosting, hthread, hblocks]

end Orderly

section seen
variable {peerId : PeerID}

theorem span_of_claims (horderly : config.Orderly peerId (servers peerId))
    (hcurrent : config.Current (servers peerId)) (hpeer : peerId ∈ config.peers) {blockIdx : Nat}
    (hclaims : (servers peerId).Claims blockIdx) : ∃ span,
      (computeSpans (config.moduleInfos servers) .joining).get? peerId = some span ∧
        0 < span.throughput ∧ ∀ other,
          other ∈ window config.modelBlocks span ↔ (servers peerId).Claims other := by
  obtain ⟨start, hstart, hend, hinside, hwindow⟩ := horderly.claims_iff hclaims
  obtain ⟨stored, ⟨hthroughput, hstoredStart, hstoredEnd⟩, hlive⟩ := horderly.stated.record
  have hpositive := config.numBlocks_pos peerId
  have hrecord {other : Nat} (hother : other ∈ Finset.Ico start (start + config.numBlocks peerId)) :
      (servers peerId).records other = some stored ∧ stored.state ≠ .offline := by
    have hlt := (Finset.mem_Ico.mp hother).2
    have hpresent := (hcurrent other (by omega)).mpr ((hwindow other).mpr hother)
    unfold ServerSystem.Gone at hpresent
    push Not at hpresent
    obtain ⟨serverInfo, hmem, hstate⟩ := hpresent
    obtain rfl := hlive other serverInfo hmem hstate
    exact ⟨hmem, hstate⟩
  have hstate := (hrecord ((hwindow blockIdx).mp hclaims)).2
  refine ⟨⟨peerId, start, (start + config.numBlocks peerId : Nat), stored⟩,
    computeSpans_announced moduleInfos_numbered.blockOffset_eq (hstoredStart.trans hstart)
      (hstoredEnd.trans hend) (by omega) (by rwa [moduleInfos_length]) ?_ ?_, ?_, ?_⟩
  · cases hvalue : stored.state with
    | offline => exact absurd hvalue hstate
    | joining | online => decide
  · intro other moduleInfo hblock
    split
    · rename_i hmem
      exact (moduleInfos_entry hblock).mpr ⟨hpeer, (hrecord (Finset.mem_Ico.mpr hmem)).1⟩
    · rename_i hmem
      intro serverInfo hentry
      have hlt : other < config.modelBlocks := by
        have := (List.getElem?_eq_some_iff.mp hblock).1
        rwa [moduleInfos_length] at this
      have hgone : ServerSystem.Gone ((servers peerId).records other) := by
        by_contra hpresent
        exact hmem (Finset.mem_Ico.mp ((hwindow other).mp ((hcurrent other hlt).mp hpresent)))
      rw [hgone serverInfo ((moduleInfos_entry hblock).mp hentry).2]
      decide
  · change 0 < stored.throughput
    rw [hthroughput]
    exact horderly.throughput
  · intro other
    rw [hwindow other]
    unfold window
    dsimp only
    rw [pyClamp_natCast (by omega), pyClamp_natCast hinside]

theorem claims_of_span (hcurrent : config.Current (servers peerId))
    {span : RemoteSpanInfo PeerID}
    (hspan : (computeSpans (config.moduleInfos servers) .joining).get? peerId = some span) :
    ∃ blockIdx, (servers peerId).Claims blockIdx := by
  obtain ⟨moduleInfo, hmem, serverInfo, hentry, hstate⟩ := exists_entry_of_computeSpans hspan
  obtain ⟨blockIdx, hblock⟩ := List.mem_iff_getElem?.mp hmem
  have hlt : blockIdx < config.modelBlocks := by
    have := (List.getElem?_eq_some_iff.mp hblock).1
    rwa [moduleInfos_length] at this
  refine ⟨blockIdx, (hcurrent blockIdx hlt).mp fun hgone => ?_⟩
  rw [hgone serverInfo ((moduleInfos_entry hblock).mp hentry).2] at hstate
  exact absurd hstate (by decide)

theorem mem_peers_of_span {span : RemoteSpanInfo PeerID}
    (hspan : (computeSpans (config.moduleInfos servers) .joining).get? peerId = some span) :
    peerId ∈ config.peers := by
  obtain ⟨moduleInfo, hmem, serverInfo, hentry, -⟩ := exists_entry_of_computeSpans hspan
  obtain ⟨blockIdx, hblock⟩ := List.mem_iff_getElem?.mp hmem
  exact ((moduleInfos_entry hblock).mp hentry).1

/-- Peers find the blocks without a server that there are, where all records are current. -/
theorem uncovered_throughputs
    (horderly : ∀ peerId ∈ config.peers, config.Orderly peerId (servers peerId))
    (hcurrent : ∀ peerId ∈ config.peers, config.Current (servers peerId)) :
    uncovered (config.throughputs servers) = config.unclaimed servers := by
  ext blockIdx
  unfold throughputs
  rw [mem_uncovered_computeThroughputs, mem_unclaimed]
  refine and_congr_right fun hlt => ⟨fun hzero peerId hpeer hclaims => ?_,
    fun hfree peerId span hspan hinside => ?_⟩
  · obtain ⟨span, hspan, hpositive, hwindow⟩ :=
      span_of_claims (horderly peerId hpeer) (hcurrent peerId hpeer) hpeer hclaims
    exact hpositive.ne' (hzero peerId span hspan ((hwindow blockIdx).mpr hclaims))
  · have hpeer := mem_peers_of_span hspan
    obtain ⟨other, hclaims⟩ := claims_of_span (hcurrent peerId hpeer) hspan
    obtain ⟨same, hsame, -, hwindow⟩ :=
      span_of_claims (horderly peerId hpeer) (hcurrent peerId hpeer) hpeer hclaims
    obtain rfl := Option.some.inj (hsame.symm.trans hspan)
    exact absurd ((hwindow blockIdx).mp hinside) (hfree peerId hpeer)

end seen
end SwarmConfig
end Peerz.Server
