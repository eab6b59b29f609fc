import Peerz.Server.Lifecycle

/-! The span that the swarm computes for a server over all its containers. -/
namespace Peerz.Server
open Library Utils.Dht

instance : DecidablePred AnnouncerPhase.InDeclaration
  | .storing _ | .checking => .isTrue trivial
  | .measuring | .testing | .pinging | .declaring | .publishing | .waiting | .clearing | .ended =>
      .isFalse id

def AnnouncerConfig.moduleUids (config : AnnouncerConfig) : List ModuleUID :=
  (List.range config.numBlocks).map fun blockIdx => ⟨config.dhtPrefix, blockIdx⟩

namespace ServerSystem

variable {config : AnnouncerConfig} {system next : ServerSystem} {thread : ModuleAnnouncerThread}

/-- OFFLINE is not written in the middle of a declaration. -/
def Timely (system : ServerSystem) : ServerEvent → Prop
  | .write =>
      match system.phase, system.announcer with
      | .writing (.offline _), some thread => ¬ thread.phase.InDeclaration
      | _, _ => True
  | _ => True

instance (system : ServerSystem) : DecidablePred system.Timely
  | .write => by
      unfold Timely
      dsimp only
      split <;> infer_instance
  | .choose _ | .load | .construct | .start | .leave _ | .raise | .signal | .join | .announcer _ =>
      .isTrue trivial

/-- There is no record, or one that no client looks at. -/
def Gone (record : Option ServerInfo) : Prop := ∀ serverInfo ∈ record, serverInfo.state = .offline

theorem Gone.of_recordsAre {blockIndices : List Nat}
    (h : system.RecordsAre blockIndices (· = .offline)) {blockIdx : Nat}
    (hmem : blockIdx ∈ blockIndices) : Gone (system.records blockIdx) := by
  obtain ⟨serverInfo, hrecord, hstate⟩ := h blockIdx hmem
  rw [hrecord]
  rintro other ⟨⟩
  exact hstate

structure Sweeps (system : ServerSystem) : Prop where
  choosing : system.phase = .choosing → ∀ blockIdx, Gone (system.records blockIdx)
  hosting : system.phase.Hosting → ∀ thread ∈ system.announcer, ∀ blockIdx ∉ thread.blockIndices,
    Gone (system.records blockIdx)
  leaving : ∀ again, system.phase = .signalling (.offline again) ∨ system.phase = .joining again →
    ∀ thread ∈ system.announcer, system.serverInfo.state = .offline ∧
      system.Sends (· = .offline) thread ∧ ∀ blockIdx ∉ thread.blockIndices,
        Gone (system.records blockIdx)

theorem AnnouncerMove.records_of_notMem {event : AnnouncerEvent}
    (h : AnnouncerMove config system thread event next) {blockIdx : Nat}
    (hmem : blockIdx ∉ thread.blockIndices) : next.records blockIdx = system.records blockIdx := by
  cases h with
  | stores found accepted => exact if_neg fun hboth => hmem hboth.1
  | measures | skipsPings | turnsToPings | pings | goesOn | publishes | wakes | clears | sends
  | ends | dies => rfl

theorem Sweeps.frame (h : system.Sweeps) {phase : ServerPhase} (hchoosing : phase ≠ .choosing)
    (hhosting : phase.Hosting → system.phase.Hosting)
    (hleaving : ∀ again, phase ≠ .signalling (.offline again) ∧ phase ≠ .joining again) :
    Sweeps { system with phase := phase } where
  choosing hphase := absurd hphase hchoosing
  hosting hphase := h.hosting (hhosting hphase)
  leaving again hphase :=
    (hphase.elim (hleaving again).1 (hleaving again).2).elim

theorem Sweeps.left (h : system.Sweeps) {again : Bool} (hphase : system.phase = .joining again)
    (hthread : system.announcer = some thread) (hended : thread.phase = .ended) (blockIdx : Nat) :
    Gone (system.records blockIdx) := by
  obtain ⟨-, hsends, hothers⟩ := h.leaving again (.inr hphase) thread hthread
  unfold Sends at hsends
  rw [hended] at hsends
  by_cases hmem : blockIdx ∈ thread.blockIndices
  · exact Gone.of_recordsAre hsends hmem
  · exact hothers blockIdx hmem

theorem Sweeps.announcerMove {event : AnnouncerEvent} (h : system.Sweeps)
    (hbetween : system.phase = .choosing → thread.phase = .ended)
    (hthread : system.announcer = some thread)
    (hreliable : ServerEvent.Reliable (.announcer event))
    (hmove : AnnouncerMove config system thread event next) : next.Sweeps := by
  obtain ⟨hphase, hstate, -, -, later, hlater, hblocks⟩ := hmove.frame
  have hothers (hgone : ∀ blockIdx ∉ thread.blockIndices, Gone (system.records blockIdx)) :
      ∀ blockIdx ∉ later.blockIndices, Gone (next.records blockIdx) := by
    intro blockIdx hmem
    rw [hblocks] at hmem
    rw [hmove.records_of_notMem hmem]
    exact hgone blockIdx hmem
  refine ⟨fun hchoosing => ?_, fun hhosting other hother => ?_, fun again hleaving other hother => ?_⟩
  · exact absurd (hbetween (hphase ▸ hchoosing)) hmove.running
  · obtain rfl := Option.some.inj (hlater.symm.trans hother)
    exact hothers (h.hosting (hphase ▸ hhosting) thread hthread)
  · rw [hphase] at hleaving
    obtain ⟨hoffline, hsends, hgone⟩ := h.leaving again hleaving thread hthread
    obtain ⟨sender, hsender, -, hsends'⟩ := hsends.announcerMove hoffline hreliable hmove
    obtain rfl := Option.some.inj (hlater.symm.trans hother)
    obtain rfl := Option.some.inj (hlater.symm.trans hsender)
    exact ⟨hstate.trans hoffline, hsends', hothers hgone⟩

theorem Sweeps.create (h : system.Sweeps) (hphase : system.phase = .choosing)
    (blockIndices : List Nat) : (system.create blockIndices).Sweeps := by
  have hgone := h.choosing hphase
  unfold ServerSystem.create
  cases announcedBounds blockIndices with
  | none =>
      exact ⟨fun hchoosing => (by cases hchoosing), fun hhosting => (by cases hhosting),
        fun again hleaving => by rcases hleaving with hleaving | hleaving <;> cases hleaving⟩
  | some bounds =>
      exact ⟨fun hchoosing => (by cases hchoosing), fun _ _ _ blockIdx _ => hgone blockIdx,
        fun again hleaving => by rcases hleaving with hleaving | hleaving <;> cases hleaving⟩

theorem Sweeps.step {event : ServerEvent} (h : system.Sweeps) (hannounces : system.Announces)
    (hhosts : system.Hosts) (hreliable : event.Reliable) (htimely : system.Timely event)
    (hstep : system.step config event = some next) : next.Sweeps := by
  cases step_move hstep with
  | chooses found blockIndices => exact h.create found blockIndices
  | loads found | constructs found | starts found | leaves found =>
      exact h.frame (fun hphase => by cases hphase) (fun _ => by rw [found]; trivial)
        fun again => ⟨fun hphase => (by cases hphase), fun hphase => by cases hphase⟩
  | givesUp found =>
      refine h.frame (fun hphase => by cases hphase) (fun _ => ?_)
        fun again => ⟨fun hphase => (by cases hphase), fun hphase => by cases hphase⟩
      rcases found with found | found <;> rw [found] <;> trivial
  | breaksOff found =>
      exact h.frame (fun hphase => by cases hphase) False.elim
        fun again => ⟨fun hphase => (by cases hphase), fun hphase => by cases hphase⟩
  | @writes announcement found =>
      obtain ⟨thread, hthread, hosted⟩ := hhosts (by rw [found]; trivial)
      have hgone := h.hosting (by rw [found]; trivial)
      refine ⟨fun hphase => (by cases hphase), fun _ => hgone, fun again hphase other hother => ?_⟩
      obtain rfl := Option.some.inj (hthread.symm.trans hother)
      rcases hphase with hphase | hphase
      · cases hphase
        have hapart : ¬ thread.phase.InDeclaration := by
          simpa only [Timely, found, hthread] using htimely
        exact ⟨rfl, hosted.sends_offline hapart _, hgone thread hthread⟩
      · cases hphase
  | @signals announcement thread found known =>
      cases announcement with
      | online =>
          have hgone := h.hosting (by rw [found]; trivial) thread known
          refine ⟨fun hphase => (by cases hphase), fun _ other hother => ?_, fun again hphase => ?_⟩
          · obtain rfl := Option.some.inj hother
            exact hgone
          · rcases hphase with hphase | hphase <;> cases hphase
      | offline again =>
          have hleaving := h.leaving again (.inl found) thread known
          refine ⟨fun hphase => (by cases hphase), fun hhosting => (by cases hhosting),
            fun _ _ other hother => ?_⟩
          obtain rfl := Option.some.inj hother
          exact hleaving
  | @joins again thread found known ended =>
      have hgone := h.left found known ended
      refine ⟨fun _ => hgone, fun _ _ _ blockIdx _ => hgone blockIdx, fun other hphase => ?_⟩
      cases again <;> rcases hphase with hphase | hphase <;> cases hphase
  | announcer known moved =>
      exact h.announcerMove (fun hchoosing => hannounces.between hchoosing _ known) known hreliable
        moved

theorem sweeps_run {serverInfo : ServerInfo} {records : Nat → Option ServerInfo}
    {events : List ServerEvent}
    (h : LeadsTo (step config) (initial serverInfo records) events system)
    (hreliable : ∀ event ∈ events, event.Reliable)
    (htimely : EveryStep (step config) Timely (initial serverInfo records) events)
    (hgone : ∀ blockIdx, Gone (records blockIdx)) :
    system.Announces ∧ system.Hosts ∧ system.Sweeps := by
  refine (everyState_of_everyStep (P := fun system => system.Announces ∧ system.Hosts ∧ system.Sweeps)
    ?_ ?_ (htimely.and_forall hreliable)).final h
  · rintro state event later ⟨hannounces, hhosts, hsweeps⟩ hstep ⟨htimely, hreliable⟩
    exact ⟨hannounces.step hreliable.1 hstep, hhosts.step hreliable hstep,
      hsweeps.step hannounces hhosts hreliable htimely hstep⟩
  · exact ⟨.initial serverInfo records, fun hhosting => (by cases hhosting),
      fun _ => hgone, fun hhosting => (by cases hhosting),
      fun again hphase => by rcases hphase with hphase | hphase <;> cases hphase⟩

section view
variable {PeerID : Type} [LinearOrder PeerID]

/-- The DHT answers with the server's records, and with whatever the other servers have. -/
def Answers (system : ServerSystem) (config : AnnouncerConfig) (peerId : PeerID)
    (found : ModuleUID → DHTRecord PeerID) : Prop :=
  ∀ blockIdx < config.numBlocks,
    (found ⟨config.dhtPrefix, blockIdx⟩).get? peerId = (system.records blockIdx).map some

/-- What any peer computes from the records of the model's blocks. -/
def seenSpan (config : AnnouncerConfig) (found : ModuleUID → DHTRecord PeerID)
    (minState : ServerState) (peerId : PeerID) : Option (RemoteSpanInfo PeerID) :=
  (computeSpans (getRemoteModuleInfos found config.moduleUids none) minState).get? peerId

theorem Answers.entry {peerId : PeerID} {found : ModuleUID → DHTRecord PeerID}
    (h : system.Answers config peerId found) {blockIdx : Nat} {moduleInfo : RemoteModuleInfo PeerID}
    (hblock : (getRemoteModuleInfos found config.moduleUids none)[blockIdx]? = some moduleInfo) :
    blockIdx < config.numBlocks ∧ moduleInfo.servers.get? peerId = system.records blockIdx := by
  obtain ⟨uid, huid, hservers⟩ := getRemoteModuleInfos_getElem? hblock peerId
  obtain ⟨index, hindex, rfl⟩ := Option.map_eq_some_iff.mp ((List.getElem?_map ..).symm.trans huid)
  obtain ⟨hlt, heq⟩ := List.getElem?_eq_some_iff.mp hindex
  rw [List.length_range] at hlt
  obtain rfl : blockIdx = index := by simpa using heq
  refine ⟨hlt, ?_⟩
  rw [hservers, h blockIdx hlt]
  cases system.records blockIdx <;> rfl

end view

def moves : List ServerEvent :=
  joinsServer ++ [.load, .construct, .write, .signal, .start, .leave true, .write, .signal] ++
    [.wake, .clear, .measure 8, .test, .send, .store fun _ => true, .check].map .announcer ++
    [.join, .choose [1, 2]] ++ firstRound

def movedServer : ServerSystem := (moves.foldlM (step fourBlocks) newServer).getD newServer

theorem moves_reliable : ∀ event ∈ moves, event.Reliable := by
  simp [moves, joinsServer, firstRound, ServerEvent.Reliable, ServerEvent.Accepted]

def onlyServer (system : ServerSystem) (uid : ModuleUID) : DHTRecord Nat :=
  match system.records uid.index with
  | none => .empty
  | some serverInfo => Dict.empty.insert 7 (some serverInfo)

theorem onlyServer_answers (system : ServerSystem) :
    system.Answers fourBlocks 7 (onlyServer system) := by
  intro blockIdx _
  unfold onlyServer
  dsimp only
  cases system.records blockIdx with
  | none => rfl
  | some serverInfo => simp [Dict.get?_insert]

end ServerSystem
end Peerz.Server
