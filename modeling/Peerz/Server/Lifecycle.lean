import Peerz.Server.Announcements
import Peerz.Utils.ExactSpans

/-! The end of a container and the start of the next, as the swarm sees them. -/
namespace Peerz.Server
open Library Utils.Dht

/-- Besides, no call of the DHT raises in the announcer. -/
def ServerEvent.Reliable (event : ServerEvent) : Prop :=
  event.Accepted ∧ event ≠ .announcer .die

/-- The container's blocks are here and it has not announced that it leaves. -/
def ServerPhase.Hosting : ServerPhase → Prop
  | .loading | .constructing | .starting | .serving | .writing _ | .signalling .online => True
  | _ => False

/-- Between the two calls in which the announcer reads the state once more. -/
def AnnouncerPhase.InDeclaration : AnnouncerPhase → Prop
  | .storing _ | .checking => True
  | _ => False

theorem announcedBounds_range' {start len : Nat} (h : 0 < len) :
    announcedBounds (List.range' start len) = some (start, start + len) := by
  have hlow : (List.range' start len).min? = some start := by
    rw [List.min?_eq_some_iff]
    simp only [List.mem_range'_1]
    exact ⟨by omega, fun _ hmem => by omega⟩
  have hhigh : (List.range' start len).max? = some (start + len - 1) := by
    rw [List.max?_eq_some_iff]
    simp only [List.mem_range'_1]
    exact ⟨by omega, fun _ hmem => by omega⟩
  simp only [announcedBounds, hlow, hhigh, Option.bind_eq_bind, Option.bind_some, Option.pure_def,
    Option.some.injEq, Prod.mk.injEq, true_and]
  omega

theorem blockIndices_ne_nil {blockIndices : List Nat} {bounds : Nat × Nat}
    (h : announcedBounds blockIndices = some bounds) : blockIndices ≠ [] := by
  rintro rfl
  cases h

namespace ServerSystem

variable {config : AnnouncerConfig} {system next : ServerSystem} {thread : ModuleAnnouncerThread}

/-- The DHT has a record for each of the blocks, and of each the state is such. -/
def RecordsAre (system : ServerSystem) (blockIndices : List Nat) (P : ServerState → Prop) : Prop :=
  ∀ blockIdx ∈ blockIndices, ∃ serverInfo,
    system.records blockIdx = some serverInfo ∧ P serverInfo.state

/-- The state that the announcer has sent last is such, until it starts another round. -/
def Sends (P : ServerState → Prop) (system : ServerSystem) (thread : ModuleAnnouncerThread) :
    Prop :=
  match thread.phase with
  | .storing sent => P sent.state
  | .checking | .ended => system.RecordsAre thread.blockIndices P
  | _ => True

theorem Sends.of_records {P : ServerState → Prop} (h : system.Sends P thread)
    (hrecords : next.records = system.records) : next.Sends P thread := by
  unfold Sends RecordsAre at h ⊢
  rw [hrecords]
  exact h

theorem Sends.announcerMove {P : ServerState → Prop} {event : AnnouncerEvent}
    (h : system.Sends P thread) (hstate : P system.serverInfo.state)
    (hreliable : ServerEvent.Reliable (.announcer event))
    (hmove : AnnouncerMove config system thread event next) :
    ∃ later, next.announcer = some later ∧ later.blockIndices = thread.blockIndices ∧
      next.Sends P later := by
  unfold Sends at h
  cases hmove with
  | measures found | skipsPings found | turnsToPings found | pings found | goesOn found
  | publishes found | wakes found | clears found => exact ⟨_, rfl, rfl, trivial⟩
  | sends found => exact ⟨_, rfl, rfl, hstate⟩
  | stores found accepted =>
      rw [found] at h
      exact ⟨_, rfl, rfl, fun blockIdx hmem =>
        ⟨_, declareActiveModules_accepted hreliable.1 hmem, h⟩⟩
  | ends found leaving =>
      rw [found] at h
      exact ⟨_, rfl, rfl, h⟩
  | dies => exact absurd rfl hreliable.2

theorem AnnouncerMove.frame {event : AnnouncerEvent}
    (h : AnnouncerMove config system thread event next) :
    next.phase = system.phase ∧ next.serverInfo.state = system.serverInfo.state ∧
      next.serverInfo.startBlock = system.serverInfo.startBlock ∧
      next.serverInfo.endBlock = system.serverInfo.endBlock ∧
      ∃ later, next.announcer = some later ∧ later.blockIndices = thread.blockIndices := by
  cases h <;> exact ⟨rfl, rfl, rfl, rfl, _, rfl, rfl⟩

structure Hosted (system : ServerSystem) (thread : ModuleAnnouncerThread) : Prop where
  running : thread.phase ≠ .ended
  present : system.serverInfo.state ≠ .offline
  sends : system.Sends (· ≠ .offline) thread
  bounds : ∃ low high, announcedBounds thread.blockIndices = some (low, high) ∧
    system.serverInfo.startBlock = some low ∧ system.serverInfo.endBlock = some high

theorem Hosted.sends_offline (h : system.Hosted thread) (hapart : ¬ thread.phase.InDeclaration)
    (P : ServerState → Prop) : next.Sends P thread := by
  have hrunning := h.running
  unfold Sends
  split
  · rename_i hstoring
    rw [hstoring] at hapart
    exact absurd trivial hapart
  · rename_i hchecking
    rw [hchecking] at hapart
    exact absurd trivial hapart
  · rename_i hended
    exact absurd hended hrunning
  · trivial

def Hosts (system : ServerSystem) : Prop :=
  system.phase.Hosting → ∃ thread, system.announcer = some thread ∧ system.Hosted thread

theorem Hosted.announcerMove {event : AnnouncerEvent} (h : system.Hosted thread)
    (hreliable : ServerEvent.Reliable (.announcer event))
    (hmove : AnnouncerMove config system thread event next) :
    ∃ later, next.announcer = some later ∧ later.blockIndices = thread.blockIndices ∧
      next.Hosted later := by
  obtain ⟨-, hstate, hstart, hend, -⟩ := hmove.frame
  obtain ⟨later, hlater, hblocks, hsends⟩ := h.sends.announcerMove h.present hreliable hmove
  refine ⟨later, hlater, hblocks, ?_, hstate ▸ h.present, hsends, ?_⟩
  · cases hmove with
    | ends found leaving => exact absurd leaving h.present
    | dies => exact absurd rfl hreliable.2
    | measures found | skipsPings found | turnsToPings found | pings found | goesOn found
    | publishes found | wakes found | clears found | sends found | stores found =>
        cases hlater
        exact fun hended => by cases hended
  · rw [hblocks, hstart, hend]
    exact h.bounds

theorem Hosted.created {blockIndices : List Nat} (h : (system.create blockIndices).phase.Hosting) :
    (system.create blockIndices).announcer = some { blockIndices := blockIndices } ∧
      (system.create blockIndices).Hosted { blockIndices := blockIndices } := by
  unfold create at h ⊢
  cases hbounds : announcedBounds blockIndices with
  | none =>
      rw [hbounds] at h
      cases h
  | some bounds =>
      refine ⟨rfl, fun hended => (by cases hended), fun hstate => (by cases hstate), trivial,
        bounds.1, bounds.2, hbounds, rfl, rfl⟩

theorem Hosts.frame (h : system.Hosts) {phase : ServerPhase}
    (hphase : phase.Hosting → system.phase.Hosting) : Hosts { system with phase := phase } := by
  intro hhosting
  obtain ⟨thread, hthread, hosted⟩ := h (hphase hhosting)
  exact ⟨thread, hthread, hosted.running, hosted.present, hosted.sends, hosted.bounds⟩

theorem Hosts.step {event : ServerEvent} (h : system.Hosts) (hreliable : event.Reliable)
    (hstep : system.step config event = some next) : next.Hosts := by
  cases step_move hstep with
  | chooses found blockIndices => exact fun hhosting => ⟨_, Hosted.created hhosting⟩
  | loads found | constructs found | starts found | leaves found =>
      exact h.frame fun _ => by rw [found]; trivial
  | givesUp found =>
      exact h.frame fun _ => by rcases found with found | found <;> rw [found] <;> trivial
  | breaksOff found => exact h.frame False.elim
  | @writes announcement found =>
      intro hhosting
      obtain ⟨thread, hthread, hosted⟩ := h (by rw [found]; trivial)
      cases announcement with
      | online =>
          exact ⟨thread, hthread, hosted.running, fun hstate => (by cases hstate), hosted.sends,
            hosted.bounds⟩
      | offline again => cases hhosting
  | @signals announcement thread found known =>
      intro hhosting
      cases announcement with
      | online =>
          obtain ⟨other, hother, hosted⟩ := h (by rw [found]; trivial)
          obtain rfl := Option.some.inj (known.symm.trans hother)
          exact ⟨_, rfl, hosted.running, hosted.present, hosted.sends, hosted.bounds⟩
      | offline again => cases hhosting
  | @joins again thread found known ended =>
      intro hhosting
      cases again <;> cases hhosting
  | announcer known moved =>
      intro hhosting
      obtain ⟨thread, hthread, hosted⟩ := h (moved.frame.1 ▸ hhosting)
      obtain rfl := Option.some.inj (known.symm.trans hthread)
      obtain ⟨later, hlater, -, hosted'⟩ := hosted.announcerMove hreliable moved
      exact ⟨later, hlater, hosted'⟩

theorem hosts_run {serverInfo : ServerInfo} {records : Nat → Option ServerInfo}
    {events : List ServerEvent}
    (h : LeadsTo (step config) (initial serverInfo records) events system)
    (hreliable : ∀ event ∈ events, event.Reliable) : system.Hosts :=
  h.invariant_of (fun _ _ _ hinv hok hstep => hinv.step hok hstep) hreliable
    fun hhosting => by cases hhosting

/-- What is known of the announcer of a server that leaves; the event and the phase of the server's
thread do not matter. -/
structure LeavingInvariant (config : AnnouncerConfig)
    (Outcome : ServerSystem → ModuleAnnouncerThread → Prop) : Prop where
  signal : ∀ system thread phase announcer, Outcome system thread →
    Outcome { system with phase := phase, announcer := announcer } { thread with trigger := true }
  move : ∀ {system next thread event}, system.serverInfo.state = .offline →
    Outcome system thread → ServerEvent.Reliable (.announcer event) →
    AnnouncerMove config system thread event next →
    ∃ later, next.announcer = some later ∧ later.blockIndices = thread.blockIndices ∧
      Outcome next later

/-- A call of `announce` has written OFFLINE and has not returned. -/
structure Leaving (Outcome : ServerSystem → ModuleAnnouncerThread → Prop) (again : Bool)
    (blockIndices : List Nat) (system : ServerSystem) : Prop where
  phase : system.phase = .signalling (.offline again) ∨ system.phase = .joining again
  state : system.serverInfo.state = .offline
  announcer : ∃ thread, system.announcer = some thread ∧ thread.blockIndices = blockIndices ∧
    Outcome system thread

theorem Leaving.step {Outcome : ServerSystem → ModuleAnnouncerThread → Prop} {again : Bool}
    {blockIndices : List Nat} {event : ServerEvent} (hinvariant : LeavingInvariant config Outcome)
    (h : Leaving Outcome again blockIndices system) (hreliable : event.Reliable)
    (hjoin : event ≠ .join) (hstep : system.step config event = some next) :
    Leaving Outcome again blockIndices next := by
  obtain ⟨hphase, hstate, thread, hthread, hblocks, houtcome⟩ := h
  cases step_move hstep with
  | announcer known moved =>
      obtain rfl := Option.some.inj (known.symm.trans hthread)
      obtain ⟨hsame, hsameState, -, -⟩ := moved.frame
      obtain ⟨later, hlater, hlaterBlocks, houtcome'⟩ :=
        hinvariant.move hstate houtcome hreliable moved
      exact ⟨hsame ▸ hphase, hsameState.trans hstate, later, hlater, hlaterBlocks.trans hblocks,
        houtcome'⟩
  | @signals announcement other found known =>
      obtain rfl := Option.some.inj (known.symm.trans hthread)
      rcases hphase with hphase | hphase
      · rw [found] at hphase
        cases hphase
        exact ⟨.inr rfl, hstate, _, rfl, hblocks, hinvariant.signal _ _ _ _ houtcome⟩
      · rw [found] at hphase
        cases hphase
  | joins found => exact absurd rfl hjoin
  | chooses found | loads found | constructs found | starts found | leaves found
  | writes found =>
      rw [found] at hphase
      rcases hphase with hphase | hphase <;> cases hphase
  | givesUp found =>
      rcases hphase with hphase | hphase <;> rcases found with found | found <;>
        rw [hphase] at found <;> cases found
  | breaksOff found =>
      rcases hphase with hphase | hphase <;> rcases found with found | found | found <;>
        rw [hphase] at found <;> cases found

theorem sends_leavingInvariant :
    LeavingInvariant config fun system thread => system.Sends (· = .offline) thread where
  signal _ _ _ _ houtcome := houtcome
  move hstate houtcome hreliable hmove := houtcome.announcerMove hstate hreliable hmove

/-- Where the state is written in the middle of a declaration, the announcer ends with it. -/
theorem misses_leavingInvariant :
    LeavingInvariant config fun system thread =>
      (thread.phase.InDeclaration ∨ thread.phase = .ended) ∧
        system.Sends (· ≠ .offline) thread where
  signal _ _ _ _ houtcome := houtcome
  move {system next thread event} hstate houtcome hreliable hmove := by
    obtain ⟨hphase, hsends⟩ := houtcome
    unfold Sends at hsends
    cases hmove with
    | stores found accepted =>
        rw [found] at hsends
        exact ⟨_, rfl, rfl, .inl trivial, fun blockIdx hmem =>
          ⟨_, declareActiveModules_accepted hreliable.1 hmem, hsends⟩⟩
    | ends found leaving =>
        rw [found] at hsends
        exact ⟨_, rfl, rfl, .inr rfl, hsends⟩
    | goesOn found present => exact absurd hstate present
    | dies => exact absurd rfl hreliable.2
    | measures found | skipsPings found | turnsToPings found | pings found | publishes found
    | wakes found | clears found | sends found =>
        rw [found] at hphase
        rcases hphase with hphase | hphase <;> cases hphase

theorem Leaving.records {P : ServerState → Prop}
    {Outcome : ServerSystem → ModuleAnnouncerThread → Prop} {again : Bool}
    {blockIndices : List Nat} (h : Leaving Outcome again blockIndices system)
    (hsends : ∀ thread, Outcome system thread → system.Sends P thread)
    (hended : ∀ thread ∈ system.announcer, thread.phase = .ended) :
    system.RecordsAre blockIndices P := by
  obtain ⟨-, -, thread, hthread, rfl, houtcome⟩ := h
  have hrecords := hsends thread houtcome
  unfold Sends at hrecords
  rw [hended thread hthread] at hrecords
  exact hrecords

/-- A server that leaves is declared OFFLINE by the time `announce` returns, unless its state is
written while the announcer is between the record that it sends and its check of the state. -/
theorem offline_declared_iff {serverInfo : ServerInfo} {records : Nat → Option ServerInfo}
    {before later : List ServerEvent} {again : Bool} {final : ServerSystem}
    (hbefore : LeadsTo (step config) (initial serverInfo records) before system)
    (hphase : system.phase = .writing (.offline again)) (hthread : system.announcer = some thread)
    (hlater : LeadsTo (step config) system (.write :: later) final)
    (hreliable : ∀ event ∈ before ++ later, event.Reliable) (hjoin : .join ∉ later)
    (hended : ∀ thread ∈ final.announcer, thread.phase = .ended) :
    final.RecordsAre thread.blockIndices (· = .offline) ↔ ¬ thread.phase.InDeclaration := by
  obtain ⟨hreliableBefore, hreliableLater⟩ := List.forall_mem_append.mp hreliable
  obtain ⟨other, hother, hosted⟩ := hosts_run hbefore hreliableBefore (by rw [hphase]; trivial)
  obtain rfl := Option.some.inj (hthread.symm.trans hother)
  obtain ⟨next, hwrite, hrest⟩ := leadsTo_cons.mp hlater
  have hrecords : next.records = system.records := by
    cases step_move hwrite with
    | writes found => rfl
  have hleaves {Outcome : ServerSystem → ModuleAnnouncerThread → Prop}
      (hinvariant : LeavingInvariant config Outcome) (hnext : Outcome next thread) :
      Leaving Outcome again thread.blockIndices final := by
    refine hrest.invariant_of
      (fun _ event _ hinv (hok : event.Reliable ∧ event ≠ .join) hstep =>
        hinv.step hinvariant hok.1 hok.2 hstep)
      (fun event hmem => ⟨hreliableLater event hmem, fun heq => hjoin (heq ▸ hmem)⟩) ?_
    cases step_move hwrite with
    | writes found =>
        rw [hphase] at found
        cases found
        exact ⟨.inl rfl, rfl, thread, hthread, rfl, hnext⟩
  constructor
  · intro hoffline hin
    have hpresent := (hleaves misses_leavingInvariant
      ⟨.inl hin, hosted.sends.of_records hrecords⟩).records (fun _ houtcome => houtcome.2) hended
    obtain ⟨low, high, hbounds, -⟩ := hosted.bounds
    obtain ⟨blockIdx, hmem⟩ := List.exists_mem_of_ne_nil _ (blockIndices_ne_nil hbounds)
    obtain ⟨declared, hdeclared, hstate⟩ := hpresent blockIdx hmem
    obtain ⟨other, hother, hotherState⟩ := hoffline blockIdx hmem
    obtain rfl := Option.some.inj (hdeclared.symm.trans hother)
    exact hstate hotherState
  · intro hapart
    exact (hleaves sends_leavingInvariant (hosted.sends_offline hapart _)).records
      (fun _ houtcome => houtcome) hended

def givesUpEarly : List ServerEvent :=
  [.choose [0, 1], .announcer (.measure 8), .announcer .test, .announcer (.ping .empty),
    .announcer .send, .raise]

def givenUpServer : ServerSystem := (givesUpEarly.foldlM (step fourBlocks) newServer).getD newServer

def lateAnswer : List ServerEvent :=
  [.signal, .announcer (.store fun _ => true), .announcer .check]

def forgottenServer : ServerSystem :=
  ((.write :: lateAnswer).foldlM (step fourBlocks) givenUpServer).getD newServer

theorem lateAnswer_reliable : ∀ event ∈ givesUpEarly ++ lateAnswer, event.Reliable := by
  simp [givesUpEarly, lateAnswer, ServerEvent.Reliable, ServerEvent.Accepted]

theorem joining_left_declared : ¬ forgottenServer.RecordsAre [0, 1] (· = .offline) := by
  have hbefore : LeadsTo (step fourBlocks) newServer givesUpEarly givenUpServer := rfl
  have hlater : LeadsTo (step fourBlocks) givenUpServer (.write :: lateAnswer) forgottenServer := rfl
  intro hoffline
  refine (offline_declared_iff hbefore rfl rfl hlater lateAnswer_reliable ?_ ?_).mp hoffline trivial
  · simp [lateAnswer]
  · rintro thread ⟨⟩
    rfl

end ServerSystem
end Peerz.Server
