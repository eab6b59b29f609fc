import Peerz.Library.Triggered
import Peerz.Server.Announcer

/-! What the DHT holds of a server while its states follow one another: no announcement is lost,
and the last one is made unless the server leaves in the middle of a declaration. -/
namespace Peerz.Server
open Library

/-- The DHT takes what it is given. -/
def ServerEvent.Accepted : ServerEvent → Prop
  | .announcer (.store accepted) => ∀ blockIdx, accepted blockIdx = true
  | _ => True

/-- How many calls of `announce` have written the state and not yet set the event. -/
def ServerPhase.unsignalled : ServerPhase → Nat
  | .signalling _ => 1
  | _ => 0

@[simp] theorem Announcement.unsignalled_next (announcement : Announcement) :
    announcement.next.unsignalled = 0 := by
  cases announcement <;> rfl

theorem declareActiveModules_accepted {records : Nat → Option ServerInfo} {blockIndices : List Nat}
    {sent : ServerInfo} {accepted : Nat → Bool} (h : ∀ blockIdx, accepted blockIdx = true)
    {blockIdx : Nat} (hmem : blockIdx ∈ blockIndices) :
    declareActiveModules records blockIndices sent accepted blockIdx = some sent :=
  if_pos ⟨hmem, h blockIdx⟩

namespace ServerSystem

variable {config : AnnouncerConfig} {system next : ServerSystem}

/-- The records of the thread's blocks are the server's as it is now, but with this state. -/
def Declared (system : ServerSystem) (thread : ModuleAnnouncerThread) (state : ServerState) : Prop :=
  ∀ blockIdx ∈ thread.blockIndices,
    system.records blockIdx = some { system.serverInfo with state := state }

/-- A round of the announcer is about the state in the record that it sends. -/
def Stands (system : ServerSystem) (thread : ModuleAnnouncerThread) (round : Round ServerState) :
    Prop :=
  match thread.phase with
  | .measuring | .testing | .pinging | .declaring => round = .looking
  | .storing sent =>
      ∃ seen, round = .acting seen ∧ sent = { system.serverInfo with state := seen }
  | .checking | .publishing => ∃ seen, round = .acting seen ∧ system.Declared thread seen
  | .waiting => ∃ seen, round = .resting seen ∧ system.Declared thread seen
  | .clearing => ∃ seen, round = .woken seen ∧ system.Declared thread seen
  | .ended => True

/-- The announcer and the calls of `announce` refine a thread that works in rounds. -/
structure Refines (system : ServerSystem) (thread : ModuleAnnouncerThread)
    (abstract : Triggered ServerState) : Prop where
  value : abstract.value = system.serverInfo.state
  trigger : abstract.trigger = thread.trigger
  unsignalled : abstract.unsignalled = system.phase.unsignalled
  round : system.Stands thread abstract.round

/-- Each container has an announcer of its own, and it starts when the one before it has ended. -/
structure Announces (system : ServerSystem) : Prop where
  between : system.phase = .choosing → ∀ thread ∈ system.announcer, thread.phase = .ended
  rounds : ∀ thread ∈ system.announcer, thread.phase ≠ .ended →
    ∃ abstract : Triggered ServerState, abstract.Reachable ∧ system.Refines thread abstract

theorem Refines.announcerMove {thread : ModuleAnnouncerThread} {event : AnnouncerEvent}
    {abstract : Triggered ServerState} (h : system.Refines thread abstract)
    (haccepted : ServerEvent.Accepted (.announcer event))
    (hmove : AnnouncerMove config system thread event next) :
    next.phase = system.phase ∧ ∃ later, next.announcer = some later ∧
      (later.phase ≠ .ended → ∃ abstract' : Triggered ServerState, next.Refines later abstract' ∧
        (abstract' = abstract ∨ abstract.Step abstract')) := by
  obtain ⟨hvalue, htrigger, hunsignalled, hround⟩ := h
  unfold Stands at hround
  cases hmove with
  | measures found bytesLeft | skipsPings found leaving | turnsToPings found | pings found =>
      rw [found] at hround
      exact ⟨rfl, _, rfl, fun _ => ⟨abstract, ⟨hvalue, htrigger, hunsignalled, hround⟩, .inl rfl⟩⟩
  | sends found =>
      rw [found] at hround
      refine ⟨rfl, _, rfl, fun _ => ⟨{ abstract with round := .acting abstract.value },
        ⟨hvalue, htrigger, hunsignalled, ?_⟩, .inr (.look hround)⟩⟩
      exact ⟨abstract.value, rfl, by rw [hvalue]⟩
  | stores found accepted =>
      rw [found] at hround
      obtain ⟨seen, hacting, rfl⟩ := hround
      refine ⟨rfl, _, rfl, fun _ =>
        ⟨abstract, ⟨hvalue, htrigger, hunsignalled, seen, hacting, ?_⟩, .inl rfl⟩⟩
      exact fun blockIdx hmem => declareActiveModules_accepted haccepted hmem
  | goesOn found present =>
      rw [found] at hround
      exact ⟨rfl, _, rfl, fun _ => ⟨abstract, ⟨hvalue, htrigger, hunsignalled, hround⟩, .inl rfl⟩⟩
  | publishes found models =>
      rw [found] at hround
      obtain ⟨seen, hacting, hdeclared⟩ := hround
      exact ⟨rfl, _, rfl, fun _ => ⟨{ abstract with round := .resting seen },
        ⟨hvalue, htrigger, hunsignalled, seen, rfl, hdeclared⟩, .inr (.rest hacting)⟩⟩
  | wakes found =>
      rw [found] at hround
      obtain ⟨seen, hresting, hdeclared⟩ := hround
      exact ⟨rfl, _, rfl, fun _ => ⟨{ abstract with round := .woken seen },
        ⟨hvalue, htrigger, hunsignalled, seen, rfl, hdeclared⟩, .inr (.wake hresting)⟩⟩
  | clears found =>
      rw [found] at hround
      obtain ⟨seen, hwoken, -⟩ := hround
      exact ⟨rfl, _, rfl, fun _ => ⟨{ abstract with round := .looking, trigger := false },
        ⟨hvalue, rfl, hunsignalled, rfl⟩, .inr (.clear hwoken)⟩⟩
  | ends found leaving | dies => exact ⟨rfl, _, rfl, fun hphase => absurd rfl hphase⟩

theorem Announces.frame (h : system.Announces) {phase : ServerPhase} (hphase : phase ≠ .choosing)
    (hunsignalled : phase.unsignalled = system.phase.unsignalled) :
    Announces { system with phase := phase } where
  between hchoosing := absurd hchoosing hphase
  rounds thread hthread hrunning := by
    obtain ⟨abstract, hreachable, hrefines⟩ := h.rounds thread hthread hrunning
    exact ⟨abstract, hreachable, hrefines.value, hrefines.trigger,
      hrefines.unsignalled.trans hunsignalled.symm, hrefines.round⟩

theorem Announces.create (h : system.Announces) (hphase : system.phase = .choosing)
    (blockIndices : List Nat) : (system.create blockIndices).Announces := by
  unfold ServerSystem.create
  cases announcedBounds blockIndices with
  | none =>
      refine ⟨fun hchoosing => (by cases hchoosing), fun thread hthread hrunning => ?_⟩
      exact absurd (h.between hphase thread hthread) hrunning
  | some bounds =>
      refine ⟨fun hchoosing => (by cases hchoosing), fun thread hthread _ => ?_⟩
      obtain rfl := Option.some.inj hthread
      exact ⟨_, .start .joining, rfl, rfl, rfl, rfl⟩

theorem Announces.step {event : ServerEvent} (h : system.Announces) (haccepted : event.Accepted)
    (hstep : system.step config event = some next) : next.Announces := by
  cases step_move hstep with
  | chooses found blockIndices => exact h.create found blockIndices
  | loads found | constructs found | starts found | leaves found =>
      exact h.frame (fun hphase => by cases hphase) (by rw [found]; rfl)
  | givesUp found =>
      exact h.frame (fun hphase => by cases hphase)
        (by rcases found with found | found <;> rw [found] <;> rfl)
  | breaksOff found =>
      exact h.frame (fun hphase => by cases hphase)
        (by rcases found with found | found | found <;> rw [found] <;> rfl)
  | writes found =>
      refine ⟨fun hphase => (by cases hphase), fun thread hthread hrunning => ?_⟩
      obtain ⟨abstract, hreachable, hvalue, htrigger, hunsignalled, hround⟩ :=
        h.rounds thread hthread hrunning
      rw [found] at hunsignalled
      exact ⟨_, hreachable.step (.write _), rfl, htrigger, congrArg (· + 1) hunsignalled, hround⟩
  | @signals announcement thread found known =>
      refine ⟨fun hphase => (by cases announcement <;> cases hphase), fun other hother hrunning => ?_⟩
      obtain rfl := Option.some.inj hother
      obtain ⟨abstract, hreachable, hvalue, htrigger, hunsignalled, hround⟩ :=
        h.rounds thread known hrunning
      rw [found] at hunsignalled
      exact ⟨_, hreachable.step (.signal hunsignalled), hvalue, rfl,
        (Announcement.unsignalled_next announcement).symm, hround⟩
  | joins found known ended =>
      refine ⟨fun _ other hother => ?_, fun other hother hrunning => ?_⟩
      · obtain rfl := Option.some.inj hother
        exact ended
      · obtain rfl := Option.some.inj hother
        exact absurd ended hrunning
  | @announcer thread event next known moved =>
      by_cases hrunning : thread.phase = .ended
      · exact absurd hrunning moved.running
      · obtain ⟨abstract, hreachable, hrefines⟩ := h.rounds thread known hrunning
        obtain ⟨hphase, later, hlater, hrounds⟩ := hrefines.announcerMove haccepted moved
        refine ⟨fun hchoosing => ?_, fun other hother hother' => ?_⟩
        · exact absurd (h.between (hphase ▸ hchoosing) thread known) hrunning
        · obtain rfl := Option.some.inj (hlater.symm.trans hother)
          obtain ⟨abstract', hrefines', rfl | htaken⟩ := hrounds hother'
          · exact ⟨_, hreachable, hrefines'⟩
          · exact ⟨abstract', hreachable.step htaken, hrefines'⟩

theorem Announces.initial (serverInfo : ServerInfo) (records : Nat → Option ServerInfo) :
    (initial serverInfo records).Announces where
  between _ thread hthread := by cases hthread
  rounds thread hthread := by cases hthread

theorem announces_run {serverInfo : ServerInfo} {records : Nat → Option ServerInfo}
    {events : List ServerEvent}
    (h : LeadsTo (step config) (initial serverInfo records) events system)
    (haccepted : ∀ event ∈ events, event.Accepted) : system.Announces :=
  h.invariant_of (fun _ _ _ hinv hok hstep => hinv.step hok hstep) haccepted
    (Announces.initial serverInfo records)

/-- No announcement is lost: when the announcer rests and nobody is about to wake it, the DHT holds
the server's record as it is, with its present state, for each of the container's blocks. -/
theorem records_present {serverInfo : ServerInfo} {records : Nat → Option ServerInfo}
    {events : List ServerEvent} {thread : ModuleAnnouncerThread}
    (h : LeadsTo (step config) (initial serverInfo records) events system)
    (haccepted : ∀ event ∈ events, event.Accepted) (hthread : system.announcer = some thread)
    (hwaiting : thread.phase = .waiting) (htrigger : thread.trigger = false)
    (hphase : system.phase.unsignalled = 0) :
    ∀ blockIdx ∈ thread.blockIndices, system.records blockIdx = some system.serverInfo := by
  obtain ⟨abstract, hreachable, hvalue, habstract, hunsignalled, hround⟩ :=
    (announces_run h haccepted).rounds thread hthread (fun hended => by
      rw [hwaiting] at hended
      cases hended)
  unfold Stands at hround
  rw [hwaiting] at hround
  obtain ⟨seen, hresting, hdeclared⟩ := hround
  have hseen : abstract.round.seen = some seen := by rw [hresting]; rfl
  have hpresent := hreachable.seen_eq hseen (habstract.trans htrigger) (hunsignalled.trans hphase)
  intro blockIdx hmem
  rw [hdeclared blockIdx hmem, hpresent, hvalue]

def fourBlocks : AnnouncerConfig := ⟨"bloom", 4, 4, none⟩

def newServer : ServerSystem :=
  initial ⟨.offline, 1, none, none, none, [], none, none⟩ fun _ => none

def firstRound : List ServerEvent :=
  [.measure 8, .test, .ping .empty, .send, .store fun _ => true, .check, .publish].map .announcer

def joinsServer : List ServerEvent := .choose [0, 1] :: firstRound

def comesOnline : List ServerEvent :=
  joinsServer ++ [.load, .construct, .write, .signal, .announcer .wake, .announcer .clear] ++
    firstRound

theorem comesOnline_accepted : ∀ event ∈ comesOnline, event.Accepted := by
  simp [comesOnline, joinsServer, firstRound, ServerEvent.Accepted]

def onlineServer : ServerSystem := (comesOnline.foldlM (step fourBlocks) newServer).getD newServer

theorem comesOnline_leads : LeadsTo (step fourBlocks) newServer comesOnline onlineServer := rfl

theorem records_online : onlineServer.serverInfo.state = .online ∧
    onlineServer.records 1 = some onlineServer.serverInfo :=
  ⟨rfl, records_present comesOnline_leads comesOnline_accepted rfl rfl rfl rfl 1 (by decide)⟩

end ServerSystem
end Peerz.Server
