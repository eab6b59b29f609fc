import Peerz.DataStructures
import Peerz.Library.Runs

/-! A server over its containers. The server's thread loads the blocks of one container after
another and announces each change of state, and the container's announcer thread declares the
server's record under the uids of its blocks, over and over. Both work on one record. -/
namespace Peerz.Server
open Library

/-- What is the same for all containers of a server. `bytesPerToken` is that of the announcer,
with the key-value groups divided out. -/
structure AnnouncerConfig where
  dhtPrefix : String
  bytesPerToken : Nat
  numBlocks : Nat
  repository : Option String

/-- Where `ModuleAnnouncerThread.run` stands. A declaration under way has the record as it was
when it was sent to the process of the DHT. -/
inductive AnnouncerPhase where
  | measuring
  | testing
  | pinging
  | declaring
  | storing (sent : ServerInfo)
  | checking
  | publishing
  | waiting
  | clearing
  | ended

structure ModuleAnnouncerThread where
  blockIndices : List Nat
  trigger : Bool := false
  phase : AnnouncerPhase := .measuring

/-- A call of `announce`. The server that announces that it is OFFLINE goes on with other blocks
or ends. -/
inductive Announcement where
  | online
  | offline (again : Bool)
deriving DecidableEq

def Announcement.state : Announcement → ServerState
  | .online => .online
  | .offline _ => .offline

/-- Where the server's thread stands: in `Server.run`, in `ModuleContainer.create`, in the
container's `__init__` or in `announce`. -/
inductive ServerPhase where
  | choosing
  | loading
  | constructing
  | starting
  | serving
  | writing (announcement : Announcement)
  | signalling (announcement : Announcement)
  | joining (again : Bool)
  | ended
deriving DecidableEq

/-- `announce` waits for the end of the thread where the state is OFFLINE. -/
def Announcement.next : Announcement → ServerPhase
  | .online => .starting
  | .offline again => .joining again

structure ServerSystem where
  serverInfo : ServerInfo
  phase : ServerPhase
  announcer : Option ModuleAnnouncerThread
  /-- by block index, what the DHT holds of this server -/
  records : Nat → Option ServerInfo
  /-- the entry of the server's model under `_peerz.models` -/
  models : Option (Nat × Option String)

inductive AnnouncerEvent where
  | measure (bytesLeft : Nat)
  | test
  | ping (rtts : Dict String RTT)
  | send
  /-- the answer of the DHT for each block, which nothing reads -/
  | store (accepted : Nat → Bool)
  | check
  | publish
  /-- by the event or by the end of the period -/
  | wake
  | clear
  /-- a call of the DHT raises -/
  | die

inductive ServerEvent where
  | choose (blockIndices : List Nat)
  | load
  | construct
  | start
  /-- out of the inner loop of `Server.run`; the server goes on where its swarm is imbalanced or a
  process of its has crashed -/
  | leave (again : Bool)
  /-- an exception where the server's thread stands -/
  | raise
  | write
  | signal
  | join
  | announcer (event : AnnouncerEvent)

/-- `start_block` and `end_block`; the constructor raises where there are no blocks. -/
def announcedBounds (blockIndices : List Nat) : Option (Nat × Nat) := do
  let low ← blockIndices.min?
  let high ← blockIndices.max?
  pure (low, high + 1)

def declareActiveModules (records : Nat → Option ServerInfo) (blockIndices : List Nat)
    (sent : ServerInfo) (accepted : Nat → Bool) (blockIdx : Nat) : Option ServerInfo :=
  if blockIdx ∈ blockIndices ∧ accepted blockIdx then some sent else records blockIdx

namespace ServerSystem

def initial (serverInfo : ServerInfo) (records : Nat → Option ServerInfo) : ServerSystem where
  serverInfo := serverInfo
  phase := .choosing
  announcer := none
  records := records
  models := none

def announcerStep (config : AnnouncerConfig) (system : ServerSystem)
    (thread : ModuleAnnouncerThread) : AnnouncerEvent → Option ServerSystem
  | .measure bytesLeft =>
      match thread.phase with
      | .measuring =>
          some { system with
            serverInfo :=
              { system.serverInfo with cacheTokensLeft := some (bytesLeft / config.bytesPerToken) }
            announcer := some { thread with phase := .testing } }
      | _ => none
  | .test =>
      match thread.phase with
      | .testing =>
          if system.serverInfo.state = .offline then
            -- no need to ping when the server leaves
            some { system with
              serverInfo := { system.serverInfo with nextPings := none }
              announcer := some { thread with phase := .declaring } }
          else some { system with announcer := some { thread with phase := .pinging } }
      | _ => none
  | .ping rtts =>
      match thread.phase with
      | .pinging =>
          some { system with
            serverInfo := { system.serverInfo with nextPings := some rtts }
            announcer := some { thread with phase := .declaring } }
      | _ => none
  | .send =>
      match thread.phase with
      | .declaring =>
          some { system with announcer := some { thread with phase := .storing system.serverInfo } }
      | _ => none
  | .store accepted =>
      match thread.phase with
      | .storing sent =>
          some { system with
            announcer := some { thread with phase := .checking }
            records := declareActiveModules system.records thread.blockIndices sent accepted }
      | _ => none
  | .check =>
      match thread.phase with
      | .checking =>
          if system.serverInfo.state = .offline then
            some { system with announcer := some { thread with phase := .ended } }
          else some { system with announcer := some { thread with phase := .publishing } }
      | _ => none
  | .publish =>
      match thread.phase with
      | .publishing =>
          some { system with
            announcer := some { thread with phase := .waiting }
            models :=
              -- a private model has a prefix that starts with an underscore
              if "_".isPrefixOf config.dhtPrefix then system.models
              else some (config.numBlocks, config.repository) }
      | _ => none
  | .wake =>
      match thread.phase with
      | .waiting => some { system with announcer := some { thread with phase := .clearing } }
      | _ => none
  | .clear =>
      match thread.phase with
      | .clearing =>
          some { system with announcer := some { thread with trigger := false, phase := .measuring } }
      | _ => none
  | .die =>
      match thread.phase with
      | .pinging | .storing _ | .publishing =>
          some { system with announcer := some { thread with phase := .ended } }
      | _ => none

/-- The state is JOINING before the announcer is there; the constructor writes the bounds. -/
def create (system : ServerSystem) (blockIndices : List Nat) : ServerSystem :=
  match announcedBounds blockIndices with
  | none =>
      { system with serverInfo := { system.serverInfo with state := .joining }, phase := .ended }
  | some (startBlock, endBlock) =>
      { system with
        serverInfo :=
          { system.serverInfo with
            state := .joining, startBlock := some startBlock, endBlock := some endBlock }
        phase := .loading
        announcer := some { blockIndices := blockIndices } }

def step (config : AnnouncerConfig) (system : ServerSystem) : ServerEvent → Option ServerSystem
  | .choose blockIndices =>
      match system.phase with
      | .choosing => some (system.create blockIndices)
      | _ => none
  | .load =>
      match system.phase with
      | .loading => some { system with phase := .constructing }
      | _ => none
  | .construct =>
      match system.phase with
      | .constructing => some { system with phase := .writing .online }
      | _ => none
  | .start =>
      match system.phase with
      | .starting => some { system with phase := .serving }
      | _ => none
  | .leave again =>
      match system.phase with
      | .serving => some { system with phase := .writing (.offline again) }
      | _ => none
  | .raise =>
      match system.phase with
      | .loading | .serving => some { system with phase := .writing (.offline false) }
      -- nothing around the container's `__init__` announces that the server leaves
      | .constructing | .starting | .choosing => some { system with phase := .ended }
      | _ => none
  | .write =>
      match system.phase with
      | .writing announcement =>
          some { system with
            serverInfo := { system.serverInfo with state := announcement.state }
            phase := .signalling announcement }
      | _ => none
  | .signal =>
      match system.phase, system.announcer with
      | .signalling announcement, some thread =>
          some { system with
            phase := announcement.next
            announcer := some { thread with trigger := true } }
      | _, _ => none
  | .join =>
      match system.phase, system.announcer with
      | .joining again, some thread =>
          match thread.phase with
          | .ended => some { system with phase := if again then .choosing else .ended }
          | _ => none
      | _, _ => none
  | .announcer event => system.announcer.bind fun thread => system.announcerStep config thread event

inductive AnnouncerMove (config : AnnouncerConfig) (system : ServerSystem)
    (thread : ModuleAnnouncerThread) : AnnouncerEvent → ServerSystem → Prop
  | measures (found : thread.phase = .measuring) (bytesLeft : Nat) :
      AnnouncerMove config system thread (.measure bytesLeft)
        { system with
          serverInfo :=
            { system.serverInfo with cacheTokensLeft := some (bytesLeft / config.bytesPerToken) }
          announcer := some { thread with phase := .testing } }
  | skipsPings (found : thread.phase = .testing) (leaving : system.serverInfo.state = .offline) :
      AnnouncerMove config system thread .test
        { system with
          serverInfo := { system.serverInfo with nextPings := none }
          announcer := some { thread with phase := .declaring } }
  | turnsToPings (found : thread.phase = .testing) :
      AnnouncerMove config system thread .test
        { system with announcer := some { thread with phase := .pinging } }
  | pings (found : thread.phase = .pinging) (rtts : Dict String RTT) :
      AnnouncerMove config system thread (.ping rtts)
        { system with
          serverInfo := { system.serverInfo with nextPings := some rtts }
          announcer := some { thread with phase := .declaring } }
  | sends (found : thread.phase = .declaring) :
      AnnouncerMove config system thread .send
        { system with announcer := some { thread with phase := .storing system.serverInfo } }
  | stores {sent : ServerInfo} (found : thread.phase = .storing sent) (accepted : Nat → Bool) :
      AnnouncerMove config system thread (.store accepted)
        { system with
          announcer := some { thread with phase := .checking }
          records := declareActiveModules system.records thread.blockIndices sent accepted }
  | ends (found : thread.phase = .checking) (leaving : system.serverInfo.state = .offline) :
      AnnouncerMove config system thread .check
        { system with announcer := some { thread with phase := .ended } }
  | goesOn (found : thread.phase = .checking) (present : system.serverInfo.state ≠ .offline) :
      AnnouncerMove config system thread .check
        { system with announcer := some { thread with phase := .publishing } }
  | publishes (found : thread.phase = .publishing) (models : Option (Nat × Option String)) :
      AnnouncerMove config system thread .publish
        { system with announcer := some { thread with phase := .waiting }, models := models }
  | wakes (found : thread.phase = .waiting) :
      AnnouncerMove config system thread .wake
        { system with announcer := some { thread with phase := .clearing } }
  | clears (found : thread.phase = .clearing) :
      AnnouncerMove config system thread .clear
        { system with announcer := some { thread with trigger := false, phase := .measuring } }
  | dies (running : thread.phase ≠ .ended) : AnnouncerMove config system thread .die
        { system with announcer := some { thread with phase := .ended } }

inductive Move (config : AnnouncerConfig) (system : ServerSystem) : ServerEvent → ServerSystem → Prop
  | chooses (found : system.phase = .choosing) (blockIndices : List Nat) :
      Move config system (.choose blockIndices) (system.create blockIndices)
  | loads (found : system.phase = .loading) :
      Move config system .load { system with phase := .constructing }
  | constructs (found : system.phase = .constructing) :
      Move config system .construct { system with phase := .writing .online }
  | starts (found : system.phase = .starting) :
      Move config system .start { system with phase := .serving }
  | leaves (found : system.phase = .serving) (again : Bool) :
      Move config system (.leave again) { system with phase := .writing (.offline again) }
  | givesUp (found : system.phase = .loading ∨ system.phase = .serving) :
      Move config system .raise { system with phase := .writing (.offline false) }
  | breaksOff (found : system.phase = .constructing ∨ system.phase = .starting ∨
        system.phase = .choosing) :
      Move config system .raise { system with phase := .ended }
  | writes {announcement : Announcement} (found : system.phase = .writing announcement) :
      Move config system .write
        { system with
          serverInfo := { system.serverInfo with state := announcement.state }
          phase := .signalling announcement }
  | signals {announcement : Announcement} {thread : ModuleAnnouncerThread}
      (found : system.phase = .signalling announcement) (known : system.announcer = some thread) :
      Move config system .signal
        { system with
          phase := announcement.next
          announcer := some { thread with trigger := true } }
  | joins {again : Bool} {thread : ModuleAnnouncerThread} (found : system.phase = .joining again)
      (known : system.announcer = some thread) (ended : thread.phase = .ended) :
      Move config system .join
        { system with
          phase := if again then .choosing else .ended
          announcer := some thread }
  | announcer {thread : ModuleAnnouncerThread} {event : AnnouncerEvent} {next : ServerSystem}
      (known : system.announcer = some thread)
      (moved : AnnouncerMove config system thread event next) :
      Move config system (.announcer event) next

variable {config : AnnouncerConfig} {system next : ServerSystem}

theorem announcerStep_move {thread : ModuleAnnouncerThread} {event : AnnouncerEvent}
    (h : system.announcerStep config thread event = some next) :
    AnnouncerMove config system thread event next := by
  cases event with
  | test =>
      cases hphase : thread.phase with
      | testing =>
          simp only [announcerStep, hphase] at h
          split at h
          · rename_i hstate
            cases h
            exact .skipsPings hphase hstate
          · cases h
            exact .turnsToPings hphase
      | _ => simp only [announcerStep, hphase, reduceCtorEq] at h
  | check =>
      cases hphase : thread.phase with
      | checking =>
          simp only [announcerStep, hphase] at h
          split at h
          · rename_i hstate
            cases h
            exact .ends hphase hstate
          · rename_i hstate
            cases h
            exact .goesOn hphase hstate
      | _ => simp only [announcerStep, hphase, reduceCtorEq] at h
  | die =>
      cases hphase : thread.phase with
      | pinging | publishing | storing sent =>
          simp only [announcerStep, hphase] at h
          cases h
          exact .dies (by simp [hphase])
      | _ => simp only [announcerStep, hphase, reduceCtorEq] at h
  | _ =>
      simp only [announcerStep] at h
      split at h
      · -- the one phase that has the step
        rename_i hphase
        cases h
        first
          | exact .measures hphase _
          | exact .pings hphase _
          | exact .sends hphase
          | exact .stores hphase _
          | exact .publishes hphase _
          | exact .wakes hphase
          | exact .clears hphase
      · cases h

theorem AnnouncerMove.running {thread : ModuleAnnouncerThread} {event : AnnouncerEvent}
    (h : AnnouncerMove config system thread event next) : thread.phase ≠ .ended := by
  cases h with
  | dies running => exact running
  | measures found | skipsPings found | turnsToPings found | pings found | sends found
  | stores found | ends found | goesOn found | publishes found | wakes found | clears found =>
      simp [found]

theorem step_move {event : ServerEvent} (h : system.step config event = some next) :
    Move config system event next := by
  cases event with
  | announcer event =>
      obtain ⟨thread, hthread, hmoved⟩ := Option.bind_eq_some_iff.mp h
      exact .announcer hthread (announcerStep_move hmoved)
  | signal =>
      cases hphase : system.phase with
      | signalling announcement =>
          cases hthread : system.announcer with
          | none => simp only [step, hphase, hthread, reduceCtorEq] at h
          | some thread =>
              simp only [step, hphase, hthread] at h
              cases h
              exact .signals hphase hthread
      | _ => simp only [step, hphase, reduceCtorEq] at h
  | join =>
      cases hphase : system.phase with
      | joining again =>
          cases hthread : system.announcer with
          | none => simp only [step, hphase, hthread, reduceCtorEq] at h
          | some thread =>
              cases hended : thread.phase with
              | ended =>
                  simp only [step, hphase, hthread, hended] at h
                  cases h
                  exact .joins hphase hthread hended
              | _ => simp only [step, hphase, hthread, hended, reduceCtorEq] at h
      | _ => simp only [step, hphase, reduceCtorEq] at h
  | raise =>
      cases hphase : system.phase with
      | loading | serving =>
          simp only [step, hphase] at h
          cases h
          exact .givesUp (by simp [hphase])
      | constructing | starting | choosing =>
          simp only [step, hphase] at h
          cases h
          exact .breaksOff (by simp [hphase])
      | _ => simp only [step, hphase, reduceCtorEq] at h
  | _ =>
      simp only [step] at h
      split at h
      · rename_i hphase
        cases h
        first
          | exact .chooses hphase _
          | exact .loads hphase
          | exact .constructs hphase
          | exact .starts hphase
          | exact .leaves hphase _
          | exact .writes hphase
      · cases h

end ServerSystem
end Peerz.Server
