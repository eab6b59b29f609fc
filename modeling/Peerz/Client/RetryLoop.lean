import Peerz.Client.SessionPushes

/-! The retry loop of a step call: what holds of the chain of server sessions before and
after each attempt. -/
namespace Peerz.Client
open Library Server

variable {PeerID Token Cache : Type} [Add Token] {model : BlockModel Token Cache}

/-- Whatever route the attempt finds covers the range it was asked for. -/
def Attempt.Contiguous (model : BlockModel Token Cache) (attempt : Attempt PeerID) : Prop :=
  ∀ (first last : Int) (spans : List (RemoteSpanInfo PeerID)),
    0 ≤ first → first < last → last ≤ model.numBlocks →
    attempt.makeSequence first last = some spans → Covers spans first last

omit [Add Token] in
theorem Attempt.Contiguous.reaches {attempt : Attempt PeerID} (h : attempt.Contiguous model) :
    attempt.Reaches True model := by
  intro first last spans hfirst hle hlt hlast hspans
  obtain ⟨front, final, rfl, htiles, hbefore, hreach⟩ :=
    h first last spans hfirst (hlt trivial) hlast hspans
  refine ⟨front, final, rfl, tiles_concat.mpr ⟨htiles, by omega, rfl⟩, fun span hmem => ?_, hreach,
    fun _ => hbefore⟩
  have := (htiles.mem_bounds hmem).2.2
  omega

def SpansTile (first : Int) (sessions : List (ServerInferenceSession PeerID Token Cache))
    (last : Int) : Prop :=
  Tiles RemoteSpanInfo.start RemoteSpanInfo.stop first
    (sessions.map ServerInferenceSession.span) last

namespace InferenceSession

structure CallAt (model : BlockModel Token Cache) (ideal : Ideal Token Cache)
    (call : StepCall Token) (maxLength position : Nat) : Prop where
  entered : ∀ block, (ideal.entered block).length = position
  zero : position = 0 → ideal = .new model
  prompted : Prompted model call
  fits : position + call.inputs.length ≤ maxLength

section invariant
variable (model : BlockModel Token Cache) (ideal : Ideal Token Cache) (call : StepCall Token)
  (maxLength position : Nat) (strict : Prop) (stepId : Nat)

/-- The history of a failed session at position 0 is what its replacement starts from. -/
def Retriable (session : ServerInferenceSession PeerID Token Cache) : Prop :=
  session.history.getD [] = [] ∨
    session.history.getD [] = ideal.hidden model call session.span.start.toNat

/-- The client has not come to the session, although a push may have. -/
structure Waiting (session : ServerInferenceSession PeerID Token Cache) : Prop where
  counted : session.Counted model position
  history : session.history.getD [] = ideal.entered session.span.start.toNat
  pending : session.Pending model ideal maxLength position strict call stepId

/-- The session has taken the step, and its server has processed it if it has tokens. -/
structure Served (session : ServerInferenceSession PeerID Token Cache) : Prop where
  good : session.Good model (ideal.step model call) maxLength (position + call.inputs.length) strict
  processed : stepId ∈ session.processedStepIds ∨ ¬ strict ∧ call.inputs = []

structure Joined (session : InferenceSession PeerID Token Cache) : Prop where
  chained : Chained True model session
  nextStepId : session.nextStepId = stepId + 1
  sound : ∀ serverSession ∈ session.serverSessions, serverSession.Within model ∧
    serverSession.Sound model ideal maxLength position stepId
  pushes : ∀ push ∈ session.pushes, session.Underway model ideal strict call stepId push

/-- The sessions before the current server have taken the step, those after it have not. -/
structure Split (session : InferenceSession PeerID Token Cache) (blockIdx : Int)
    (done tail : List (ServerInferenceSession PeerID Token Cache)) : Prop where
  joined : Joined model ideal call maxLength position strict stepId session
  sessions : session.serverSessions = done ++ tail
  limit : session.maxLength = maxLength
  counted : session.position = position
  nonneg : 0 ≤ blockIdx
  served : ∀ session ∈ done, Served model ideal call maxLength position strict stepId session
  tiles : SpansTile 0 done blockIdx

/-- Before an attempt. A server that has failed is one to be replaced. -/
structure LoopInv (loop : Loop PeerID Token Cache)
    (done tail : List (ServerInferenceSession PeerID Token Cache)) : Prop where
  split : Split model ideal call maxLength position strict loop.stepId loop.session loop.blockIdx
    done tail
  serverIdx : loop.serverIdx = done.length
  inputs : loop.inputs = ideal.hidden model call loop.blockIdx.toNat
  ahead : (done = [] ∧ tail = [] ∧ position = 0 ∧ loop.blockIdx = 0) ∨
    SpansTile loop.blockIdx tail model.numBlocks
  current : ∀ current rest, tail = current :: rest →
    (∀ session ∈ rest, Waiting model ideal call maxLength position strict loop.stepId session) ∧
      (loop.attemptNo = 0 ∧
          Waiting model ideal call maxLength position strict loop.stepId current ∨
        1 ≤ loop.attemptNo ∧ position = 0 ∧ Retriable model ideal call current)

structure Prepared (session : InferenceSession PeerID Token Cache) (blockIdx : Int)
    (done : List (ServerInferenceSession PeerID Token Cache))
    (current : ServerInferenceSession PeerID Token Cache)
    (rest : List (ServerInferenceSession PeerID Token Cache)) : Prop where
  split : Split model ideal call maxLength position strict stepId session blockIdx done
    (current :: rest)
  tiles : SpansTile blockIdx (current :: rest) model.numBlocks
  waiting : ∀ session ∈ rest, Waiting model ideal call maxLength position strict stepId session
  counted : current.Counted model position
  extended : current.extendHistory (ideal.hidden model call current.span.start.toNat) =
    ideal.entered current.span.start.toNat ++ ideal.hidden model call current.span.start.toNat
  pending : current.Pending model ideal maxLength position strict call stepId

end invariant

section attempts
variable {ideal : Ideal Token Cache} {call : StepCall Token} {maxLength position stepId : Nat}
  {strict : Prop} {loop : Loop PeerID Token Cache}
  {done tail : List (ServerInferenceSession PeerID Token Cache)} {attempt : Attempt PeerID}

theorem LoopInv.blockIdx_le
    (h : LoopInv model ideal call maxLength position strict loop done tail) :
    loop.blockIdx ≤ model.numBlocks := by
  rcases h.ahead with ⟨-, -, -, hzero⟩ | htiles
  · omega
  · exact htiles.le

theorem LoopInv.position_eq_zero
    (h : LoopInv model ideal call maxLength position strict loop done tail)
    (hmore : loop.blockIdx < model.numBlocks) (hneed : loop.Updates) : position = 0 := by
  rcases h.ahead with ⟨-, -, hzero, -⟩ | htiles
  · exact hzero
  · cases tail with
    | nil =>
        have hend : loop.blockIdx = model.numBlocks := htiles
        omega
    | cons current rest =>
        rcases (h.current current rest rfl).2 with ⟨hfirst, -⟩ | ⟨-, hzero, -⟩
        · rcases hneed with hnil | hretry
          · simp [h.split.sessions] at hnil
          · omega
        · exact hzero

theorem LoopInv.retriable
    (h : LoopInv model ideal call maxLength position strict loop done tail) (hneed : loop.Updates)
    {current : ServerInferenceSession PeerID Token Cache}
    {rest : List (ServerInferenceSession PeerID Token Cache)} (htail : tail = current :: rest) :
    Retriable model ideal call current := by
  rcases (h.current current rest htail).2 with ⟨hfirst, -⟩ | ⟨-, -, hretriable⟩
  · rcases hneed with hnil | hretry
    · simp [h.split.sessions, htail] at hnil
    · omega
  · exact hretriable

/-! A server takes a push. -/

section taking
variable {session next : ServerInferenceSession PeerID Token Cache}
  (h : session.Handled model ideal maxLength position strict call stepId next)
include h

theorem Waiting.handled
    (hwaiting : Waiting model ideal call maxLength position strict stepId session) :
    Waiting model ideal call maxLength position strict stepId next := by
  have hspan : next.span = session.span := congrArg ClientEnd.span h.clientEnd
  have hhistory : next.history = session.history := congrArg ClientEnd.history h.clientEnd
  exact ⟨hwaiting.counted.congr h.clientEnd, by rw [hspan, hhistory, hwaiting.history],
    h.pending hwaiting.pending⟩

theorem Served.handled
    (hserved : Served model ideal call maxLength position strict stepId session) :
    Served model ideal call maxLength position strict stepId next := by
  have hspan : next.span = session.span := congrArg ClientEnd.span h.clientEnd
  have hhistory : next.history = session.history := congrArg ClientEnd.history h.clientEnd
  refine ⟨⟨hserved.good.counted.congr h.clientEnd, by rw [hspan, hhistory, hserved.good.history],
    h.stands ?_ hserved.good.stands⟩, hserved.processed.imp_left h.processed⟩
  refine hserved.processed.imp_right fun hlast => ⟨hlast.1, hlast.2, ?_, ?_⟩
  · exact Ideal.step_eq_self hlast.2
  · simp [hlast.2]

omit h in
theorem Retriable.congr (hretriable : Retriable model ideal call session)
    (hclient : next.clientEnd = session.clientEnd) : Retriable model ideal call next := by
  have hspan : next.span = session.span := congrArg ClientEnd.span hclient
  have hhistory : next.history = session.history := congrArg ClientEnd.history hclient
  unfold Retriable
  rwa [hspan, hhistory]

end taking

theorem Joined.takePush {session : InferenceSession PeerID Token Cache}
    (hcall : CallAt model ideal call maxLength position)
    (h : Joined model ideal call maxLength position strict stepId session) {i : Nat}
    (hfits : ∀ push, session.pushes[i]? = some push → session.Fits strict call push) :
    Joined model ideal call maxLength position strict stepId (session.takePush i) ∧
      ∃ next, (session.takePush i).serverSessions = session.serverSessions.map next ∧
        ∀ serverSession ∈ session.serverSessions,
          serverSession.Handled model ideal maxLength position strict call stepId
            (next serverSession) := by
  obtain ⟨⟨next, hsessions, hhandled⟩, hpushes⟩ := takePush_underway hcall.prompted hcall.fits i
    h.sound h.pushes hfits
  have hchained : Chained True model (session.takePush i) := h.chained.taken [i]
  obtain ⟨serverSessions, pushes, hframe⟩ := session.takePush_frame i
  refine ⟨⟨hchained, ?_, ?_, hpushes⟩, next, hsessions, hhandled⟩
  · rw [hframe]
    exact h.nextStepId
  · rw [hsessions]
    refine List.forall_mem_map.mpr fun session hsession => ?_
    obtain ⟨hwithin, hsound⟩ := h.sound session hsession
    exact ⟨hwithin.congr (hhandled session hsession).clientEnd,
      (hhandled session hsession).sound hsound⟩

theorem LoopInv.takePush (hcall : CallAt model ideal call maxLength position)
    (h : LoopInv model ideal call maxLength position strict loop done tail) {i : Nat}
    (hfits : ∀ push, loop.session.pushes[i]? = some push →
      loop.session.Fits strict call push) :
    ∃ done' tail', done'.length = done.length ∧ tail'.length = tail.length ∧
      LoopInv model ideal call maxLength position strict
        { loop with session := loop.session.takePush i } done' tail' := by
  obtain ⟨hjoined, next, hsessions, hhandled⟩ := h.split.joined.takePush hcall hfits
  obtain ⟨serverSessions, pushes, hframe⟩ := loop.session.takePush_frame i
  have hspans : ∀ sessions : List (ServerInferenceSession PeerID Token Cache),
      (∀ session ∈ sessions, session ∈ loop.session.serverSessions) →
      (sessions.map next).map ServerInferenceSession.span =
        sessions.map ServerInferenceSession.span := by
    intro sessions hmem
    rw [List.map_map]
    exact List.map_congr_left fun session hsession =>
      congrArg ClientEnd.span (hhandled session (hmem session hsession)).clientEnd
  have hmem : ∀ session, session ∈ done ∨ session ∈ tail →
      session ∈ loop.session.serverSessions := by
    intro session hsession
    rw [h.split.sessions]
    exact List.mem_append.mpr hsession
  refine ⟨done.map next, tail.map next, List.length_map _, List.length_map _,
    ⟨hjoined, ?_, ?_, ?_, h.split.nonneg, ?_, ?_⟩, ?_, h.inputs, ?_, ?_⟩
  · dsimp only
    rw [hsessions, h.split.sessions, List.map_append]
  · rw [hframe]
    exact h.split.limit
  · rw [hframe]
    exact h.split.counted
  · refine List.forall_mem_map.mpr fun session hsession => ?_
    exact (h.split.served session hsession).handled (hhandled session (hmem _ (.inl hsession)))
  · unfold SpansTile
    rw [hspans done fun session hsession => hmem session (.inl hsession)]
    exact h.split.tiles
  · rw [List.length_map]
    exact h.serverIdx
  · refine h.ahead.imp (fun hempty => ?_) fun htiles => ?_
    · rw [hempty.1, hempty.2.1]
      exact ⟨rfl, rfl, hempty.2.2⟩
    · unfold SpansTile
      rwa [hspans tail fun session hsession => hmem session (.inr hsession)]
  · intro current rest htail
    cases tail with
    | nil => cases htail
    | cons first others =>
        cases htail
        obtain ⟨hrest, hfirst⟩ := h.current first others rfl
        have hcurrent := hhandled first (hmem first (.inr List.mem_cons_self))
        refine ⟨List.forall_mem_map.mpr fun session hsession => ?_, ?_⟩
        · exact (hrest session hsession).handled
            (hhandled session (hmem session (.inr (List.mem_cons_of_mem _ hsession))))
        · exact hfirst.imp (fun hfresh => ⟨hfresh.1, hfresh.2.handled hcurrent⟩)
            fun hfailed => ⟨hfailed.1, hfailed.2.1, hfailed.2.2.congr hcurrent.clientEnd⟩

/-! A failed session is closed, and replaced where there is a route. -/

section replacing
variable {session : InferenceSession PeerID Token Cache}

omit [Add Token] in
theorem grows_closeHead (hsessions : session.serverSessions = done ++ tail) (closeOk : Bool) :
    session.Grows (closeHead session done tail closeOk) := by
  refine ⟨le_rfl, fun later hmem => .inr ?_⟩
  obtain ⟨earlier, hearlier, rfl | ⟨-, rfl⟩⟩ := mem_closeHead hsessions hmem
  · exact ⟨later, hearlier, rfl, rfl, fun _ hprocessed => hprocessed⟩
  · obtain ⟨closed, serving, alive, hclose⟩ := close_frame earlier closeOk
    rw [hclose]
    exact ⟨earlier, hearlier, rfl, rfl, fun _ hprocessed => hprocessed⟩

omit [Add Token] in
theorem replacements_fresh {closeOk : Bool} {spans : List (RemoteSpanInfo PeerID)}
    {opened : ServerInferenceSession PeerID Token Cache}
    (hmem : opened ∈ replacements session tail model closeOk spans) :
    session.nextSessionId ≤ opened.sessionId := by
  have hid : opened.sessionId ∈ (replacements session tail model closeOk spans).map
      ServerInferenceSession.sessionId := List.mem_map_of_mem hmem
  rw [replacements_id] at hid
  exact (List.mem_range'_1.mp hid).1

omit [Add Token] in
theorem grows_installed (hsessions : session.serverSessions = done ++ tail) (closeOk : Bool)
    (spans : List (RemoteSpanInfo PeerID)) :
    session.Grows (installed session done tail model closeOk spans) := by
  refine ⟨Nat.le_add_right _ _, fun later hmem => ?_⟩
  obtain ⟨earlier, nextSession, rfl, hold | hnew⟩ := mem_installed hsessions hmem
  · exact .inr ⟨earlier, hold, rfl, rfl, fun _ hprocessed => hprocessed⟩
  · have hfresh := replacements_fresh hnew
    exact .inl hfresh

omit [Add Token] in
theorem sound_congr {earlier later : ServerInferenceSession PeerID Token Cache}
    (h : earlier.Within model ∧ earlier.Sound model ideal maxLength position stepId)
    (hspan : later.span = earlier.span)
    (hprocessed : later.processedStepIds = earlier.processedStepIds)
    (hserver : later.server = earlier.server) :
    later.Within model ∧ later.Sound model ideal maxLength position stepId := by
  obtain ⟨hwithin, hsound⟩ := h
  refine ⟨⟨hspan ▸ hwithin.nonneg, hspan ▸ hwithin.lt, hspan ▸ hwithin.le⟩,
    hprocessed ▸ hsound.bounded, fun hnew => ?_⟩
  have hlevel := hsound.level (hprocessed ▸ hnew)
  unfold ServerInferenceSession.Level at hlevel ⊢
  rwa [hspan, hserver]

theorem Joined.closeHead (h : Joined model ideal call maxLength position strict stepId session)
    (hsessions : session.serverSessions = done ++ tail) (closeOk : Bool) :
    Joined model ideal call maxLength position strict stepId
      (InferenceSession.closeHead session done tail closeOk) := by
  refine ⟨h.chained.congr ?_ rfl, h.nextStepId, fun later hmem => ?_, fun push hpush =>
    (h.pushes push hpush).grows (grows_closeHead hsessions closeOk)⟩
  · rw [closeHead_places, hsessions]
  · obtain ⟨earlier, hearlier, rfl | ⟨-, rfl⟩⟩ := mem_closeHead hsessions hmem
    · exact h.sound later hearlier
    · obtain ⟨closed, serving, alive, hclose⟩ := close_frame earlier closeOk
      rw [hclose]
      exact sound_congr (h.sound earlier hearlier) rfl rfl rfl

omit [Add Token] in
theorem new_good {span : RemoteSpanInfo PeerID} (hstart : 0 ≤ span.start)
    (hlt : span.start < span.stop) (hstop : span.stop ≤ model.numBlocks)
    (maxLength sessionId : Nat) :
    (ServerInferenceSession.new model maxLength sessionId span).Good model (.new model) maxLength 0
      strict := by
  have hfollows : Follows model (.new model) maxLength 0 span.start.toNat span.stop.toNat
      (.new ((pySlice (List.range model.numBlocks) span.start.toNat span.stop.toNat).map
        model.block) maxLength) := follows_new (by omega) (by omega)
  rw [Int.toNat_of_nonneg hstart, Int.toNat_of_nonneg (by omega)] at hfollows
  exact ⟨⟨⟨hstart, hlt, hstop⟩, rfl, nofun, nofun⟩, rfl, ⟨hfollows, .nil, fun _ => ⟨rfl, rfl, rfl⟩⟩⟩

omit [Add Token] in
theorem enterServerSessions_good {spans : List (RemoteSpanInfo PeerID)} {first last : Int}
    (hfirst : 0 ≤ first) (hlast : last ≤ model.numBlocks)
    (htiles : Tiles RemoteSpanInfo.start RemoteSpanInfo.stop first spans last) :
    ∀ opened ∈ session.enterServerSessions model spans,
      opened.Good model (.new model) session.maxLength 0 strict ∧ opened.processedStepIds = [] := by
  intro opened hmem
  obtain ⟨⟨span, offset⟩, hspan, rfl⟩ := List.mem_map.mp hmem
  obtain ⟨hlow, hlt, hhigh⟩ := htiles.mem_bounds (List.fst_mem_of_mem_zipIdx hspan)
  exact ⟨new_good (by omega) hlt (by omega) _ _, rfl⟩

omit [Add Token] in
theorem replacements_eq (closeOk : Bool) {spans : List (RemoteSpanInfo PeerID)}
    {head : ServerInferenceSession PeerID Token Cache}
    {others : List (ServerInferenceSession PeerID Token Cache)}
    (hopened : session.enterServerSessions model spans = head :: others) :
    replacements session tail model closeOk spans =
      { head with history := match tail with
          | [] => head.history
          | failed :: _ => failed.history } :: others := by
  unfold replacements
  rw [hopened]
  cases tail with
  | nil => rfl
  | cons failed rest =>
      obtain ⟨closed, serving, alive, hclose⟩ := close_frame failed closeOk
      simp only [hclose, List.modifyHead_cons]

omit [Add Token] in
/-- A history that the step has extended before, or nothing, is extended to the inputs. -/
theorem extendHistory_retry {session : ServerInferenceSession PeerID Token Cache}
    {inputs : List Token} (hposition : session.position = 0)
    (hhistory : session.history.getD [] = [] ∨ session.history.getD [] = inputs) :
    session.extendHistory inputs = inputs := by
  unfold ServerInferenceSession.extendHistory
  cases hsome : session.history with
  | none => rfl
  | some history =>
      rw [hsome, Option.getD_some] at hhistory
      dsimp only
      rcases hhistory with rfl | rfl
      · rw [if_pos (by simp [hposition])]
        rfl
      · split
        · rename_i hlength
          rw [hposition, List.length_eq_zero_iff] at hlength
          rw [hlength]
          rfl
        · rfl

omit [Add Token] in
theorem history_of_extend {session : ServerInferenceSession PeerID Token Cache}
    {inputs : List Token} (hposition : session.position = 0)
    (hextend : session.extendHistory inputs = inputs) :
    session.history.getD [] = [] ∨ session.history.getD [] = inputs := by
  unfold ServerInferenceSession.extendHistory at hextend
  cases hsome : session.history with
  | none => exact .inl rfl
  | some history =>
      rw [hsome] at hextend
      dsimp only at hextend
      rw [Option.getD_some]
      split at hextend
      · rename_i hlength
        exact .inl (List.length_eq_zero_iff.mp (hlength.trans hposition))
      · exact .inr hextend

theorem Joined.installed {closeOk : Bool} {spans : List (RemoteSpanInfo PeerID)}
    (h : Joined model (.new model) call maxLength 0 strict stepId session)
    (hsessions : session.serverSessions = done ++ tail)
    (hchained : Chained True model (installed session done tail model closeOk spans))
    (hgood : ∀ opened ∈ session.enterServerSessions model spans,
      opened.Good model (.new model) maxLength 0 strict ∧ opened.processedStepIds = []) :
    Joined model (.new model) call maxLength 0 strict stepId
      (InferenceSession.installed session done tail model closeOk spans) := by
  refine ⟨hchained, h.nextStepId, fun later hmem => ?_, fun push hpush =>
    (h.pushes push hpush).grows (grows_installed hsessions closeOk _)⟩
  obtain ⟨earlier, nextSession, rfl, hold | hnew⟩ := mem_installed hsessions hmem
  · exact sound_congr (h.sound earlier hold) rfl rfl rfl
  · obtain ⟨opened, hopened, history, rfl⟩ := mem_replacements hnew
    obtain ⟨hfine, hnone⟩ := hgood opened hopened
    have hsound : opened.Sound model (.new model) maxLength 0 stepId := by
      refine ⟨?_, fun _ => hfine.stands.level⟩
      rw [hnone]
      exact nofun
    exact sound_congr ⟨hfine.counted.within, hsound⟩ rfl rfl rfl

theorem Waiting.relink {session : ServerInferenceSession PeerID Token Cache}
    (h : Waiting model ideal call maxLength position strict stepId session)
    (nextSession : Option Nat) : Waiting model ideal call maxLength position strict stepId
      { session with nextSession := nextSession } := by
  obtain ⟨⟨hwithin, hcounted, hstepped, hopened⟩, hhistory, hpending⟩ := h
  exact ⟨⟨⟨hwithin.nonneg, hwithin.lt, hwithin.le⟩, hcounted, hstepped, hopened⟩, hhistory,
    hpending.congr rfl⟩

theorem Served.relink {session : ServerInferenceSession PeerID Token Cache}
    (h : Served model ideal call maxLength position strict stepId session)
    (nextSession : Option Nat) : Served model ideal call maxLength position strict stepId
      { session with nextSession := nextSession } := by
  obtain ⟨⟨⟨hwithin, hcounted, hstepped, hopened⟩, hhistory, hstands⟩, hprocessed⟩ := h
  exact ⟨⟨⟨⟨hwithin.nonneg, hwithin.lt, hwithin.le⟩, hcounted, hstepped, hopened⟩, hhistory,
    ⟨hstands.level, hstands.unread, hstands.live⟩⟩, hprocessed⟩

end replacing

section outcomes
variable (hcall : CallAt model ideal call maxLength position)
  (h : LoopInv model ideal call maxLength position strict loop done tail)
  (hmore : loop.blockIdx < model.numBlocks)
include hcall h hmore

omit hcall hmore in
theorem LoopInv.closeHead (hzero : position = 0) (hneed : loop.Updates) (closeOk : Bool) :
    LoopInv model ideal call maxLength position strict
      (loop.fail (InferenceSession.closeHead loop.session done tail closeOk))
      done (tail.modifyHead fun failed => failed.close closeOk) := by
  have hspans : (tail.modifyHead fun failed => failed.close closeOk).map
      ServerInferenceSession.span = tail.map ServerInferenceSession.span := by
    cases tail with
    | nil => rfl
    | cons failed rest =>
        obtain ⟨closed, serving, alive, hclose⟩ := close_frame failed closeOk
        simp [hclose]
  refine ⟨⟨h.split.joined.closeHead h.split.sessions closeOk, rfl, h.split.limit, h.split.counted,
    h.split.nonneg, h.split.served, h.split.tiles⟩, h.serverIdx, h.inputs, ?_, ?_⟩
  · rcases h.ahead with ⟨hdone, rfl, hstart⟩ | htiles
    · exact .inl ⟨hdone, rfl, hstart⟩
    · right
      unfold SpansTile
      rwa [hspans]
  · intro current rest htail
    cases tail with
    | nil => cases htail
    | cons failed others =>
        cases htail
        refine ⟨(h.current _ _ rfl).1, .inr ⟨Nat.le_add_left 1 _, hzero, ?_⟩⟩
        have hretriable := h.retriable hneed rfl
        obtain ⟨closed, serving, alive, hclose⟩ := close_frame failed closeOk
        dsimp only
        rw [hclose]
        exact hretriable

omit hcall in
theorem LoopInv.updateEnd_bounds :
    loop.blockIdx < updateEnd tail model ∧ updateEnd tail model ≤ model.numBlocks ∧
      SpansTile (updateEnd tail model) tail.tail model.numBlocks := by
  cases tail with
  | nil => exact ⟨hmore, le_rfl, rfl⟩
  | cons failed rest =>
      rcases h.ahead with ⟨-, hnil, -⟩ | htiles
      · cases hnil
      · obtain ⟨hstart, hlt, hrest⟩ := htiles
        exact ⟨hstart ▸ hlt, hrest.le, hrest⟩

theorem LoopInv.replaced (hneed : loop.Updates) (hcontiguous : attempt.Contiguous model)
    {spans : List (RemoteSpanInfo PeerID)}
    (hspans : attempt.makeSequence loop.blockIdx (updateEnd tail model) = some spans) :
    ∃ done' current rest, Prepared model ideal call maxLength position strict loop.stepId
      (installed loop.session done tail model attempt.closeOk
        (truncateLast spans (updateEnd tail model))) loop.blockIdx done' current rest ∧
      done'.length = done.length := by
  obtain rfl := h.position_eq_zero hmore hneed
  obtain rfl := hcall.zero rfl
  obtain ⟨hlt, hle, hrest⟩ := h.updateEnd_bounds hmore
  have htiles := truncateLast_tiles (hcontiguous _ _ spans h.split.nonneg hlt hle hspans)
  have hcut : Cut model True loop.session done.length loop.blockIdx done tail :=
    ⟨h.split.sessions, rfl, h.split.tiles.row, hlt.le, fun _ => hlt, hrest.row⟩
  have hne : truncateLast spans (updateEnd tail model) ≠ [] :=
    fun hnil => hlt.ne (htiles.eq_nil_iff.mp hnil)
  have hchained : Chained True model (installed loop.session done tail model attempt.closeOk
      (truncateLast spans (updateEnd tail model))) :=
    h.split.joined.chained.installed hcut htiles.row hne
  have hgood : ∀ opened ∈ loop.session.enterServerSessions model
      (truncateLast spans (updateEnd tail model)),
      opened.Good model (.new model) loop.session.maxLength 0 strict ∧
        opened.processedStepIds = [] := enterServerSessions_good h.split.nonneg hle htiles
  have hopenedSpans : (loop.session.enterServerSessions model
      (truncateLast spans (updateEnd tail model))).map ServerInferenceSession.span =
        truncateLast spans (updateEnd tail model) := enterServerSessions_span _ _ _
  have hjoined : Joined model (.new model) call maxLength 0 strict loop.stepId
      (installed loop.session done tail model attempt.closeOk
        (truncateLast spans (updateEnd tail model))) :=
    h.split.joined.installed h.split.sessions hchained (h.split.limit ▸ hgood)
  rw [← hopenedSpans] at htiles
  cases hopened : loop.session.enterServerSessions model
      (truncateLast spans (updateEnd tail model)) with
  | nil =>
      rw [hopened] at htiles
      have hend : loop.blockIdx = updateEnd tail model := htiles
      omega
  | cons head others =>
      rw [hopened] at htiles hgood
      rw [h.split.limit] at hgood
      obtain ⟨hheadGood, hheadNew⟩ := hgood head List.mem_cons_self
      have hstart : head.span.start = loop.blockIdx := htiles.1
      have hretry := hheadGood.counted.counted
      obtain ⟨link, hsessions⟩ := installed_eq loop.session done tail model attempt.closeOk
        (truncateLast spans (updateEnd tail model))
      rw [replacements_eq attempt.closeOk hopened, List.append_assoc, List.cons_append,
        List.mapIdx_append, List.mapIdx_cons] at hsessions
      refine ⟨_, _, _, ⟨⟨hjoined, hsessions, h.split.limit, h.split.counted, h.split.nonneg, ?_, ?_⟩,
        ?_, ?_, ?_, ?_, ?_⟩, List.length_mapIdx⟩
      · exact forall_mapIdx _ _ (fun _ nextSession hserved => hserved.relink nextSession)
          h.split.served
      · unfold SpansTile
        rw [mapIdx_span]
        exact h.split.tiles
      · unfold SpansTile
        rw [List.map_cons, mapIdx_span, List.map_append, ← List.cons_append, tiles_append]
        exact ⟨updateEnd tail model, htiles, hrest⟩
      · refine forall_mapIdx _ _ (fun _ nextSession hwaiting => hwaiting.relink nextSession) ?_
        intro session hmem
        rcases List.mem_append.mp hmem with hother | hsurvivor
        · obtain ⟨hfine, hnew⟩ := hgood session (List.mem_cons_of_mem _ hother)
          exact ⟨hfine.counted, hfine.history, .inl ⟨hnew ▸ List.not_mem_nil, hfine.stands⟩⟩
        · cases tail with
          | nil => cases hsurvivor
          | cons failed rest => exact (h.current failed rest rfl).1 session hsurvivor
      · obtain ⟨hwithin, hcounted, hstepped, hopen⟩ := hheadGood.counted
        exact ⟨⟨hwithin.nonneg, hwithin.lt, hwithin.le⟩, hcounted, hstepped, hopen⟩
      · refine extendHistory_retry hretry ?_
        cases tail with
        | nil => exact .inl hheadGood.history
        | cons failed rest =>
            have hfailed := h.retriable hneed rfl
            have hsame : failed.span.start = loop.blockIdx := by
              rcases h.ahead with ⟨-, hnil, -⟩ | htail
              · cases hnil
              · exact htail.1
            unfold Retriable at hfailed
            rw [hsame, ← hstart] at hfailed
            exact hfailed
      · obtain ⟨hlevel, hunread, hlive⟩ := hheadGood.stands
        exact .inl ⟨hheadNew ▸ List.not_mem_nil, hlevel, hunread, hlive⟩

end outcomes

end attempts

/-! The attempt itself: it advances to the next server, or it fails. -/

/-- A history that came from a step at a later position, or of other inputs, keeps the session and
whatever replaces it from stepping the inputs. -/
def Stuck (loop : Loop PeerID Token Cache) : Prop :=
  1 ≤ loop.attemptNo ∧ ∃ current history,
    loop.session.serverSessions[loop.serverIdx]? = some current ∧
      current.history = some history ∧ history ≠ [] ∧ history.length ≠ loop.inputs.length

section stepping
variable {ideal : Ideal Token Cache} {call : StepCall Token} {maxLength position stepId : Nat}
  {strict : Prop} {session : InferenceSession PeerID Token Cache} {blockIdx : Int}
  {done rest : List (ServerInferenceSession PeerID Token Cache)}
  {current : ServerInferenceSession PeerID Token Cache} {loop : Loop PeerID Token Cache}
  {config : ClientConfig} {outcome : RequestOutcome}

theorem step_some_served {inputs outputs : List Token} {prompts : List (List Token)}
    {hypoIds : List Nat} {nextServers : List (NextServer PeerID Nat)}
    (h : (current.step config inputs prompts hypoIds stepId nextServers outcome).outputs =
      some outputs) : outcome = .served := by
  unfold ServerInferenceSession.step at h
  split at h
  · cases h
  · dsimp only at h
    split at h
    · split at h
      · exact (ServerInferenceSession.exchange_outputs h).1
      · exact (ServerInferenceSession.exchange_outputs h).1
    · cases h

omit [Add Token] in
theorem grows_stepped {stepped : Stepped PeerID Token Cache}
    (hsessions : session.serverSessions = done ++ current :: rest)
    (hplace : stepped.session.place = current.place)
    (hprocessed : ∀ id ∈ current.processedStepIds, id ∈ stepped.session.processedStepIds) :
    session.Grows (session.stepped done rest stepped) := by
  refine ⟨le_rfl, fun later hmem => .inr ?_⟩
  rw [hsessions]
  rcases List.mem_append.mp hmem with hdone | htail
  · exact ⟨later, List.mem_append_left _ hdone, rfl, rfl, fun _ hold => hold⟩
  · rcases List.mem_cons.mp htail with rfl | hrest
    · exact ⟨current, by simp, congrArg (fun place => place.2.1) hplace, congrArg Prod.fst hplace,
        hprocessed⟩
    · exact ⟨later, by simp [hrest], rfl, rfl, fun _ hold => hold⟩

theorem LoopInv.request_eq {tail : List (ServerInferenceSession PeerID Token Cache)}
    (h : LoopInv model ideal call maxLength position strict loop done tail)
    (hstart : current.span.start = loop.blockIdx) :
    loop.request config call session current outcome =
      current.idealStep config model ideal call loop.stepId (session.nextServers current)
        outcome := by
  unfold Loop.request ServerInferenceSession.idealStep
  rw [h.inputs, hstart]

theorem Joined.stepped {stepped : Stepped PeerID Token Cache}
    (hcall : CallAt model ideal call maxLength position)
    (h : Joined model ideal call maxLength position strict stepId session)
    (hsessions : session.serverSessions = done ++ current :: rest)
    (hcounted : current.Counted model position)
    (hextended : current.extendHistory (ideal.hidden model call current.span.start.toNat) =
      ideal.entered current.span.start.toNat ++ ideal.hidden model call current.span.start.toNat)
    (hstep : current.idealStep config model ideal call stepId (session.nextServers current)
      outcome = stepped) :
    Joined model ideal call maxLength position strict stepId
      (session.stepped done rest stepped) := by
  have hmem : current ∈ session.serverSessions := by
    rw [hsessions]
    exact List.mem_append_right _ List.mem_cons_self
  have hsound := (h.sound current hmem).2
  have hplace : stepped.session.place = current.place := hstep ▸ current.step_place ..
  obtain ⟨hwithin, hstill, hprocessed⟩ := ServerInferenceSession.idealStep_sound config
    (session.nextServers current) hcounted (hcall.entered _) hextended hcall.prompted hcall.fits
    hsound outcome
  have hgrows : session.Grows (session.stepped done rest stepped) :=
    grows_stepped hsessions hplace (hstep ▸ hprocessed)
  obtain ⟨hnames, honward⟩ : (∀ hop ∈ session.nextServers current, session.Names hop) ∧
      Onward current.span.stop.toNat (session.nextServers current) :=
    h.chained.collected session.serverSessions.length current.nextSession current.span.stop
      fun next hnext hlink => h.chained.adjoins hmem hnext hlink
  rw [hstep] at hwithin hstill
  refine ⟨h.chained.congr (stepped_places hsessions hplace) rfl, h.nextStepId,
    forall_mem_replaced (hsessions ▸ h.sound) ⟨hwithin, hstill⟩, fun push hpush => ?_⟩
  rcases List.mem_append.mp hpush with hold | hnew
  · exact (h.pushes push hold).grows hgrows
  · rw [← hstep] at hnew
    obtain ⟨hid, hnone, hhidden, hnext⟩ := ServerInferenceSession.idealStep_pushes hcounted
      (hcall.entered _) hextended hcall.prompted hcall.fits hsound hnew
    rw [hnext] at hnames honward
    obtain ⟨hfirst, hlater⟩ := List.forall_mem_cons.mp hnames
    have haddressed : session.Addressed push := ⟨hfirst, hlater, honward.2⟩
    refine ⟨haddressed.grows hgrows, stepId, le_rfl, hid, fun _ hempty => ?_, .inr ⟨rfl, hnone, ?_⟩⟩
    · rw [hhidden, ← List.length_eq_zero_iff, Ideal.hidden_length] at hempty
      exact List.length_eq_zero_iff.mp hempty
    · rw [hhidden, honward.1]

variable {stepped : Stepped PeerID Token Cache}
  (hcall : CallAt model ideal call maxLength position)
  (h : Prepared model ideal call maxLength position strict stepId session blockIdx done current
    rest)
  (hstep : current.idealStep config model ideal call stepId (session.nextServers current)
    outcome = stepped)
include hcall h hstep

omit hcall hstep in
theorem Prepared.mem : current ∈ session.serverSessions := by
  rw [h.split.sessions]
  exact List.mem_append_right _ List.mem_cons_self

theorem Prepared.joined : Joined model ideal call maxLength position strict stepId
    (session.stepped done rest stepped) :=
  h.split.joined.stepped hcall h.split.sessions h.counted h.extended hstep

theorem Prepared.returned {outputs : List Token} (hreturns : stepped.outputs = some outputs) :
    LoopInv model ideal call maxLength position strict
      { session := session.stepped done rest stepped, serverIdx := done.length + 1,
        blockIdx := current.span.stop, attemptNo := 0, inputs := outputs, stepId := stepId }
      (done ++ [stepped.session]) rest := by
  have hjoined := h.joined hcall hstep
  have hstart : current.span.start = blockIdx := h.tiles.1
  have hlt := h.counted.within.lt
  have hnonneg := h.split.nonneg
  rw [← hstep] at hreturns
  obtain ⟨rfl, hspan, hgood, hprocessed⟩ := ServerInferenceSession.idealStep_returned h.counted
    (hcall.entered _) h.extended hcall.prompted hcall.fits (h.split.joined.sound current h.mem).2
    h.pending hreturns
  rw [hstep] at hspan hgood hprocessed
  refine ⟨⟨hjoined, ?_, h.split.limit, h.split.counted, ?_, ?_, ?_⟩, ?_, rfl, .inr h.tiles.2.2, ?_⟩
  · simp [InferenceSession.stepped]
  · dsimp only
    omega
  · intro served hmem
    rcases List.mem_append.mp hmem with hdone | hlast
    · exact h.split.served served hdone
    · rw [List.mem_singleton.mp hlast]
      exact ⟨hgood, hprocessed⟩
  · unfold SpansTile
    rw [List.map_append, List.map_singleton, hspan, tiles_concat, hstart]
    exact ⟨h.split.tiles, by omega, rfl⟩
  · simp
  · rintro next others rfl
    exact ⟨fun other hmem => h.waiting other (List.mem_cons_of_mem _ hmem),
      .inl ⟨rfl, h.waiting next List.mem_cons_self⟩⟩

/-- A request that fails at position 0 leaves a history that a replacement can start from. -/
theorem Prepared.retriable (hfails : stepped.outputs = none) (hzero : position = 0)
    (hloop : loop.stepId = stepId ∧ loop.blockIdx = blockIdx ∧ loop.serverIdx = done.length ∧
      loop.inputs = ideal.hidden model call blockIdx.toNat) :
    LoopInv model ideal call maxLength position strict
      (loop.fail (session.stepped done rest stepped)) done (stepped.session :: rest) := by
  obtain ⟨rfl, rfl, hidx, hinputs⟩ := hloop
  have hjoined := h.joined hcall hstep
  have hspan : stepped.session.span = current.span :=
    congrArg Prod.fst (hstep ▸ current.step_place .. : stepped.session.place = current.place)
  have hentered : ideal.entered current.span.start.toNat = [] :=
    List.length_eq_zero_iff.mp ((hcall.entered _).trans hzero)
  have hextended := h.extended
  rw [← hstep] at hfails
  have hfailed := ServerInferenceSession.idealStep_failed h.counted (hcall.entered _) h.extended
    hfails
  rw [hstep] at hfailed
  rw [hentered, List.nil_append] at hfailed hextended
  refine ⟨⟨hjoined, rfl, h.split.limit, h.split.counted, h.split.nonneg, h.split.served,
    h.split.tiles⟩, hidx, hinputs, .inr ?_, ?_⟩
  · have htiles := h.tiles
    unfold SpansTile at htiles ⊢
    rwa [List.map_cons, hspan, ← List.map_cons]
  · rintro failed others ⟨⟩
    refine ⟨h.waiting, .inr ⟨Nat.le_add_left 1 _, hzero, ?_⟩⟩
    unfold Retriable
    rw [hspan]
    rcases hfailed with ⟨-, hsame⟩ | hhistory
    · rw [hsame]
      exact history_of_extend (h.counted.counted.trans hzero) hextended
    · rw [hhistory]
      exact .inr rfl

/-- A request that fails at a later position leaves a history that nothing can start from. -/
theorem Prepared.stuck (hfails : stepped.outputs = none) (hpositive : 0 < position)
    (hidx : loop.serverIdx = done.length)
    (hinputs : loop.inputs = ideal.hidden model call blockIdx.toNat) :
    Stuck (loop.fail (session.stepped done rest stepped)) := by
  have hlength : (ideal.entered current.span.start.toNat).length = position := hcall.entered _
  rw [← hstep] at hfails
  rcases ServerInferenceSession.idealStep_failed h.counted hlength h.extended hfails with
    ⟨hclosed, -⟩ | hhistory
  · exact absurd hclosed (by simp [h.counted.opened hpositive])
  · rw [hstep] at hhistory
    refine ⟨Nat.le_add_left 1 _, stepped.session, _, ?_, hhistory, ?_, ?_⟩
    · simp [Loop.fail, InferenceSession.stepped, hidx]
    · exact List.append_ne_nil_of_left_ne_nil (List.length_pos_iff.mp (hlength ▸ hpositive)) _
    · change _ ≠ loop.inputs.length
      rw [hinputs, List.length_append, hlength, Ideal.hidden_length, Ideal.hidden_length]
      omega

end stepping

/-- Between two calls: the chain of server sessions agrees with the ideal session, and no push on
its way can do anything to it. -/
structure Good (model : BlockModel Token Cache) (ideal : Ideal Token Cache) (strict : Prop)
    (session : InferenceSession PeerID Token Cache) : Prop where
  entered : ∀ block, (ideal.entered block).length = session.position
  zero : session.position = 0 → ideal = .new model
  chained : Chained True model session
  chain : session.serverSessions = [] ∧ session.position = 0 ∨
    SpansTile 0 session.serverSessions model.numBlocks
  sessions : ∀ serverSession ∈ session.serverSessions,
    serverSession.Good model ideal session.maxLength session.position strict
  processed : ∀ serverSession ∈ session.serverSessions, ∀ id ∈ serverSession.processedStepIds,
    id < session.nextStepId
  pushes : ∀ push ∈ session.pushes, session.LeftOver strict push

end InferenceSession
end Peerz.Client
