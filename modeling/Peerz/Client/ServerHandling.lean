import Peerz.Client.SessionUpdates

/-! The server's end of a session that follows the ideal session, whichever requests it takes: the
client's own ones, those that another server has pushed, and those that come late. -/
namespace Peerz.Client
open Library Server

variable {PeerID Token Cache : Type} {strict : Prop}

/-- Responses without tokens aside, the unread ones are the expected ones. Where `strict`, these
are all. -/
def Unread (strict : Prop) (expected unread : List (List Token)) : Prop :=
  unread.filter (!·.isEmpty) = expected.filter (!·.isEmpty) ∧ (strict → unread = expected)

namespace Unread
variable {expected unread : List (List Token)} {response outputs : List Token}

theorem nil : Unread strict ([] : List (List Token)) [] := ⟨rfl, fun _ => rfl⟩

theorem append (h : Unread strict expected unread) (outputs : List Token) :
    Unread strict (expected ++ [outputs]) (unread ++ [outputs]) := by
  refine ⟨?_, fun hstrict => by rw [h.2 hstrict]⟩
  rw [List.filter_append, List.filter_append, h.1]

theorem append_empty (h : Unread strict expected unread) (hlax : ¬ strict) :
    Unread strict expected (unread ++ [[]]) := by
  refine ⟨?_, fun hstrict => absurd hstrict hlax⟩
  rw [List.filter_append, h.1]
  exact List.append_nil _

theorem congr_empty (h : Unread strict expected unread) (hlax : ¬ strict) :
    Unread strict (expected ++ [[]]) unread := by
  refine ⟨?_, fun hstrict => absurd hstrict hlax⟩
  rw [List.filter_append, ← h.1]
  exact (List.append_nil _).symm

theorem read (h : Unread strict [outputs] (response :: unread))
    (hsize : response.length = outputs.length) :
    response = outputs ∧ Unread strict [] unread := by
  cases response with
  | nil =>
      obtain rfl := List.length_eq_zero_iff.mp hsize.symm
      refine ⟨rfl, by simpa using h.1, fun hstrict => ?_⟩
      exact (List.cons.inj (h.2 hstrict)).2
  | cons token tokens =>
      cases outputs with
      | nil => cases hsize
      | cons output rest =>
          obtain ⟨hsame, hrest⟩ := List.cons.inj (h.1 :
            (token :: tokens) :: unread.filter (!·.isEmpty) = [output :: rest])
          exact ⟨hsame, hrest, fun hstrict => (List.cons.inj (h.2 hstrict)).2⟩

theorem read_nil (h : Unread strict [] (response :: unread)) :
    response = [] ∧ Unread strict [] unread := by
  cases response with
  | nil => exact ⟨rfl, by simpa using h.1, fun hstrict => by cases h.2 hstrict⟩
  | cons token tokens => simp [Unread] at h

end Unread

variable [Add Token] {model : BlockModel Token Cache} {ideal : Ideal Token Cache}
  {call : StepCall Token} {maxLength position stepId : Nat}
  {session next : ServerInferenceSession PeerID Token Cache}
  {request : SessionRequest PeerID Token}

/-- Without deep prompts, hidden states and hypothesis ids are all that a step depends on. -/
theorem process_congr (server : ServerSession Token Cache) {left right : InferenceTensors Token}
    (hhidden : left.hiddenStates = right.hiddenStates)
    (hleft : left.prompts.all List.isEmpty = true) (hright : right.prompts.all List.isEmpty = true)
    (hhypo : left.hiddenStates = [] ∨ left.hypoIds = right.hypoIds) :
    server.process left = server.process right := by
  unfold ServerSession.process
  simp only [hleft, hright, if_true]
  rcases hhypo with hempty | hhypo
  · rw [← hhidden, hempty, List.length_nil, if_pos rfl, if_pos rfl]
  · rw [hhidden, hhypo]

/-- A request without tokens raises or changes nothing, whatever else it has. -/
theorem process_empty (server : ServerSession Token Cache) (tensors : InferenceTensors Token)
    (hempty : tensors.hiddenStates = []) :
    server.process tensors = none ∨ server.process tensors = some ([], server) := by
  unfold ServerSession.process
  dsimp only
  rw [hempty, List.length_nil, if_pos rfl]
  generalize (if tensors.prompts.all List.isEmpty then server.backends.map fun _ => []
    else tensors.prompts) = prompts
  split
  · exact .inl rfl
  · split
    · exact .inl rfl
    · exact .inr rfl

def idealTensors (model : BlockModel Token Cache) (ideal : Ideal Token Cache)
    (call : StepCall Token) (span : RemoteSpanInfo PeerID) : InferenceTensors Token :=
  ⟨ideal.hidden model call span.start.toNat, pySlice call.prompts span.start span.stop, call.hypoIds⟩

namespace ServerInferenceSession

section states
variable (model : BlockModel Token Cache) (ideal : Ideal Token Cache) (maxLength position : Nat)
  (strict : Prop)

def Level (session : ServerInferenceSession PeerID Token Cache) : Prop :=
  Follows model ideal maxLength position session.span.start.toNat session.span.stop.toNat
    session.server

/-- The server's end is where the ideal session is, and the client is to read the expected
responses. -/
structure Stands (expected : List (List Token))
    (session : ServerInferenceSession PeerID Token Cache) : Prop where
  level : session.Level model ideal maxLength position
  unread : Unread strict expected session.unread
  live : strict → session.closed = false ∧ session.alive = true ∧ session.serving = true

variable (call : StepCall Token) (stepId : Nat)

/-- Unless it has taken the step of the call, the server's end is where the ideal session is. -/
structure Sound (session : ServerInferenceSession PeerID Token Cache) : Prop where
  bounded : ∀ id ∈ session.processedStepIds, id ≤ stepId
  level : stepId ∉ session.processedStepIds → session.Level model ideal maxLength position

/-- The client has not asked for the step, but a push may have brought it. -/
def Pending (session : ServerInferenceSession PeerID Token Cache) : Prop :=
  stepId ∉ session.processedStepIds ∧ session.Stands model ideal maxLength position strict [] ∨
    stepId ∈ session.processedStepIds ∧ session.Stands model (ideal.step model call) maxLength
      (position + call.inputs.length) strict [ideal.hidden model call session.span.stop.toNat]

/-- What a request to a server can be: late, without tokens, or the one of the step. -/
inductive Welcome (session : ServerInferenceSession PeerID Token Cache)
    (request : SessionRequest PeerID Token) : Prop where
  | late {id : Nat} (hid : request.metadata.stepId = some id)
      (hmem : id ∈ session.processedStepIds)
  | empty {id : Nat} (hid : request.metadata.stepId = some id) (hle : id ≤ stepId)
      (hlax : ¬ strict) (hempty : request.tensors.hiddenStates = [])
      (hcall : id = stepId → call.inputs = [])
  | right (hid : request.metadata.stepId = some stepId)
      (hprocess : ∀ server : ServerSession Token Cache, server.process (unpack request.tensors) =
        server.process (idealTensors model ideal call session.span))
      (hdummy : request.tensors.prompts.all List.isEmpty = true → call.prompts = [])

inductive Handled (session : ServerInferenceSession PeerID Token Cache) :
    ServerInferenceSession PeerID Token Cache → Prop where
  | late (opening : Option (RequestTensors Token (List Token))) :
      Handled session { session with opening := opening }
  | raised (opening : Option (RequestTensors Token (List Token))) (hlax : ¬ strict) :
      Handled session { session with opening := opening, serving := false }
  | empty (opening : Option (RequestTensors Token (List Token))) (id : Nat) (hle : id ≤ stepId)
      (hlax : ¬ strict) (hcall : id = stepId → call.inputs = []) :
      Handled session { session with
        opening := opening
        processedStepIds := session.processedStepIds ++ [id]
        unread := session.unread ++ [[]] }
  | stepped (opening : Option (RequestTensors Token (List Token)))
      (server : ServerSession Token Cache) (hnew : stepId ∉ session.processedStepIds)
      (hfollows : Follows model (ideal.step model call) maxLength (position + call.inputs.length)
        session.span.start.toNat session.span.stop.toNat server) :
      Handled session { session with
        server := server
        opening := opening
        processedStepIds := session.processedStepIds ++ [stepId]
        unread := session.unread ++ [ideal.hidden model call session.span.stop.toNat] }

structure Within (session : ServerInferenceSession PeerID Token Cache) : Prop where
  nonneg : 0 ≤ session.span.start
  lt : session.span.start < session.span.stop
  le : session.span.stop ≤ model.numBlocks

end states

section handling

theorem handle_late {id : Nat} (hid : request.metadata.stepId = some id)
    (hmem : id ∈ session.processedStepIds) :
    session.handle request =
      { session := { session with opening := some (session.opening.getD request.tensors) } } := by
  unfold handle
  simp [hid, hmem]

theorem handle_raised {id : Nat} (hid : request.metadata.stepId = some id)
    (hnew : id ∉ session.processedStepIds)
    (hprocess : session.server.process (unpack request.tensors) = none) :
    session.handle request = { session := { session with
      opening := some (session.opening.getD request.tensors)
      serving := false } } := by
  unfold handle
  simp [hid, hnew, hprocess]

theorem handle_stepped {id : Nat} (hid : request.metadata.stepId = some id)
    (hnew : id ∉ session.processedStepIds) {outputs : List Token}
    {server : ServerSession Token Cache}
    (hprocess : session.server.process (unpack request.tensors) = some (outputs, server)) :
    session.handle request =
      { session := { session with
          server := server
          opening := some (session.opening.getD request.tensors)
          processedStepIds := session.processedStepIds ++ [id]
          unread := session.unread ++ [outputs] }
        pushes :=
          if request.tensors.prompts.all List.isEmpty then
            (pushOutputs (session.opening.getD request.tensors) outputs request.metadata).toList
          else [] } := by
  unfold handle
  simp [hid, hnew, hprocess]

theorem Level.process (h : session.Level model ideal maxLength position)
    (hwithin : session.Within model) (hcall : Prompted model call)
    (hlength : position + call.inputs.length ≤ maxLength) :
    ∃ server, session.server.process (idealTensors model ideal call session.span) =
        some (ideal.hidden model call session.span.stop.toNat, server) ∧
      Follows model (ideal.step model call) maxLength (position + call.inputs.length)
        session.span.start.toNat session.span.stop.toNat server := by
  have hstart := Int.toNat_of_nonneg hwithin.nonneg
  have hlt := hwithin.lt
  have hstop := hwithin.le
  have hprocess := Follows.process h hcall (by omega) (by omega) hlength
  rwa [hstart, Int.toNat_of_nonneg (by omega)] at hprocess

variable (hsound : session.Sound model ideal maxLength position stepId)
  (hwithin : session.Within model) (hcall : Prompted model call)
  (hlength : position + call.inputs.length ≤ maxLength)
  (h : session.Welcome model ideal strict call stepId request)
include hsound hwithin hcall hlength h

theorem Welcome.handled :
    session.Handled model ideal maxLength position strict call stepId
      (session.handle request).session := by
  cases h with
  | late hid hmem =>
      rw [handle_late hid hmem]
      exact .late _
  | @empty id hid hle hlax hempty hnone =>
      by_cases hmem : id ∈ session.processedStepIds
      · rw [handle_late hid hmem]
        exact .late _
      · rcases process_empty session.server (unpack request.tensors) hempty with
          hprocess | hprocess
        · rw [handle_raised hid hmem hprocess]
          exact .raised _ hlax
        · rw [handle_stepped hid hmem hprocess]
          exact .empty _ id hle hlax hnone
  | right hid hprocess hdummy =>
      by_cases hmem : stepId ∈ session.processedStepIds
      · rw [handle_late hid hmem]
        exact .late _
      · obtain ⟨server, hideal, hfollows⟩ := (hsound.level hmem).process hwithin hcall hlength
        rw [handle_stepped hid hmem ((hprocess _).trans hideal)]
        exact .stepped _ server hmem hfollows

theorem Welcome.pushes {push : Push PeerID Token} (hpush : push ∈ (session.handle request).pushes) :
    push.2.metadata.stepId = request.metadata.stepId ∧
      request.metadata.nextServers = push.1 :: push.2.metadata.nextServers ∧
      (¬ strict ∧ push.2.tensors.hiddenStates = [] ∧
          (push.2.metadata.stepId = some stepId → call.inputs = []) ∨
        push.2.metadata.stepId = some stepId ∧ call.prompts = [] ∧
          push.2.tensors.hiddenStates = ideal.hidden model call session.span.stop.toNat) := by
  cases h with
  | late hid hmem =>
      rw [handle_late hid hmem] at hpush
      cases hpush
  | @empty id hid hle hlax hempty hnone =>
      by_cases hmem : id ∈ session.processedStepIds
      · rw [handle_late hid hmem] at hpush
        cases hpush
      · rcases process_empty session.server (unpack request.tensors) hempty with
          hprocess | hprocess
        · rw [handle_raised hid hmem hprocess] at hpush
          cases hpush
        · rw [handle_stepped hid hmem hprocess] at hpush
          dsimp only at hpush
          split at hpush
          · obtain ⟨hnext, hsame, htensors⟩ := pushOutputs_eq_some (Option.mem_toList.mp hpush)
            refine ⟨hsame, hnext, .inl ⟨hlax, by rw [htensors], fun hstep => hnone ?_⟩⟩
            exact Option.some.inj (hid.symm.trans (hsame.symm.trans hstep))
          · cases hpush
  | right hid hprocess hdummy =>
      by_cases hmem : stepId ∈ session.processedStepIds
      · rw [handle_late hid hmem] at hpush
        cases hpush
      · obtain ⟨server, hideal, -⟩ := (hsound.level hmem).process hwithin hcall hlength
        rw [handle_stepped hid hmem ((hprocess _).trans hideal)] at hpush
        dsimp only at hpush
        split at hpush
        · rename_i hdummies
          obtain ⟨hnext, hsame, htensors⟩ := pushOutputs_eq_some (Option.mem_toList.mp hpush)
          exact ⟨hsame, hnext, .inr ⟨hsame.trans hid, hdummy hdummies, by rw [htensors]⟩⟩
        · cases hpush

end handling

/-! What holds of the server's end whichever requests it takes. -/

section handled
variable (h : session.Handled model ideal maxLength position strict call stepId next)
include h

theorem Handled.clientEnd : next.clientEnd = session.clientEnd := by
  cases h <;> rfl

theorem Handled.processed {id : Nat} (hmem : id ∈ session.processedStepIds) :
    id ∈ next.processedStepIds := by
  cases h with
  | late | raised => exact hmem
  | empty | stepped => exact List.mem_append_left _ hmem

theorem Handled.sound (hsound : session.Sound model ideal maxLength position stepId) :
    next.Sound model ideal maxLength position stepId := by
  cases h with
  | late | raised => exact ⟨hsound.bounded, hsound.level⟩
  | empty _ id hle =>
      refine ⟨List.forall_mem_append.mpr ⟨hsound.bounded, List.forall_mem_singleton.mpr hle⟩,
        fun hnew => ?_⟩
      exact hsound.level fun hmem => hnew (List.mem_append_left _ hmem)
  | stepped =>
      refine ⟨List.forall_mem_append.mpr ⟨hsound.bounded, List.forall_mem_singleton.mpr le_rfl⟩,
        fun hnew => ?_⟩
      exact absurd (List.mem_append_right _ (List.mem_singleton_self _)) hnew

/-- A server that has taken the step takes nothing else that has tokens. -/
theorem Handled.stands {other : Ideal Token Cache} {count : Nat} {expected : List (List Token)}
    (hold : stepId ∈ session.processedStepIds ∨ ¬ strict ∧ call.inputs = [] ∧ other = ideal ∧
      count = position)
    (hstands : session.Stands model other maxLength count strict expected) :
    next.Stands model other maxLength count strict expected := by
  cases h with
  | late => exact ⟨hstands.level, hstands.unread, hstands.live⟩
  | raised _ hlax =>
      exact ⟨hstands.level, hstands.unread, fun hstrict => absurd hstrict hlax⟩
  | empty _ _ _ hlax =>
      exact ⟨hstands.level, hstands.unread.append_empty hlax, fun hstrict => absurd hstrict hlax⟩
  | stepped opening server hnew hfollows =>
      obtain ⟨hlax, hempty, rfl, rfl⟩ := hold.resolve_left hnew
      rw [Ideal.step_eq_self hempty, hempty, List.length_nil, Nat.add_zero] at hfollows
      refine ⟨hfollows, ?_, fun hstrict => absurd hstrict hlax⟩
      rw [Ideal.hidden_eq_nil hempty]
      exact hstands.unread.append_empty hlax

theorem Handled.pending
    (hpending : session.Pending model ideal maxLength position strict call stepId) :
    next.Pending model ideal maxLength position strict call stepId := by
  have hspan : next.span = session.span := congrArg ClientEnd.span h.clientEnd
  rcases hpending with ⟨hnew, hstands⟩ | ⟨hmem, hstands⟩
  · cases h with
    | late => exact .inl ⟨hnew, hstands.level, hstands.unread, hstands.live⟩
    | raised _ hlax =>
        exact .inl ⟨hnew, hstands.level, hstands.unread, fun hstrict => absurd hstrict hlax⟩
    | empty _ id _ hlax hnone =>
        have hunread := hstands.unread.append_empty hlax
        by_cases hid : id = stepId
        · subst hid
          have hempty := hnone rfl
          refine .inr ⟨List.mem_append_right _ (List.mem_singleton_self _), ?_⟩
          rw [Ideal.step_eq_self hempty, hempty, Ideal.hidden_eq_nil hempty]
          exact ⟨hstands.level, hunread.congr_empty hlax, fun hstrict => absurd hstrict hlax⟩
        · refine .inl ⟨?_, hstands.level, hunread, fun hstrict => absurd hstrict hlax⟩
          simpa [hnew] using Ne.symm hid
    | stepped opening server hnew hfollows =>
        exact .inr ⟨List.mem_append_right _ (List.mem_singleton_self _), hfollows,
          hstands.unread.append _, hstands.live⟩
  · refine .inr ⟨h.processed hmem, ?_⟩
    rw [hspan]
    exact h.stands (.inl hmem) hstands

end handled

omit [Add Token] in
theorem Within.congr (h : session.Within model) (hclient : next.clientEnd = session.clientEnd) :
    next.Within model := by
  have hspan : next.span = session.span := congrArg ClientEnd.span hclient
  exact ⟨hspan ▸ h.nonneg, hspan ▸ h.lt, hspan ▸ h.le⟩

theorem Pending.congr (h : session.Pending model ideal maxLength position strict call stepId)
    (hsame : next = { session with
      nextSession := next.nextSession, stepped := next.stepped, history := next.history }) :
    next.Pending model ideal maxLength position strict call stepId := by
  rw [hsame]
  exact h.imp (fun h => ⟨h.1, h.2.level, h.2.unread, h.2.live⟩)
    fun h => ⟨h.1, h.2.level, h.2.unread, h.2.live⟩

end ServerInferenceSession
end Peerz.Client
