import Peerz.Client.ServerHandling

/-! One step of one server session, from where it agrees with the ideal session. -/
namespace Peerz.Client
open Library Server

variable {PeerID Token Cache : Type} [Add Token] {model : BlockModel Token Cache}
  {ideal : Ideal Token Cache} {call : StepCall Token} {maxLength position stepId : Nat}
  {strict : Prop} {session : ServerInferenceSession PeerID Token Cache}
  {request : SessionRequest PeerID Token} {outcome : RequestOutcome} {outputs : List Token}

namespace ServerInferenceSession

/-- The client's end has counted the position, and at a later one it is open. -/
structure Counted (model : BlockModel Token Cache) (position : Nat)
    (session : ServerInferenceSession PeerID Token Cache) : Prop where
  within : session.Within model
  counted : session.position = position
  stepped : 0 < position → session.stepped = true
  opened : 0 < position → session.closed = false

/-- A session that has counted the inputs of the ideal session, and nothing else, with nothing to
read. -/
structure Good (model : BlockModel Token Cache) (ideal : Ideal Token Cache)
    (maxLength position : Nat) (strict : Prop)
    (session : ServerInferenceSession PeerID Token Cache) : Prop where
  counted : session.Counted model position
  history : session.history.getD [] = ideal.entered session.span.start.toNat
  stands : session.Stands model ideal maxLength position strict []

omit [Add Token] in
theorem Counted.congr {next : ServerInferenceSession PeerID Token Cache}
    (h : session.Counted model position) (hclient : next.clientEnd = session.clientEnd) :
    next.Counted model position := by
  have hstepped : next.stepped = session.stepped := congrArg ClientEnd.stepped hclient
  have hclosed : next.closed = session.closed := congrArg ClientEnd.closed hclient
  exact ⟨h.within.congr hclient, (congrArg ClientEnd.position hclient).trans h.counted,
    fun hpositive => hstepped.trans (h.stepped hpositive),
    fun hpositive => hclosed.trans (h.opened hpositive)⟩

theorem handle_outputs (session : ServerInferenceSession PeerID Token Cache)
    (request : SessionRequest PeerID Token) : (session.handle request).outputs = none := by
  unfold handle
  dsimp only
  split
  · rfl
  · split <;> rfl

theorem exchange_outputs (h : (session.exchange request outcome).outputs = some outputs) :
    outcome = .served ∧ outputs.length = request.tensors.hiddenStates.length := by
  have harrives : ∀ arrives : Bool,
      (if arrives then session.handle request else { session }).outputs = none := by
    intro arrives
    split
    · exact session.handle_outputs request
    · rfl
  unfold exchange at h
  split at h
  · cases outcome with
    | served =>
        dsimp only at h
        split at h
        · cases (harrives session.serving).symm.trans h
        · obtain ⟨hsize, hresponse⟩ := Option.ite_none_right_eq_some.mp h
          cases hresponse
          exact ⟨rfl, hsize⟩
    | failed handled streamLives => cases (harrives (handled && session.serving)).symm.trans h
  · cases h

theorem exchange_pushes {push : Push PeerID Token}
    (hpush : push ∈ (session.exchange request outcome).pushes) :
    push ∈ (session.handle request).pushes := by
  have harrives : ∀ arrives : Bool,
      push ∈ (if arrives then session.handle request else { session }).pushes →
      push ∈ (session.handle request).pushes := by
    intro arrives hpush
    split at hpush
    · exact hpush
    · cases hpush
  unfold exchange at hpush
  split at hpush
  · cases outcome with
    | served =>
        dsimp only at hpush
        split at hpush
        · exact harrives _ hpush
        · exact harrives session.serving hpush
    | failed handled streamLives => exact harrives (handled && session.serving) hpush
  · cases hpush

section exchanging
variable (hsound : session.Sound model ideal maxLength position stepId)
  (hwithin : session.Within model) (hcall : Prompted model call)
  (hlength : position + call.inputs.length ≤ maxLength)
  (h : session.Welcome model ideal strict call stepId request)
include hsound hwithin hcall hlength h

theorem exchange_handled (outcome : RequestOutcome) :
    ∃ taken unread alive,
      session.Handled model ideal maxLength position strict call stepId taken ∧
        (taken.unread = unread ∨ ∃ response, taken.unread = response :: unread) ∧
        (session.exchange request outcome).session =
          { taken with unread := unread, alive := alive } := by
  have harrives : ∀ arrives : Bool, session.Handled model ideal maxLength position strict call stepId
      (if arrives then session.handle request else { session }).session := by
    intro arrives
    split
    · exact h.handled hsound hwithin hcall hlength
    · exact .late session.opening
  unfold exchange
  split
  · cases outcome with
    | served =>
        dsimp only
        split
        · exact ⟨_, _, _, harrives _, .inl rfl, rfl⟩
        · rename_i response unread hunread
          exact ⟨_, _, _, harrives session.serving, .inr ⟨response, hunread⟩, rfl⟩
    | failed handled streamLives =>
        exact ⟨_, _, _, harrives (handled && session.serving), .inl rfl, rfl⟩
  · exact ⟨_, _, _, .late session.opening, .inl rfl, rfl⟩

/-- A response that is taken for the answer is the answer. -/
theorem exchange_answered (outcome : RequestOutcome) (outputs : List Token)
    (hsize : request.tensors.hiddenStates.length = call.inputs.length)
    (hpending : session.Pending model ideal maxLength position strict call stepId)
    (hanswered : (session.exchange request outcome).outputs = some outputs) :
    let answered := (session.exchange request outcome).session
    outputs = ideal.hidden model call session.span.stop.toNat ∧
      answered.Stands model (ideal.step model call) maxLength (position + call.inputs.length)
        strict [] ∧
      (stepId ∈ answered.processedStepIds ∨ ¬ strict ∧ call.inputs = []) := by
  obtain ⟨answered, hexchange⟩ : ∃ answered, answered =
      if session.serving then session.handle request else { session } := ⟨_, rfl⟩
  have hnone : answered.outputs = none := by
    rw [hexchange]
    split
    · exact handle_outputs _ _
    · rfl
  have hspan : answered.session.span = session.span := by
    rw [hexchange]
    split
    · exact congrArg ClientEnd.span (session.handle_clientEnd request)
    · rfl
  have hstill : answered.session.Pending model ideal maxLength position strict call stepId := by
    rw [hexchange]
    split
    · exact (h.handled hsound hwithin hcall hlength).pending hpending
    · exact hpending
  unfold exchange at hanswered ⊢
  split at hanswered
  · rename_i halive
    rw [if_pos halive]
    cases outcome with
    | failed handled streamLives =>
        dsimp only at hanswered
        split at hanswered
        · rw [handle_outputs] at hanswered
          cases hanswered
        · cases hanswered
    | served =>
        dsimp only at hanswered ⊢
        rw [← hexchange] at hanswered ⊢
        cases hunread : answered.session.unread with
        | nil =>
            rw [hunread] at hanswered
            cases hnone.symm.trans hanswered
        | cons response unread =>
            rw [hunread] at hanswered
            obtain ⟨hfits, hresponse⟩ := Option.ite_none_right_eq_some.mp hanswered
            cases hresponse
            rw [hsize] at hfits
            rcases hstill with ⟨-, hstands⟩ | ⟨hmem, hstands⟩
            · -- only a response without tokens can have been left
              have hleft := hstands.unread
              rw [hunread] at hleft
              obtain ⟨rfl, hrest⟩ := hleft.read_nil
              have hempty : call.inputs = [] := List.length_eq_zero_iff.mp hfits.symm
              have hlax : ¬ strict := fun hstrict => by cases hleft.2 hstrict
              rw [Ideal.step_eq_self hempty, hempty, Ideal.hidden_eq_nil hempty]
              exact ⟨rfl, ⟨hstands.level, hrest, hstands.live⟩, .inr ⟨hlax, rfl⟩⟩
            · have hleft := hstands.unread
              rw [hunread, hspan] at hleft
              obtain ⟨rfl, hrest⟩ := hleft.read (hfits.trans (Ideal.hidden_length _).symm)
              exact ⟨rfl, ⟨hstands.level, hrest, hstands.live⟩, .inl hmem⟩
  · cases hanswered

end exchanging

theorem exchange_ready (hwithin : session.Within model) (hcall : Prompted model call)
    (hlength : position + call.inputs.length ≤ maxLength)
    (hid : request.metadata.stepId = some stepId)
    (htensors : unpack request.tensors = idealTensors model ideal call session.span)
    (hpending : session.Pending model ideal maxLength position True call stepId) :
    (session.exchange request .served).outputs =
      some (ideal.hidden model call session.span.stop.toNat) := by
  have hunread : (session.handle request).session.unread =
      [ideal.hidden model call session.span.stop.toNat] := by
    rcases hpending with ⟨hnew, hstands⟩ | ⟨hmem, hstands⟩
    · obtain ⟨server, hprocess, -⟩ := Level.process hstands.level hwithin hcall hlength
      rw [← htensors] at hprocess
      rw [handle_stepped hid hnew hprocess]
      dsimp only
      rw [hstands.unread.2 trivial, List.nil_append]
    · rw [handle_late hid hmem]
      exact hstands.unread.2 trivial
  obtain ⟨-, halive, hserving⟩ : session.closed = false ∧ session.alive = true ∧
      session.serving = true := by
    rcases hpending with ⟨-, hstands⟩ | ⟨-, hstands⟩ <;> exact hstands.live trivial
  have hsize : (ideal.hidden model call session.span.stop.toNat).length =
      request.tensors.hiddenStates.length := by
    have hinputs : request.tensors.hiddenStates = ideal.hidden model call session.span.start.toNat :=
      congrArg InferenceTensors.hiddenStates htensors
    rw [hinputs, Ideal.hidden_length, Ideal.hidden_length]
  unfold exchange
  simp only [halive, hserving, if_true, hunread, hsize]

/-! The step of a session that is to count the inputs it gets after what the ideal session
has counted. -/

theorem step_closed (hclosed : session.closed = true) {config : ClientConfig} {inputs : List Token}
    {prompts : List (List Token)} {hypoIds : List Nat} {nextServers : List (NextServer PeerID Nat)} :
    session.step config inputs prompts hypoIds stepId nextServers outcome = { session } :=
  if_pos hclosed

def begun (session : ServerInferenceSession PeerID Token Cache) (history : List Token) :
    ServerInferenceSession PeerID Token Cache :=
  { session with history := some history, stepped := true }

section requests
variable (session : ServerInferenceSession PeerID Token Cache) (config : ClientConfig)
  (model : BlockModel Token Cache) (ideal : Ideal Token Cache) (call : StepCall Token)
  (stepId : Nat) (nextServers : List (NextServer PeerID Nat))

def idealBegun : ServerInferenceSession PeerID Token Cache :=
  session.begun (ideal.entered session.span.start.toNat ++
    ideal.hidden model call session.span.start.toNat)

def idealRequest : SessionRequest PeerID Token :=
  session.stepRequest config (ideal.hidden model call session.span.start.toNat)
    (pySlice call.prompts session.span.start session.span.stop) call.hypoIds stepId nextServers

def idealStep (outcome : RequestOutcome) : Stepped PeerID Token Cache :=
  session.step config (ideal.hidden model call session.span.start.toNat)
    (pySlice call.prompts session.span.start session.span.stop) call.hypoIds stepId nextServers
    outcome

end requests

theorem Sound.idealBegun (h : session.Sound model ideal maxLength position stepId) :
    (session.idealBegun model ideal call).Sound model ideal maxLength position stepId :=
  ⟨h.bounded, h.level⟩

theorem Within.idealBegun (h : session.Within model) :
    (session.idealBegun model ideal call).Within model :=
  ⟨h.nonneg, h.lt, h.le⟩

omit [Add Token] in
theorem prompts_eq_nil {span : RemoteSpanInfo PeerID} (hcall : Prompted model call)
    (hstart : 0 ≤ span.start) (hlt : span.start < span.stop) (hstop : span.stop ≤ model.numBlocks)
    (hdummy : (pySlice call.prompts span.start span.stop).all List.isEmpty = true) :
    call.prompts = [] := by
  rcases hcall.layers with hnone | ⟨hlayers, hfull⟩
  · exact hnone
  · exfalso
    obtain ⟨start, hstartNat⟩ := Int.eq_ofNat_of_zero_le hstart
    obtain ⟨stop, hstopNat⟩ := Int.eq_ofNat_of_zero_le (show 0 ≤ span.stop by omega)
    have hidx : start < call.prompts.length := by omega
    have hmem : call.prompts[start] ∈ pySlice call.prompts span.start span.stop := by
      unfold pySlice
      rw [hstartNat, hstopNat, pyClamp_natCast (by omega), pyClamp_natCast (by omega)]
      refine List.mem_iff_getElem.mpr ⟨0, ?_, ?_⟩
      · rw [List.length_drop, List.length_take]
        omega
      · rw [List.getElem_drop, List.getElem_take]
        rfl
    have hempty := List.all_eq_true.mp hdummy _ hmem
    exact hfull _ (List.getElem_mem hidx) (List.isEmpty_iff.mp hempty)

section stepping
variable {config : ClientConfig} {nextServers : List (NextServer PeerID Nat)}
  (h : session.Counted model position)
  (hentered : (ideal.entered session.span.start.toNat).length = position)
  (hhistory : session.extendHistory (ideal.hidden model call session.span.start.toNat) =
    ideal.entered session.span.start.toNat ++ ideal.hidden model call session.span.start.toNat)
include h hentered hhistory

variable (stepId config nextServers) in
theorem idealRequest_tensors :
    unpack (session.idealRequest config model ideal call stepId nextServers).tensors =
      idealTensors model ideal call session.span := by
  unfold idealRequest stepRequest idealTensors unpack
  cases hstepped : session.stepped with
  | true => rfl
  | false =>
      have hzero : position = 0 := by
        by_contra hne
        exact absurd (h.stepped (Nat.pos_of_ne_zero hne)) (by simp [hstepped])
      dsimp only
      rw [hhistory, List.length_eq_zero_iff.mp (hentered.trans hzero)]
      rfl

theorem idealStep_open (hopen : session.closed = false) (outcome : RequestOutcome) :
    session.idealStep config model ideal call stepId nextServers outcome =
      let answered := (session.idealBegun model ideal call).exchange
        (session.idealRequest config model ideal call stepId nextServers) outcome
      if answered.outputs.isSome then
        { answered with
          session := { answered.session with position := position + call.inputs.length } }
      else answered := by
  obtain rfl := h.counted
  have hlength : (ideal.entered session.span.start.toNat ++
      ideal.hidden model call session.span.start.toNat).length =
        session.position + (ideal.hidden model call session.span.start.toNat).length := by
    rw [List.length_append, hentered]
  unfold idealStep step
  rw [if_neg (by rw [hopen]; exact Bool.false_ne_true)]
  dsimp only
  rw [hhistory, if_pos hlength, Ideal.hidden_length]
  rfl

variable (stepId config nextServers) in
theorem idealRequest_welcome (hcall : Prompted model call) (strict : Prop) :
    (session.idealBegun model ideal call).Welcome model ideal strict call stepId
      (session.idealRequest config model ideal call stepId nextServers) := by
  have htensors := idealRequest_tensors stepId config nextServers h hentered hhistory
  refine .right rfl (fun server => ?_) fun hdummy => ?_
  · rw [htensors]
    rfl
  · have hprompts : (session.idealRequest config model ideal call stepId
        nextServers).tensors.prompts = pySlice call.prompts session.span.start session.span.stop :=
      congrArg InferenceTensors.prompts htensors
    rw [hprompts] at hdummy
    exact prompts_eq_nil hcall h.within.nonneg h.within.lt h.within.le hdummy

variable (hcall : Prompted model call) (hlength : position + call.inputs.length ≤ maxLength)
  (hsound : session.Sound model ideal maxLength position stepId)
include hcall hlength hsound

variable (config nextServers) in
theorem idealStep_sound (outcome : RequestOutcome) :
    let stepped := (session.idealStep config model ideal call stepId nextServers outcome).session
    stepped.Within model ∧ stepped.Sound model ideal maxLength position stepId ∧
      ∀ id ∈ session.processedStepIds, id ∈ stepped.processedStepIds := by
  cases hclosed : session.closed with
  | true =>
      unfold idealStep
      rw [step_closed hclosed]
      exact ⟨h.within, hsound, fun _ hmem => hmem⟩
  | false =>
      have hwelcome := idealRequest_welcome stepId config nextServers h hentered hhistory hcall True
      obtain ⟨taken, unread, alive, hhandled, -, hsession⟩ := exchange_handled hsound.idealBegun
        h.within.idealBegun hcall hlength hwelcome outcome
      have hstill := hhandled.sound hsound.idealBegun
      have hinside := h.within.idealBegun.congr hhandled.clientEnd
      have hprocessed : ∀ id ∈ session.processedStepIds, id ∈ taken.processedStepIds :=
        fun id => hhandled.processed
      rw [idealStep_open h hentered hhistory hclosed]
      dsimp only
      split
      · rw [hsession]
        exact ⟨⟨hinside.nonneg, hinside.lt, hinside.le⟩, ⟨hstill.bounded, hstill.level⟩, hprocessed⟩
      · rw [hsession]
        exact ⟨⟨hinside.nonneg, hinside.lt, hinside.le⟩, ⟨hstill.bounded, hstill.level⟩, hprocessed⟩

/-- The step pushes what leaves the last block of the span, on to the servers it is told. -/
theorem idealStep_pushes {push : Push PeerID Token}
    (hpush : push ∈
      (session.idealStep config model ideal call stepId nextServers outcome).pushes) :
    push.2.metadata.stepId = some stepId ∧ call.prompts = [] ∧
      push.2.tensors.hiddenStates = ideal.hidden model call session.span.stop.toNat ∧
      nextServers = push.1 :: push.2.metadata.nextServers := by
  cases hclosed : session.closed with
  | true =>
      unfold idealStep at hpush
      rw [step_closed hclosed] at hpush
      cases hpush
  | false =>
      have hwelcome := idealRequest_welcome stepId config nextServers h hentered hhistory hcall True
      have hexchanged : push ∈ ((session.idealBegun model ideal call).exchange
          (session.idealRequest config model ideal call stepId nextServers) outcome).pushes := by
        rw [idealStep_open h hentered hhistory hclosed] at hpush
        dsimp only at hpush
        split at hpush
        · exact hpush
        · exact hpush
      obtain ⟨hsame, hnext, ⟨hlax, -⟩ | ⟨hid, hnone, hhidden⟩⟩ := hwelcome.pushes
        hsound.idealBegun h.within.idealBegun hcall hlength (exchange_pushes hexchanged)
      · exact absurd trivial hlax
      · refine ⟨hid, hnone, hhidden, ?_⟩
        unfold idealRequest stepRequest at hnext
        dsimp only at hnext
        split at hnext
        · exact hnext
        · cases hnext

omit hcall hlength hsound in
theorem idealStep_failed
    (hfails : (session.idealStep config model ideal call stepId nextServers outcome).outputs =
      none) :
    let failed := (session.idealStep config model ideal call stepId nextServers outcome).session
    session.closed = true ∧ failed = session ∨
      failed.history = some (ideal.entered session.span.start.toNat ++
        ideal.hidden model call session.span.start.toNat) := by
  cases hclosed : session.closed with
  | true =>
      unfold idealStep
      rw [step_closed hclosed]
      exact .inl ⟨rfl, rfl⟩
  | false =>
      rw [idealStep_open h hentered hhistory hclosed] at hfails ⊢
      have hclient := exchange_clientEnd (session.idealBegun model ideal call)
        (session.idealRequest config model ideal call stepId nextServers) outcome
      generalize (session.idealBegun model ideal call).exchange _ outcome = answered
        at hclient hfails ⊢
      obtain ⟨answered, pushes, _ | outputs⟩ := answered
      · exact .inr (congrArg ClientEnd.history hclient)
      · cases hfails

theorem idealStep_returned
    (hpending : session.Pending model ideal maxLength position strict call stepId)
    (hreturns : (session.idealStep config model ideal call stepId nextServers outcome).outputs =
      some outputs) :
    let answered := (session.idealStep config model ideal call stepId nextServers outcome).session
    outputs = ideal.hidden model call session.span.stop.toNat ∧ answered.span = session.span ∧
      answered.Good model (ideal.step model call) maxLength (position + call.inputs.length)
        strict ∧
      (stepId ∈ answered.processedStepIds ∨ ¬ strict ∧ call.inputs = []) := by
  cases hclosed : session.closed with
  | true =>
      unfold idealStep at hreturns
      rw [step_closed hclosed] at hreturns
      cases hreturns
  | false =>
      have hwelcome := idealRequest_welcome stepId config nextServers h hentered hhistory hcall strict
      have htensors := idealRequest_tensors stepId config nextServers h hentered hhistory
      rw [idealStep_open h hentered hhistory hclosed] at hreturns ⊢
      have hclient := exchange_clientEnd (session.idealBegun model ideal call)
        (session.idealRequest config model ideal call stepId nextServers) outcome
      have hsize : (session.idealRequest config model ideal call stepId
          nextServers).tensors.hiddenStates.length = call.inputs.length :=
        (congrArg (fun tensors => tensors.hiddenStates.length) htensors).trans
          (Ideal.hidden_length _)
      have hanswered := fun outputs => exchange_answered hsound.idealBegun h.within.idealBegun hcall
        hlength hwelcome outcome outputs hsize (hpending.congr rfl)
      generalize (session.idealBegun model ideal call).exchange _ outcome = answered
        at hclient hanswered hreturns ⊢
      obtain ⟨answered, pushes, _ | outputs⟩ := answered
      · cases hreturns
      · cases hreturns
        obtain ⟨rfl, hstands, hprocessed⟩ := hanswered _ rfl
        have hspan : answered.span = session.span := congrArg ClientEnd.span hclient
        have hstill : answered.closed = session.closed := congrArg ClientEnd.closed hclient
        have hfull : answered.history = some (ideal.entered session.span.start.toNat ++
          ideal.hidden model call session.span.start.toNat) := congrArg ClientEnd.history hclient
        have hinside := h.within.idealBegun.congr hclient
        refine ⟨rfl, hspan, ⟨⟨⟨hinside.nonneg, hinside.lt, hinside.le⟩, rfl,
          fun _ => congrArg ClientEnd.stepped hclient, fun _ => hstill.trans hclosed⟩, ?_,
          ⟨hstands.level, hstands.unread, hstands.live⟩⟩, hprocessed⟩
        dsimp only
        rw [hspan, hfull]
        rfl

omit hsound in
variable (config nextServers) in
theorem idealStep_ready
    (hpending : session.Pending model ideal maxLength position True call stepId) :
    (session.idealStep config model ideal call stepId nextServers .served).outputs =
      some (ideal.hidden model call session.span.stop.toNat) := by
  have hopen : session.closed = false := by
    rcases hpending with ⟨-, hstands⟩ | ⟨-, hstands⟩ <;> exact (hstands.live trivial).1
  have hbegun : (session.idealBegun model ideal call).Pending model ideal maxLength position
    True call stepId := hpending.congr rfl
  have hready : ((session.idealBegun model ideal call).exchange
      (session.idealRequest config model ideal call stepId nextServers) .served).outputs =
        some (ideal.hidden model call session.span.stop.toNat) :=
    exchange_ready h.within.idealBegun hcall hlength rfl
      (idealRequest_tensors stepId config nextServers h hentered hhistory) hbegun
  rw [idealStep_open h hentered hhistory hopen]
  dsimp only
  rw [hready, Option.isSome_some, if_pos rfl]

end stepping

omit [Add Token] in
theorem Counted.extendHistory (h : session.Counted model position)
    (hhistory : session.history.getD [] = ideal.entered session.span.start.toNat)
    (hentered : (ideal.entered session.span.start.toNat).length = position) (inputs : List Token) :
    session.extendHistory inputs = ideal.entered session.span.start.toNat ++ inputs := by
  unfold ServerInferenceSession.extendHistory
  cases hsome : session.history with
  | none =>
      rw [hsome] at hhistory
      rw [← hhistory]
      rfl
  | some history =>
      rw [hsome, Option.getD_some] at hhistory
      dsimp only
      rw [if_pos (by rw [hhistory, hentered, h.counted]), hhistory]

/-- A step without tokens changes nothing that counts, whatever becomes of its request. -/
theorem Good.idealStep_empty (h : session.Good model ideal maxLength position False)
    (hentered : (ideal.entered session.span.start.toNat).length = position)
    (hcall : Prompted model call) (hempty : call.inputs = []) (hlength : position ≤ maxLength)
    (hsound : session.Sound model ideal maxLength position stepId) (config : ClientConfig)
    (nextServers : List (NextServer PeerID Nat)) (outcome : RequestOutcome) :
    (session.idealStep config model ideal call stepId nextServers outcome).session.Good model ideal
      maxLength position False := by
  have hnone : ideal.hidden model call session.span.start.toNat = [] := Ideal.hidden_eq_nil hempty _
  have hzero : call.inputs.length = 0 := by rw [hempty, List.length_nil]
  have hhistory := h.counted.extendHistory h.history hentered
    (ideal.hidden model call session.span.start.toNat)
  cases hclosed : session.closed with
  | true =>
      unfold idealStep
      rw [step_closed hclosed]
      exact h
  | false =>
      obtain ⟨taken, unread, alive, hhandled, hunread, hsession⟩ := exchange_handled
        hsound.idealBegun h.counted.within.idealBegun hcall (by omega)
        (idealRequest_welcome stepId config nextServers h.counted hentered hhistory hcall False)
        outcome
      have hstands : taken.Stands model ideal maxLength position False [] :=
        hhandled.stands (.inr ⟨not_false, hempty, rfl, rfl⟩)
          ⟨h.stands.level, h.stands.unread, h.stands.live⟩
      have hleft : Unread False [] unread := by
        rcases hunread with hsame | ⟨response, hread⟩
        · exact hsame ▸ hstands.unread
        · have hall := hstands.unread
          rw [hread] at hall
          exact hall.read_nil.2
      have hspan : taken.span = session.span := congrArg ClientEnd.span hhandled.clientEnd
      have hposition : taken.position = position :=
        (congrArg ClientEnd.position hhandled.clientEnd).trans h.counted.counted
      have hkept : taken.history = some (ideal.entered session.span.start.toNat ++
          ideal.hidden model call session.span.start.toNat) :=
        congrArg ClientEnd.history hhandled.clientEnd
      have hopen : taken.closed = false :=
        (congrArg ClientEnd.closed hhandled.clientEnd).trans hclosed
      have hinside := h.counted.within.idealBegun.congr hhandled.clientEnd
      have hgood : ∀ count, count = position → ServerInferenceSession.Good model ideal maxLength
          position False { taken with unread := unread, alive := alive, position := count } := by
        rintro _ rfl
        refine ⟨⟨⟨hinside.nonneg, hinside.lt, hinside.le⟩, rfl,
          fun _ => congrArg ClientEnd.stepped hhandled.clientEnd, fun _ => hopen⟩, ?_,
          ⟨hstands.level, hleft, nofun⟩⟩
        dsimp only
        rw [hkept, hspan, hnone, List.append_nil]
        rfl
      rw [idealStep_open h.counted hentered hhistory hclosed]
      dsimp only
      split
      · rw [hsession]
        exact hgood _ (by rw [hzero, Nat.add_zero])
      · rw [hsession]
        exact hgood _ hposition

end ServerInferenceSession
end Peerz.Client
