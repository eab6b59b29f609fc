import Peerz.Client.ServerSteps

/-! The pushes on their way between the servers of a session. Each leads on along the chain, and
brings the hidden states of the step, or comes too late, or brings none. -/
namespace Peerz.Client
open Library Server

variable {PeerID Token Cache : Type} {model : BlockModel Token Cache} {strict : Prop}

/-- The servers are those of blocks that follow each other from the given one on. -/
def Onward : Nat → List (NextServer PeerID Nat) → Prop
  | _, [] => True
  | block, hop :: hops => hop.start = block ∧ Onward hop.stop hops

namespace InferenceSession

section pushes
variable (session : InferenceSession PeerID Token Cache)

/-- A listed session of that id has those blocks, and no later session gets the id. -/
structure Names (hop : NextServer PeerID Nat) : Prop where
  fresh : hop.sessionId < session.nextSessionId
  span : ∀ serverSession ∈ session.serverSessions, serverSession.sessionId = hop.sessionId →
    serverSession.span.start.toNat = hop.start ∧ serverSession.span.stop.toNat = hop.stop

structure Addressed (push : Push PeerID Token) : Prop where
  server : session.Names push.1
  later : ∀ hop ∈ push.2.metadata.nextServers, session.Names hop
  onward : Onward push.1.stop push.2.metadata.nextServers

/-- The server of the push has processed its step. Unless `strict`, a push without tokens will do. -/
def Stale (strict : Prop) (id : Nat) (push : Push PeerID Token) : Prop :=
  (∀ serverSession ∈ session.serverSessions, serverSession.sessionId = push.1.sessionId →
    id ∈ serverSession.processedStepIds) ∨
  ¬ strict ∧ push.2.tensors.hiddenStates = []

def LeftOver (strict : Prop) (push : Push PeerID Token) : Prop :=
  session.Addressed push ∧
    ∃ id < session.nextStepId, push.2.metadata.stepId = some id ∧ session.Stale strict id push

variable [Add Token]

/-- A push during a call: it is stale, or brings what enters the first block of its server. -/
def Underway (model : BlockModel Token Cache) (ideal : Ideal Token Cache) (strict : Prop)
    (call : StepCall Token) (stepId : Nat) (push : Push PeerID Token) : Prop :=
  session.Addressed push ∧ ∃ id ≤ stepId, push.2.metadata.stepId = some id ∧
    (id = stepId → push.2.tensors.hiddenStates = [] → call.inputs = []) ∧
    (session.Stale strict id push ∨
      id = stepId ∧ call.prompts = [] ∧
        push.2.tensors.hiddenStates = ideal.hidden model call push.1.start)

omit [Add Token] in
/-- A server that takes the push has processed its step, or it gets the prompts and the hypothesis
ids of the call, as far as the step needs them. -/
def Agrees (call : StepCall Token) (push : Push PeerID Token) : Prop :=
  ∀ serverSession ∈ session.serverSessions, serverSession.sessionId = push.1.sessionId →
    (∃ id ∈ serverSession.processedStepIds, push.2.metadata.stepId = some id) ∨
      push.2.tensors.prompts.all List.isEmpty = true ∧
        (push.2.tensors.hiddenStates = [] ∨ push.2.tensors.hypoIds = call.hypoIds)

omit [Add Token] in
def Fits (strict : Prop) (call : StepCall Token) (push : Push PeerID Token) : Prop :=
  session.Agrees call push ∨ ¬ strict ∧ push.2.tensors.hiddenStates = []

end pushes

/-- Sessions stay as they are but for the steps they process, or are new. -/
structure Grows (session next : InferenceSession PeerID Token Cache) : Prop where
  fresh : session.nextSessionId ≤ next.nextSessionId
  sessions : ∀ later ∈ next.serverSessions, session.nextSessionId ≤ later.sessionId ∨
    ∃ earlier ∈ session.serverSessions, later.sessionId = earlier.sessionId ∧
      later.span = earlier.span ∧ ∀ id ∈ earlier.processedStepIds, id ∈ later.processedStepIds

section growing
variable {session next : InferenceSession PeerID Token Cache} {push : Push PeerID Token}

theorem Names.grows {hop : NextServer PeerID Nat} (h : session.Names hop)
    (hgrows : session.Grows next) : next.Names hop := by
  have hfresh := h.fresh
  refine ⟨Nat.lt_of_lt_of_le hfresh hgrows.fresh, fun later hlater hid => ?_⟩
  rcases hgrows.sessions later hlater with hnew | ⟨earlier, hearlier, hsame, hspan, -⟩
  · omega
  · rw [hspan]
    exact h.span earlier hearlier (hsame.symm.trans hid)

theorem Addressed.grows (h : session.Addressed push) (hgrows : session.Grows next) :
    next.Addressed push :=
  ⟨h.server.grows hgrows, fun hop hmem => (h.later hop hmem).grows hgrows, h.onward⟩

theorem Stale.grows {id : Nat} (h : session.Stale strict id push)
    (hserver : session.Names push.1) (hgrows : session.Grows next) :
    next.Stale strict id push := by
  refine h.imp_left fun hprocessed later hlater hid => ?_
  have hfresh := hserver.fresh
  rcases hgrows.sessions later hlater with hnew | ⟨earlier, hearlier, hsame, -, hgrown⟩
  · omega
  · exact hgrown id (hprocessed earlier hearlier (hsame.symm.trans hid))

variable [Add Token] {ideal : Ideal Token Cache} {call : StepCall Token} {stepId : Nat}

theorem Underway.grows (h : session.Underway model ideal strict call stepId push)
    (hgrows : session.Grows next) : next.Underway model ideal strict call stepId push := by
  obtain ⟨haddressed, id, hle, hid, hnone, hkind⟩ := h
  exact ⟨haddressed.grows hgrows, id, hle, hid, hnone,
    hkind.imp_left fun hstale => hstale.grows haddressed.server hgrows⟩

end growing

/-! The servers that a client's request names. -/

section collecting
variable {session : InferenceSession PeerID Token Cache}

theorem Chained.unique (h : Chained strict model session)
    {left right : ServerInferenceSession PeerID Token Cache}
    (hleft : left ∈ session.serverSessions) (hright : right ∈ session.serverSessions)
    (hid : left.sessionId = right.sessionId) : left = right :=
  List.inj_on_of_nodup_map h.ids hleft hright hid

theorem Chained.adjoins (h : Chained strict model session)
    {current next : ServerInferenceSession PeerID Token Cache}
    (hcurrent : current ∈ session.serverSessions) (hnext : next ∈ session.serverSessions)
    (hlink : current.nextSession = some next.sessionId) :
    next.span.start = current.span.stop := by
  obtain ⟨i, hi⟩ := List.getElem?_of_mem hcurrent
  obtain ⟨done, rest, hcut⟩ := h.split hi
  have hafter := h.links i current hi
  rw [hlink, hcut.sessions, hcut.serverIdx, List.getElem?_append_right (by omega),
    show done.length + 1 - done.length = 0 + 1 by omega, List.getElem?_cons_succ] at hafter
  obtain ⟨linked, hlinked, hid⟩ := Option.map_eq_some_iff.mp hafter.symm
  cases rest with
  | nil => cases hlinked
  | cons first rest =>
      cases hlinked
      have hmem : linked ∈ session.serverSessions := by
        rw [hcut.sessions]
        simp
      rw [← h.unique hmem hnext hid]
      exact hcut.after.1

theorem Chained.collected (h : Chained strict model session) (steps : Nat) (link : Option Nat)
    (block : Int) (hlink : ∀ next ∈ session.serverSessions, link = some next.sessionId →
      next.span.start = block) :
    (∀ hop ∈ collectNextServers session.serverSessions steps link, session.Names hop) ∧
      Onward block.toNat (collectNextServers session.serverSessions steps link) := by
  induction steps generalizing link block with
  | zero =>
      cases link <;> exact ⟨fun _ hmem => absurd hmem List.not_mem_nil, trivial⟩
  | succ steps ih =>
      cases link with
      | none => exact ⟨fun _ hmem => absurd hmem List.not_mem_nil, trivial⟩
      | some sessionId =>
          unfold collectNextServers
          split
          · rename_i found hfound
            have hmem := List.mem_of_find?_eq_some hfound
            have hid : found.sessionId = sessionId := by simpa using List.find?_some hfound
            split
            · obtain ⟨hnames, honward⟩ := ih found.nextSession found.span.stop
                fun next hnext hnextLink => h.adjoins hmem hnext hnextLink
              refine ⟨List.forall_mem_cons.mpr ⟨⟨h.fresh found hmem, ?_⟩, hnames⟩, ?_, honward⟩
              · intro serverSession hserver hsame
                rw [h.unique hserver hmem hsame]
                exact ⟨rfl, rfl⟩
              · exact congrArg Int.toNat (hlink found hmem (congrArg some hid.symm))
            · exact ⟨fun _ hnone => absurd hnone List.not_mem_nil, trivial⟩
          · exact ⟨fun _ hnone => absurd hnone List.not_mem_nil, trivial⟩

end collecting

/-! A server takes a push. -/

section taking
variable [Add Token] {ideal : Ideal Token Cache} {call : StepCall Token}
  {maxLength position stepId : Nat} {session : InferenceSession PeerID Token Cache}
  {push : Push PeerID Token}

theorem Underway.welcome (h : session.Underway model ideal strict call stepId push)
    (hfits : session.Fits strict call push)
    {serverSession : ServerInferenceSession PeerID Token Cache}
    (hmem : serverSession ∈ session.serverSessions)
    (hserver : serverSession.sessionId = push.1.sessionId) :
    serverSession.Welcome model ideal strict call stepId push.2 := by
  obtain ⟨haddressed, id, hle, hid, hinputs,
    (hprocessed | ⟨hlax, hempty⟩) | ⟨rfl, hnone, hhidden⟩⟩ := h
  · exact .late hid (hprocessed serverSession hmem hserver)
  · exact .empty hid hle hlax hempty fun hsame => hinputs hsame hempty
  · have hstart := (haddressed.server.span serverSession hmem hserver).1
    rcases hfits with hagrees | ⟨hlax, hempty⟩
    · rcases hagrees serverSession hmem hserver with ⟨other, hother, hsame⟩ | ⟨hdummy, hhypo⟩
      · exact .late hsame hother
      · refine .right hid (fun server => ?_) fun _ => hnone
        refine process_congr server ?_ hdummy ?_ hhypo
        · exact hhidden.trans (congrArg (ideal.hidden model call) hstart.symm)
        · unfold idealTensors
          simp [hnone, pySlice]
    · exact .empty hid le_rfl hlax hempty fun _ => hinputs rfl hempty

variable (hcall : Prompted model call) (hlength : position + call.inputs.length ≤ maxLength)
include hcall hlength

/-- What the server pushes in turn is underway as well. -/
theorem Underway.handled (h : session.Underway model ideal strict call stepId push)
    (hfits : session.Fits strict call push)
    {serverSession : ServerInferenceSession PeerID Token Cache}
    (hmem : serverSession ∈ session.serverSessions)
    (hserver : serverSession.sessionId = push.1.sessionId)
    (hwithin : serverSession.Within model)
    (hsound : serverSession.Sound model ideal maxLength position stepId)
    {later : Push PeerID Token} (hlater : later ∈ (serverSession.handle push.2).pushes) :
    session.Underway model ideal strict call stepId later := by
  obtain ⟨hsame, hnext, hkind⟩ := (h.welcome hfits hmem hserver).pushes hsound hwithin hcall hlength
    hlater
  obtain ⟨haddressed, id, hle, hid, hinputs, hsource⟩ := h
  have hnames := haddressed.later
  have honward := haddressed.onward
  rw [hnext] at hnames honward
  obtain ⟨hfirst, hrest⟩ := List.forall_mem_cons.mp hnames
  refine ⟨⟨hfirst, hrest, honward.2⟩, id, hle, hsame.trans hid, ?_⟩
  rcases hkind with ⟨hlax, hempty, hnone⟩ | ⟨hstep, hnone, hhidden⟩
  · refine ⟨fun hlast _ => hnone ?_, .inl (.inr ⟨hlax, hempty⟩)⟩
    rw [hsame, hid, hlast]
  · have hstop := (haddressed.server.span serverSession hmem hserver).2
    refine ⟨fun _ hempty => ?_, .inr ⟨?_, hnone, ?_⟩⟩
    · rw [hhidden, ← List.length_eq_zero_iff, Ideal.hidden_length] at hempty
      exact List.length_eq_zero_iff.mp hempty
    · exact Option.some.inj (hid.symm.trans (hsame.symm.trans hstep))
    · rw [hhidden, hstop, honward.1]

/-- A push that a server takes changes the server's end as a request may, and no more. -/
theorem takePush_underway (i : Nat)
    (hready : ∀ serverSession ∈ session.serverSessions, serverSession.Within model ∧
      serverSession.Sound model ideal maxLength position stepId)
    (h : ∀ push ∈ session.pushes, session.Underway model ideal strict call stepId push)
    (hfits : ∀ push, session.pushes[i]? = some push → session.Fits strict call push) :
    (∃ next, (session.takePush i).serverSessions = session.serverSessions.map next ∧
      ∀ serverSession ∈ session.serverSessions,
        serverSession.Handled model ideal maxLength position strict call stepId
          (next serverSession)) ∧
    ∀ push ∈ (session.takePush i).pushes,
      (session.takePush i).Underway model ideal strict call stepId push := by
  unfold takePush
  split
  · exact ⟨⟨id, (List.map_id _).symm, fun serverSession _ => .late serverSession.opening⟩, h⟩
  · rename_i push hpush
    have hunderway := h push (List.mem_of_getElem? hpush)
    have hhandled : ∀ serverSession ∈ session.serverSessions,
        serverSession.Handled model ideal maxLength position strict call stepId
          (serverSession.takePush push).session := by
      intro serverSession hmem
      unfold ServerInferenceSession.takePush
      split
      · rename_i hopen
        obtain ⟨hwithin, hsound⟩ := hready serverSession hmem
        exact (hunderway.welcome (hfits push hpush) hmem hopen.1).handled hsound hwithin hcall
          hlength
      · exact .late serverSession.opening
    refine ⟨⟨_, rfl, hhandled⟩, fun later hlater => ?_⟩
    have hbefore : session.Underway model ideal strict call stepId later := by
      rcases List.mem_append.mp hlater with hold | hnew
      · exact h later (List.mem_of_mem_eraseIdx hold)
      · obtain ⟨serverSession, hmem, hpushed⟩ := List.mem_flatMap.mp hnew
        obtain ⟨hwithin, hsound⟩ := hready serverSession hmem
        unfold ServerInferenceSession.takePush at hpushed
        split at hpushed
        · rename_i hopen
          exact hunderway.handled hcall hlength (hfits push hpush) hmem hopen.1 hwithin hsound
            hpushed
        · cases hpushed
    refine hbefore.grows ⟨le_rfl, fun later hmem => .inr ?_⟩
    obtain ⟨earlier, hearlier, rfl⟩ := List.mem_map.mp hmem
    have hclient := (hhandled earlier hearlier).clientEnd
    exact ⟨earlier, hearlier, congrArg ClientEnd.sessionId hclient,
      congrArg ClientEnd.span hclient, fun _ => (hhandled earlier hearlier).processed⟩

end taking

end InferenceSession
end Peerz.Client
