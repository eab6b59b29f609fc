import Peerz.Client.Attempts

/-! Attempts that leave no trace in a session: no server session counts anything, whatever
pushes servers take and whichever sessions are replaced. -/
namespace Peerz.Client
open Library Server

variable {PeerID Token Cache : Type} {model : BlockModel Token Cache}
  {ideal : Ideal Token Cache}

/-- The session has counted the inputs of the ideal session, or it replaces one that has and has
counted none. -/
def ServerInferenceSession.Clean (ideal : Ideal Token Cache) (position : Nat)
    (session : ServerInferenceSession PeerID Token Cache) : Prop :=
  session.position = position ∧
      session.history.getD [] = ideal.entered session.span.start.toNat ∨
    session.position = 0 ∧ (session.history.getD [] = [] ∨
      session.history.getD [] = ideal.entered session.span.start.toNat)

namespace InferenceSession

/-- No session has been replaced or closed since the first step. -/
def Intact (session : InferenceSession PeerID Token Cache) : Prop :=
  ∀ serverSession ∈ session.serverSessions, serverSession.position = session.position ∧
    (0 < session.position → serverSession.closed = false)

/-- The session counts the inputs of the ideal session only, and where it is intact it is ready
for the next step. -/
structure Clean (model : BlockModel Token Cache) (ideal : Ideal Token Cache)
    (session : InferenceSession PeerID Token Cache) : Prop where
  entered : ∀ block, (ideal.entered block).length = session.position
  chained : Chained True model session
  sessions : ∀ serverSession ∈ session.serverSessions,
    serverSession.Clean ideal session.position ∧
      (serverSession.stepped = false → serverSession.position = 0)
  good : session.Intact → session.Good model ideal False

variable [Add Token]

structure Resting (model : BlockModel Token Cache) (ideal : Ideal Token Cache)
    (loop : Loop PeerID Token Cache) : Prop where
  clean : loop.session.Clean model ideal
  nextStepId : loop.session.nextStepId = loop.stepId + 1
  bounded : loop.session.position ≤ loop.session.maxLength
  located : loop.blockIdx < model.numBlocks →
    Located loop.session loop.serverIdx loop.blockIdx

section good
variable {session next : InferenceSession PeerID Token Cache} {call : StepCall Token} {stepId : Nat}

theorem Good.joined (h : Good model ideal False session) (hempty : call.inputs = [])
    (hnext : session.nextStepId = stepId + 1) :
    Joined model ideal call session.maxLength session.position False stepId session := by
  refine ⟨h.chained, hnext, fun serverSession hmem => ?_, fun push hmem => ?_⟩
  · have hgood := h.sessions serverSession hmem
    refine ⟨hgood.counted.within, fun id hid => ?_, fun _ => hgood.stands.level⟩
    have := h.processed serverSession hmem id hid
    omega
  · obtain ⟨haddressed, id, hlt, hid, hstale⟩ := h.pushes push hmem
    exact ⟨haddressed, id, by omega, hid, fun _ _ => hempty, .inl hstale⟩

theorem Joined.good {maxLength position : Nat}
    (h : Joined model ideal call maxLength position False stepId session)
    (hempty : call.inputs = []) (hentered : ∀ block, (ideal.entered block).length = session.position)
    (hzero : session.position = 0 → ideal = .new model)
    (hchain : session.serverSessions = [] → session.position = 0 ∨ model.numBlocks = 0)
    (hsessions : ∀ serverSession ∈ session.serverSessions,
      serverSession.Good model ideal session.maxLength session.position False) :
    Good model ideal False session := by
  have hnext := h.nextStepId
  refine ⟨hentered, hzero, h.chained, ?_, hsessions, fun serverSession hmem id hid => ?_,
    fun push hmem => ?_⟩
  · rcases h.chained.spans with hnil | hrow
    · refine (hchain hnil).imp (fun hstart => ⟨hnil, hstart⟩) fun hnone => ?_
      unfold SpansTile
      rw [hnil, hnone]
      rfl
    · exact .inr (hrow.tiles trivial)
  · have := (h.sound serverSession hmem).2.bounded id hid
    omega
  · obtain ⟨haddressed, id, hle, hid, -, hkind⟩ := h.pushes push hmem
    refine ⟨haddressed, id, by omega, hid, hkind.elim (fun hstale => hstale) fun hlast =>
      .inr ⟨not_false, ?_⟩⟩
    exact hlast.2.2.trans (Ideal.hidden_eq_nil hempty _)

omit [Add Token] in
theorem Good.chain_empty (h : Good model ideal False session)
    (hnil : session.serverSessions = []) : session.position = 0 ∨ model.numBlocks = 0 := by
  refine h.chain.imp And.right fun htiles => ?_
  unfold SpansTile at htiles
  rw [hnil] at htiles
  have hend : (0 : Int) = model.numBlocks := htiles
  omega

private def noTokens : StepCall Token := ⟨[], 0, [], []⟩

omit [Add Token] in
theorem Good.callAt_noTokens (h : Good model ideal False session)
    (hbounded : session.position ≤ session.maxLength) :
    CallAt model ideal noTokens session.maxLength session.position :=
  ⟨h.entered, h.zero, ⟨.inl rfl, fun _ => by simp [noTokens]⟩, hbounded⟩

/-- A push that is left over changes nothing, wherever it is taken. -/
theorem Good.takePush (h : Good model ideal False session)
    (hnext : session.nextStepId = stepId + 1) (hbounded : session.position ≤ session.maxLength)
    (i : Nat) : Good model ideal False (session.takePush i) := by
  have hjoined : Joined model ideal noTokens session.maxLength session.position False stepId
    session := h.joined rfl hnext
  have hfits : ∀ push, session.pushes[i]? = some push → session.Fits False noTokens push := by
    intro push hpush
    obtain ⟨-, id, -, hid, hprocessed | hempty⟩ := h.pushes push (List.mem_of_getElem? hpush)
    · exact .inl fun serverSession hmem hserver =>
        .inl ⟨id, hprocessed serverSession hmem hserver, hid⟩
    · exact .inr hempty
  obtain ⟨htaken, next, hsessions, hhandled⟩ :=
    hjoined.takePush (h.callAt_noTokens hbounded) hfits
  obtain ⟨serverSessions, pushes, hframe⟩ := session.takePush_frame i
  have hposition : (session.takePush i).position = session.position := by rw [hframe]
  have hlimit : (session.takePush i).maxLength = session.maxLength := by rw [hframe]
  refine htaken.good rfl ?_ ?_ ?_ ?_
  · rw [hposition]
    exact h.entered
  · rw [hposition]
    exact h.zero
  · rw [hposition, hsessions, List.map_eq_nil_iff]
    exact h.chain_empty
  · rw [hposition, hlimit, hsessions]
    refine List.forall_mem_map.mpr fun serverSession hmem => ?_
    have hgood := h.sessions serverSession hmem
    have hsame := (hhandled serverSession hmem).clientEnd
    have hspan : (next serverSession).span = serverSession.span := congrArg ClientEnd.span hsame
    have hhistory : (next serverSession).history = serverSession.history :=
      congrArg ClientEnd.history hsame
    refine ⟨hgood.counted.congr hsame, by rw [hspan, hhistory, hgood.history], ?_⟩
    exact (hhandled serverSession hmem).stands (.inr ⟨not_false, rfl, rfl, rfl⟩) hgood.stands

end good

/-! The pushes that servers take. -/

section taking
variable {session next : InferenceSession PeerID Token Cache} {stepId : Nat}

omit [Add Token] in
theorem Clean.congr_client {serverSession later : ServerInferenceSession PeerID Token Cache}
    {position : Nat} (h : serverSession.Clean ideal position)
    (hclient : later.clientEnd = serverSession.clientEnd) : later.Clean ideal position := by
  have hposition : later.position = serverSession.position := congrArg ClientEnd.position hclient
  have hhistory : later.history = serverSession.history := congrArg ClientEnd.history hclient
  have hspan : later.span = serverSession.span := congrArg ClientEnd.span hclient
  unfold ServerInferenceSession.Clean
  rwa [hposition, hhistory, hspan]

theorem Clean.takePush (h : session.Clean model ideal) (hnext : session.nextStepId = stepId + 1)
    (hbounded : session.position ≤ session.maxLength) (i : Nat) :
    (session.takePush i).Clean model ideal := by
  have hclients := session.takePush_clientEnds i
  obtain ⟨serverSessions, pushes, hframe⟩ := session.takePush_frame i
  have hposition : (session.takePush i).position = session.position := by rw [hframe]
  have hearlier : ∀ later ∈ (session.takePush i).serverSessions,
      ∃ earlier ∈ session.serverSessions, later.clientEnd = earlier.clientEnd := by
    intro later hmem
    have hclient := List.mem_map_of_mem (f := ServerInferenceSession.clientEnd) hmem
    rw [hclients] at hclient
    obtain ⟨earlier, hearlier, hsame⟩ := List.mem_map.mp hclient
    exact ⟨earlier, hearlier, hsame.symm⟩
  have hlater : ∀ earlier ∈ session.serverSessions,
      ∃ later ∈ (session.takePush i).serverSessions, later.clientEnd = earlier.clientEnd := by
    intro earlier hmem
    have hclient := List.mem_map_of_mem (f := ServerInferenceSession.clientEnd) hmem
    rw [← hclients] at hclient
    exact List.mem_map.mp hclient
  refine ⟨hposition ▸ h.entered, h.chained.taken [i], fun later hmem => ?_, fun hintact => ?_⟩
  · obtain ⟨earlier, hold, hclient⟩ := hearlier later hmem
    obtain ⟨hclean, hsent⟩ := h.sessions earlier hold
    have hsteppedSame : later.stepped = earlier.stepped := congrArg ClientEnd.stepped hclient
    have hpositionSame : later.position = earlier.position := congrArg ClientEnd.position hclient
    rw [hposition, hsteppedSame, hpositionSame]
    exact ⟨Clean.congr_client hclean hclient, hsent⟩
  · refine (h.good fun earlier hmem => ?_).takePush hnext hbounded i
    obtain ⟨later, hlisted, hclient⟩ := hlater earlier hmem
    obtain ⟨hcounted, hopen⟩ := hintact later hlisted
    rw [hposition] at hcounted hopen
    exact ⟨(congrArg ClientEnd.position hclient).symm.trans hcounted,
      fun hpositive => (congrArg ClientEnd.closed hclient).symm.trans (hopen hpositive)⟩

theorem Clean.takePushes (h : session.Clean model ideal) (hnext : session.nextStepId = stepId + 1)
    (hbounded : session.position ≤ session.maxLength) (taken : List Nat) :
    (session.takePushes taken).Clean model ideal := by
  induction taken generalizing session with
  | nil => exact h
  | cons i taken ih =>
      obtain ⟨serverSessions, pushes, hframe⟩ := session.takePush_frame i
      refine @ih (session.takePush i) (h.takePush hnext hbounded i) ?_ ?_
      · rw [hframe]
        exact hnext
      · rw [hframe]
        exact hbounded

end taking

/-! An update of the chain. -/

section updating
variable {session : InferenceSession PeerID Token Cache} {stepId : Nat} {closeOk : Bool}
  {done tail : List (ServerInferenceSession PeerID Token Cache)}
  {spans : List (RemoteSpanInfo PeerID)} {blockIdx : Int}

omit [Add Token] in
theorem Good.relink {serverSession : ServerInferenceSession PeerID Token Cache}
    {maxLength position : Nat} (h : serverSession.Good model ideal maxLength position False)
    (nextSession : Option Nat) :
    ({ serverSession with nextSession := nextSession } :
      ServerInferenceSession PeerID Token Cache).Good model ideal maxLength position False := by
  obtain ⟨⟨hwithin, hcounted, hstepped, hopened⟩, hhistory, hstands⟩ := h
  exact ⟨⟨⟨hwithin.nonneg, hwithin.lt, hwithin.le⟩, hcounted, hstepped, hopened⟩, hhistory,
    ⟨hstands.level, hstands.unread, hstands.live⟩⟩

theorem Clean.closeHead (h : session.Clean model ideal) (hnext : session.nextStepId = stepId + 1)
    (hsessions : session.serverSessions = done ++ tail) :
    (InferenceSession.closeHead session done tail closeOk).Clean model ideal := by
  have hplaces : (InferenceSession.closeHead session done tail closeOk).serverSessions.map
      ServerInferenceSession.place = session.serverSessions.map ServerInferenceSession.place := by
    rw [closeHead_places, hsessions]
  refine ⟨h.entered, h.chained.congr hplaces.symm rfl, fun later hmem => ?_, fun hintact => ?_⟩
  · obtain ⟨earlier, hearlier, rfl | ⟨-, rfl⟩⟩ := mem_closeHead hsessions hmem
    · exact h.sessions later hearlier
    · obtain ⟨closed, serving, alive, hclose⟩ := close_frame earlier closeOk
      rw [hclose]
      exact h.sessions earlier hearlier
  · have hearlier : session.Intact := by
      intro earlier hmem
      rw [hsessions] at hmem
      have hstays : earlier ∈ (InferenceSession.closeHead session done tail
          closeOk).serverSessions ∨
          earlier.close closeOk ∈ (InferenceSession.closeHead session done tail
            closeOk).serverSessions := by
        unfold InferenceSession.closeHead
        rcases List.mem_append.mp hmem with hdone | htail
        · exact .inl (List.mem_append_left _ hdone)
        · cases tail with
          | nil => cases htail
          | cons failed rest =>
              rcases List.mem_cons.mp htail with rfl | hrest
              · exact .inr (by simp)
              · exact .inl (by simp [hrest])
      rcases hstays with hsame | hclosed
      · exact hintact earlier hsame
      · obtain ⟨hcounted, hopen⟩ := hintact _ hclosed
        unfold ServerInferenceSession.close at hcounted hopen
        split at hcounted
        · rename_i hraises
          rw [if_pos hraises] at hopen
          exact ⟨hcounted, hopen⟩
        · rename_i hcloses
          rw [if_neg hcloses] at hopen
          exact ⟨hcounted, fun hpositive => absurd (hopen hpositive) (by simp)⟩
    have hgood := h.good hearlier
    have hjoined : Joined model ideal noTokens session.maxLength session.position False stepId
      session := hgood.joined rfl hnext
    refine (hjoined.closeHead hsessions closeOk).good rfl h.entered hgood.zero (fun hnil => ?_)
      fun later hmem => ?_
    · refine hgood.chain_empty ?_
      rw [← List.map_eq_nil_iff (f := ServerInferenceSession.place), ← hplaces, hnil]
      rfl
    · have hopen := (hintact later hmem).2
      obtain ⟨earlier, hold, rfl | ⟨-, rfl⟩⟩ := mem_closeHead hsessions hmem
      · exact hgood.sessions later hold
      · obtain ⟨⟨hwithin, hcounted, hstepped, -⟩, hhistory, hstands⟩ := hgood.sessions earlier hold
        obtain ⟨closed, serving, alive, hclose⟩ := close_frame earlier closeOk
        rw [hclose] at hopen ⊢
        exact ⟨⟨⟨hwithin.nonneg, hwithin.lt, hwithin.le⟩, hcounted, hstepped, hopen⟩, hhistory,
          ⟨hstands.level, hstands.unread, nofun⟩⟩

omit [Add Token] in
theorem replacements_history {opened : ServerInferenceSession PeerID Token Cache}
    (hmem : opened ∈ replacements session tail model closeOk spans) :
    opened.position = 0 ∧ (opened.history = none ∨
      ∃ failed rest, tail = failed :: rest ∧ opened.history = failed.history ∧
        spans.head? = some opened.span) := by
  have hfresh : ∀ entered ∈ session.enterServerSessions model spans,
      entered.position = 0 ∧ entered.history = none := by
    intro entered hentered
    obtain ⟨span, -, rfl⟩ := List.mem_map.mp hentered
    exact ⟨rfl, rfl⟩
  have hspans := enterServerSessions_span model session spans
  cases hentered : session.enterServerSessions model spans with
  | nil =>
      unfold replacements at hmem
      rw [hentered] at hmem
      cases tail <;> cases hmem
  | cons head others =>
      rw [hentered] at hfresh hspans
      rw [replacements_eq closeOk hentered] at hmem
      rcases List.mem_cons.mp hmem with rfl | hother
      · refine ⟨(hfresh head List.mem_cons_self).1, ?_⟩
        cases tail with
        | nil => exact .inl (hfresh head List.mem_cons_self).2
        | cons failed rest =>
            refine .inr ⟨failed, rest, rfl, rfl, ?_⟩
            rw [← hspans]
            rfl
      · obtain ⟨hposition, hnone⟩ := hfresh opened (List.mem_cons_of_mem _ hother)
        exact ⟨hposition, .inl hnone⟩

theorem Good.installed (hgood : Good model ideal False session) (hzero : session.position = 0)
    (hnext : session.nextStepId = stepId + 1) (hsessions : session.serverSessions = done ++ tail)
    (hnonneg : 0 ≤ blockIdx) (hle : updateEnd tail model ≤ model.numBlocks)
    (htiles : Tiles RemoteSpanInfo.start RemoteSpanInfo.stop blockIdx spans (updateEnd tail model))
    (hchained : Chained True model (installed session done tail model closeOk spans)) :
    Good model ideal False (installed session done tail model closeOk spans) := by
  obtain rfl := hgood.zero hzero
  have hfresh : ∀ opened ∈ session.enterServerSessions model spans,
      opened.Good model (.new model) session.maxLength 0 False ∧ opened.processedStepIds = [] :=
    enterServerSessions_good hnonneg hle htiles
  have hjoined : Joined model (.new model) noTokens session.maxLength session.position False
    stepId session := hgood.joined rfl hnext
  rw [hzero] at hjoined
  refine (hjoined.installed hsessions hchained hfresh).good rfl hgood.entered (fun _ => rfl)
    (fun _ => .inl hzero) fun later hmem => ?_
  obtain ⟨earlier, nextSession, rfl, hold | hnew⟩ := mem_installed hsessions hmem
  · exact Good.relink (hgood.sessions earlier hold) nextSession
  · have hhistory := (replacements_history hnew).2
    obtain ⟨entered, hentered, history, rfl⟩ := mem_replacements hnew
    obtain ⟨⟨hwithin, hcounted, hstepped, hopen⟩, -, hstands⟩ := (hfresh entered hentered).1
    refine hzero ▸ ⟨⟨⟨hwithin.nonneg, hwithin.lt, hwithin.le⟩, hcounted, hstepped, hopen⟩, ?_,
      ⟨hstands.level, hstands.unread, hstands.live⟩⟩
    rcases hhistory with hnone | ⟨failed, rest, htail, hsame, -⟩
    · dsimp only at hnone ⊢
      rw [hnone]
      rfl
    · have hfailed := (hgood.sessions failed (by simp [hsessions, htail])).history
      dsimp only at hsame ⊢
      rw [hsame, hfailed]
      rfl

theorem Clean.installed (h : session.Clean model ideal) (hnext : session.nextStepId = stepId + 1)
    (hsessions : session.serverSessions = done ++ tail)
    (hstart : ∀ failed rest, tail = failed :: rest → failed.span.start = blockIdx)
    (hnonneg : 0 ≤ blockIdx) (hle : updateEnd tail model ≤ model.numBlocks)
    (htiles : Tiles RemoteSpanInfo.start RemoteSpanInfo.stop blockIdx spans (updateEnd tail model))
    (hne : spans ≠ [])
    (hchained : Chained True model (installed session done tail model closeOk spans)) :
    (InferenceSession.installed session done tail model closeOk spans).Clean model ideal := by
  refine ⟨h.entered, hchained, fun later hmem => ?_, fun hintact => ?_⟩
  · obtain ⟨earlier, nextSession, rfl, hold | hnew⟩ := mem_installed hsessions hmem
    · exact h.sessions earlier hold
    · obtain ⟨hzero, hhistory⟩ := replacements_history hnew
      refine ⟨.inr ⟨hzero, ?_⟩, fun _ => hzero⟩
      rcases hhistory with hnone | ⟨failed, rest, htail, hsame, hhead⟩
      · left
        dsimp only
        rw [hnone]
        rfl
      · have hfirst : earlier.span.start = failed.span.start := by
          rw [hstart failed rest htail]
          cases spans with
          | nil => cases hhead
          | cons first others =>
              cases hhead
              exact htiles.1
        have hclean := (h.sessions failed (by simp [hsessions, htail])).1
        dsimp only
        rw [hsame, hfirst]
        exact hclean.elim (fun hcounted => .inr hcounted.2) And.right
  · have hopened : ∃ opened, opened ∈ replacements session tail model closeOk spans := by
      refine List.exists_mem_of_length_pos ?_
      rw [replacements_length]
      exact List.length_pos_iff.mpr hne
    obtain ⟨opened, hopened⟩ := hopened
    have hzero : session.position = 0 := by
      obtain ⟨link, hlink⟩ := installed_eq session done tail model closeOk spans
      have hlisted : opened ∈ done ++ replacements session tail model closeOk spans ++ tail.tail :=
        List.mem_append_left _ (List.mem_append_right _ hopened)
      obtain ⟨i, hi, rfl⟩ := List.mem_iff_getElem.mp hlisted
      have hcounted := (hintact _ (hlink ▸ List.mem_mapIdx.mpr ⟨i, hi, rfl⟩)).1
      exact hcounted.symm.trans (replacements_history hopened).1
    have hgood : Good model ideal False session := by
      refine h.good fun earlier hmem => ⟨?_, fun hpositive => by omega⟩
      rw [hzero]
      exact (h.sessions earlier hmem).1.elim (fun hcounted => hcounted.1.trans hzero) And.left
    exact hgood.installed hzero hnext hsessions hnonneg hle htiles hchained

end updating

/-! The attempt. -/

section attempts
variable {config : ClientConfig} {call : StepCall Token} {loop : Loop PeerID Token Cache}
  {attempt : Attempt PeerID} {attempts : List (Attempt PeerID)}

theorem Resting.prepare (h : Resting model ideal loop) (hmore : loop.blockIdx < model.numBlocks)
    (hcontiguous : attempt.Contiguous model) : (loop.prepare model attempt).1.Clean model ideal := by
  have hclean := h.clean.takePushes h.nextStepId h.bounded attempt.taken
  have hlocated := (h.located hmore).congr (loop.session.takePushes_places attempt.taken).symm
  obtain ⟨serverSessions, pushes, hframe⟩ := loop.session.takePushes_frame attempt.taken
  have hnext : (loop.session.takePushes attempt.taken).nextStepId = loop.stepId + 1 := by
    rw [hframe]
    exact h.nextStepId
  unfold Loop.prepare
  generalize loop.session.takePushes attempt.taken = session at hclean hlocated hnext ⊢
  dsimp only
  split
  · obtain ⟨done, tail, hcut⟩ := hclean.chained.cut hlocated hmore
    rw [hcut.serverIdx]
    rcases updateSequence_cases session done tail model hcut.sessions loop.blockIdx attempt with
      ⟨hupdate, -⟩ | ⟨spans, -, -, hspans, hupdate⟩
    · rw [hupdate]
      exact hclean.closeHead hnext hcut.sessions
    · obtain ⟨hrow, hne⟩ := hcontiguous.reaches.truncateLast hcut.before.le hcut.le hcut.lt
        hcut.after.le hspans
      rw [hupdate]
      refine hclean.installed hnext hcut.sessions (fun failed rest htail => ?_) hcut.before.le
        hcut.after.le (hrow.tiles trivial) hne (hclean.chained.installed hcut hrow hne)
      subst htail
      have hcurrent : session.serverSessions[loop.serverIdx]? = some failed := by
        simp [hcut.sessions, hcut.serverIdx]
      rcases hlocated with ⟨hnil, -⟩ | ⟨current, hlisted, hstart⟩
      · simp [hcut.sessions] at hnil
      · cases hcurrent.symm.trans hlisted
        exact hstart
  · exact hclean

theorem Resting.attempted (h : Resting model ideal loop) (hmore : loop.blockIdx < model.numBlocks)
    (hcontiguous : attempt.Contiguous model)
    (hclean : (loop.attempt config model call attempt).1.session.Clean model ideal) :
    Resting model ideal (loop.attempt config model call attempt).1 := by
  obtain ⟨hsame, hid⟩ := loop.attempt_sameCall model config call attempt
  refine ⟨hclean, ?_, ?_, ?_⟩
  · rw [hsame.nextStepId, hid, h.nextStepId]
  · rw [hsame.position, hsame.maxLength]
    exact h.bounded
  · exact (h.clean.chained.attempted (h.located hmore) hmore hcontiguous.reaches).2

omit [Add Token] in
@[simp] theorem extendHistory_nil (session : ServerInferenceSession PeerID Token Cache) :
    session.extendHistory [] = session.history.getD [] := by
  unfold ServerInferenceSession.extendHistory
  cases session.history with
  | none => rfl
  | some history => simp

theorem step_empty_counts (session : ServerInferenceSession PeerID Token Cache)
    {inputs : List Token} (hinputs : inputs = []) (config : ClientConfig)
    (prompts : List (List Token)) (hypoIds : List Nat) (stepId : Nat)
    (nextServers : List (NextServer PeerID Nat)) (outcome : RequestOutcome) :
    let stepped := session.step config inputs prompts hypoIds stepId nextServers outcome
    stepped.session.position = session.position ∧
      stepped.session.history.getD [] = session.history.getD [] ∧
      stepped.session.closed = session.closed ∧
      (stepped.session.stepped = false → session.stepped = false) ∧
      ((session.stepped = false → session.position = 0) →
        ∀ outputs, stepped.outputs = some outputs → outputs = []) := by
  subst hinputs
  unfold ServerInferenceSession.step
  split
  · exact ⟨rfl, rfl, rfl, id, fun _ _ hnone => by cases hnone⟩
  · simp only [extendHistory_nil, List.length_nil, Nat.add_zero]
    split
    · rename_i hlength
      obtain ⟨request, hrequest⟩ : ∃ request, request =
        session.stepRequest config [] prompts hypoIds stepId nextServers := ⟨_, rfl⟩
      rw [← hrequest]
      have hclient := ServerInferenceSession.exchange_clientEnd
        { session with history := some (session.history.getD []), stepped := true } request outcome
      obtain ⟨answered, hanswered⟩ : ∃ answered, ServerInferenceSession.exchange
        { session with history := some (session.history.getD []), stepped := true } request
          outcome = answered := ⟨_, rfl⟩
      rw [hanswered] at hclient ⊢
      have hempty : (session.stepped = false → session.position = 0) →
          ∀ outputs, answered.outputs = some outputs → outputs = [] := by
        intro hsent outputs houtputs
        rw [← hanswered] at houtputs
        have hsize := (ServerInferenceSession.exchange_outputs houtputs).2
        refine List.length_eq_zero_iff.mp (hsize.trans ?_)
        rw [hrequest]
        unfold ServerInferenceSession.stepRequest
        cases hstepped : session.stepped with
        | true => rfl
        | false =>
            dsimp only
            rw [extendHistory_nil]
            exact hlength.trans (hsent hstepped)
      have hposition : answered.session.position = session.position :=
        congrArg ClientEnd.position hclient
      have hhistory : answered.session.history = some (session.history.getD []) :=
        congrArg ClientEnd.history hclient
      have hclosed : answered.session.closed = session.closed := congrArg ClientEnd.closed hclient
      have hstepped : answered.session.stepped = true := congrArg ClientEnd.stepped hclient
      split
      · exact ⟨rfl, by rw [hhistory]; rfl, hclosed, fun hfalse => by simp [hstepped] at hfalse,
          hempty⟩
      · exact ⟨hposition, by rw [hhistory]; rfl, hclosed, fun hfalse => by simp [hstepped] at hfalse,
          hempty⟩
    · exact ⟨rfl, rfl, rfl, id, fun _ _ hnone => by cases hnone⟩

section empty
variable (hcall : Prompted model call) (hempty : call.inputs = [])
include hcall hempty

theorem Clean.stepped (config : ClientConfig) {session : InferenceSession PeerID Token Cache}
    (h : session.Clean model ideal)
    (hnext : session.nextStepId = loop.stepId + 1)
    (hbounded : session.position ≤ session.maxLength) (hinputs : loop.inputs = [])
    {done rest : List (ServerInferenceSession PeerID Token Cache)}
    {current : ServerInferenceSession PeerID Token Cache}
    (hsessions : session.serverSessions = done ++ current :: rest) (outcome : RequestOutcome) :
    (session.stepped done rest (loop.request config call session current outcome)).Clean model
        ideal ∧
      ∀ outputs, (loop.request config call session current outcome).outputs = some outputs →
        outputs = [] := by
  have hmem : current ∈ session.serverSessions := by simp [hsessions]
  obtain ⟨hclean, hsent⟩ := h.sessions current hmem
  have hplace : (loop.request config call session current outcome).session.place =
      current.place := current.step_place ..
  have hspan : (loop.request config call session current outcome).session.span = current.span :=
    congrArg Prod.fst hplace
  obtain ⟨hposition, hhistory, hclosed, hstepped, hanswer⟩ := step_empty_counts current hinputs
    config (pySlice call.prompts current.span.start current.span.stop) call.hypoIds loop.stepId
    (session.nextServers current) outcome
  refine ⟨⟨h.entered, h.chained.congr (stepped_places hsessions hplace) rfl, ?_,
    fun hintact => ?_⟩, hanswer hsent⟩
  · refine forall_mem_replaced (hsessions ▸ h.sessions)
      ⟨?_, fun hfalse => hposition.trans (hsent (hstepped hfalse))⟩
    unfold ServerInferenceSession.Clean
    unfold Loop.request at hspan ⊢
    rw [hposition, hhistory, hspan]
    exact hclean
  · have hgood : Good model ideal False session := by
      obtain ⟨hcounted, hopen⟩ := hintact _ (List.mem_append_right _ List.mem_cons_self)
      refine h.good ?_
      unfold InferenceSession.Intact
      rw [hsessions]
      exact forall_mem_replaced hintact ⟨hposition.symm.trans hcounted,
        fun hpositive => hclosed.symm.trans (hopen hpositive)⟩
    have hcurrent := hgood.sessions current hmem
    have hat : CallAt model ideal call session.maxLength session.position :=
      ⟨h.entered, hgood.zero, hcall, by simpa [hempty] using hbounded⟩
    have hjoined : Joined model ideal call session.maxLength session.position False loop.stepId
      session := hgood.joined hempty hnext
    have hstep : current.idealStep config model ideal call loop.stepId (session.nextServers current)
        outcome = loop.request config call session current outcome := by
      unfold ServerInferenceSession.idealStep Loop.request
      rw [Ideal.hidden_eq_nil hempty, hinputs]
    have hafter := hcurrent.idealStep_empty (h.entered _) hcall hempty hbounded
      (hjoined.sound current hmem).2 config (session.nextServers current) outcome
    rw [hstep] at hafter
    refine (hjoined.stepped hat hsessions hcurrent.counted (hcurrent.counted.extendHistory
      hcurrent.history (h.entered _) _) hstep).good hempty h.entered hgood.zero (fun hnil => ?_)
      (forall_mem_replaced (hsessions ▸ hgood.sessions) hafter)
    simp [InferenceSession.stepped] at hnil

theorem Resting.attempt_empty (config : ClientConfig) (h : Resting model ideal loop)
    (hmore : loop.blockIdx < model.numBlocks) (hcontiguous : attempt.Contiguous model)
    (hinputs : loop.inputs = []) :
    Resting model ideal (loop.attempt config model call attempt).1 ∧
      (loop.attempt config model call attempt).1.inputs = [] := by
  have hclean := h.prepare hmore hcontiguous
  obtain ⟨hposition, hlimit, hnext⟩ := loop.prepare_sameCall model attempt
  have hbounded := h.bounded
  rw [← hposition, ← hlimit] at hbounded
  suffices hsuffices : (loop.attempt config model call attempt).1.session.Clean model ideal ∧
      (loop.attempt config model call attempt).1.inputs = [] from
    ⟨h.attempted hmore hcontiguous hsuffices.1, hsuffices.2⟩
  rcases loop.attempt_eq config model call attempt with
    ⟨-, hattempt⟩ | ⟨-, hattempt⟩ | ⟨done, current, rest, hsessions, -, hattempt⟩
  · rw [hattempt]
    exact ⟨hclean, hinputs⟩
  · rw [hattempt]
    exact ⟨hclean, hinputs⟩
  · obtain ⟨hstepped, hanswer⟩ := hclean.stepped hcall hempty config
      (hnext.trans h.nextStepId) hbounded hinputs hsessions attempt.request
    rw [hattempt]
    dsimp only
    cases houtputs : (loop.request config call (loop.prepare model attempt).1 current
        attempt.request).outputs with
    | none => exact ⟨hstepped, hinputs⟩
    | some outputs => exact ⟨hstepped, hanswer outputs houtputs⟩

theorem Resting.run_empty (config : ClientConfig) (h : Resting model ideal loop)
    (hinputs : loop.inputs = [])
    (hcontiguous : ∀ attempt ∈ attempts, attempt.Contiguous model) :
    (∀ raised, Loop.run config model call attempts loop = .raised raised →
      raised.Clean model ideal) ∧
    ∀ outputs next, Loop.run config model call attempts loop = .returned outputs next →
      outputs = [] ∧ next.Clean model ideal := by
  induction attempts generalizing loop with
  | nil =>
      by_cases hdone : model.numBlocks ≤ loop.blockIdx
      · rw [Loop.run_done hdone, hempty, hinputs]
        refine ⟨nofun, fun outputs next hreturned => ?_⟩
        cases hreturned
        exact ⟨rfl, h.clean⟩
      · rw [Loop.run_nil (by omega)]
        exact ⟨nofun, nofun⟩
  | cons attempt attempts ih =>
      by_cases hdone : model.numBlocks ≤ loop.blockIdx
      · rw [Loop.run_done hdone, hempty, hinputs]
        refine ⟨nofun, fun outputs next hreturned => ?_⟩
        cases hreturned
        exact ⟨rfl, h.clean⟩
      · obtain ⟨hfirst, hrest⟩ := List.forall_mem_cons.mp hcontiguous
        have hnext := h.attempt_empty hcall hempty config (by omega) hfirst hinputs
        cases hattempt : loop.attempt config model call attempt with
        | mk later continues =>
            rw [hattempt] at hnext
            rw [Loop.run_cons (by omega) hattempt]
            split
            · exact ih hnext.1 hnext.2 hrest
            · refine ⟨fun raised hraised => ?_, nofun⟩
              cases hraised
              exact hnext.1.clean

end empty

/-! Attempts that come to no session that takes the step. -/

theorem Resting.run_barred (Barred : Loop PeerID Token Cache → List (Attempt PeerID) → Prop)
    (hbarred : ∀ loop attempt attempts, Barred loop (attempt :: attempts) →
      loop.attempt config model call attempt =
          (loop.fail (loop.prepare model attempt).1, decide (loop.Continues config)) ∧
        (loop.Continues config → Barred (loop.fail (loop.prepare model attempt).1) attempts))
    (h : Resting model ideal loop) (hmore : loop.blockIdx < model.numBlocks)
    (hcontiguous : ∀ attempt ∈ attempts, attempt.Contiguous model) (hloop : Barred loop attempts) :
    (∀ raised, Loop.run config model call attempts loop = .raised raised →
      raised.Clean model ideal) ∧
    ∀ outputs next, Loop.run config model call attempts loop ≠ .returned outputs next := by
  induction attempts generalizing loop with
  | nil =>
      rw [Loop.run_nil hmore]
      exact ⟨nofun, nofun⟩
  | cons attempt attempts ih =>
      obtain ⟨hfirst, hrest⟩ := List.forall_mem_cons.mp hcontiguous
      obtain ⟨hattempt, hnext⟩ := hbarred loop attempt attempts hloop
      have hclean : (loop.attempt config model call attempt).1.session.Clean model ideal := by
        rw [hattempt]
        exact h.prepare hmore hfirst
      have hresting := h.attempted hmore hfirst hclean
      rw [hattempt] at hresting
      rw [Loop.run_cons hmore hattempt]
      split
      · rename_i hcontinues
        exact ih hresting hmore hrest (hnext (of_decide_eq_true hcontinues))
      · refine ⟨fun raised hraised => ?_, nofun⟩
        cases hraised
        exact hresting.clean

end attempts

/-- The session is closed, or at position 0, and its history keeps it, and whatever replaces it,
from stepping the inputs. -/
def Refuses (inputs : List Token) (session : ServerInferenceSession PeerID Token Cache) : Prop :=
  (session.closed = true ∨ session.position = 0) ∧ ∃ history, session.history = some history ∧
    history ≠ [] ∧ history.length ≠ inputs.length

def RefusedLoop (loop : Loop PeerID Token Cache) (_ : List (Attempt PeerID)) : Prop :=
  Stuck loop ∨ loop.attemptNo = 0 ∧ ∃ current,
    loop.session.serverSessions[loop.serverIdx]? = some current ∧ Refuses loop.inputs current

section refused
variable {config : ClientConfig} {call : StepCall Token} {loop : Loop PeerID Token Cache}
  {attempt : Attempt PeerID} {current : ServerInferenceSession PeerID Token Cache}

theorem attempt_refused (hfirst : loop.attemptNo = 0)
    (hcurrent : loop.session.serverSessions[loop.serverIdx]? = some current)
    (hrefuses : Refuses loop.inputs current) :
    loop.attempt config model call attempt =
        (loop.fail (loop.prepare model attempt).1, decide (loop.Continues config)) ∧
      Stuck (loop.fail (loop.prepare model attempt).1) := by
  have hlisted : (loop.session.takePushes attempt.taken).serverSessions ≠ [] := by
    rw [Ne, loop.session.takePushes_eq_nil]
    intro hnil
    simp [hnil] at hcurrent
  have hprepare : loop.prepare model attempt = (loop.session.takePushes attempt.taken, true) :=
    if_neg (not_or.mpr ⟨hlisted, by omega⟩)
  have hclients := loop.session.takePushes_clientEnds attempt.taken
  generalize loop.session.takePushes attempt.taken = session at hclients hprepare
  have hthere := congrArg (·[loop.serverIdx]?) hclients
  simp only [List.getElem?_map, hcurrent, Option.map_some] at hthere
  obtain ⟨later, hlater, hclient⟩ := Option.map_eq_some_iff.mp hthere
  obtain ⟨hunable, history, hhistory, hne, hlength⟩ := hrefuses
  have hkept : later.history = some history := (congrArg ClientEnd.history hclient).trans hhistory
  have hstill : later.closed = true ∨ later.position = 0 :=
    hunable.imp (fun hclosed => (congrArg ClientEnd.closed hclient).trans hclosed)
      fun hzero => (congrArg ClientEnd.position hclient).trans hzero
  obtain ⟨hlt, hget⟩ := List.getElem?_eq_some_iff.mp hlater
  have hsplit : session.serverSessions = session.serverSessions.take loop.serverIdx ++
      later :: session.serverSessions.drop (loop.serverIdx + 1) := by
    rw [← hget, List.getElem_cons_drop, List.take_append_drop]
  have hattempt := Loop.attempt_prepared config call hprepare hsplit
    (List.length_take_of_le hlt.le).symm
  rw [hprepare]
  refine ⟨hattempt.trans ?_, Nat.le_add_left 1 _, later, history, hlater, hkept, hne, hlength⟩
  unfold Loop.request
  rw [step_refused hstill hkept hne hlength]
  dsimp only
  rw [stepped_self hsplit]

end refused

end InferenceSession

/-- The attempt opens no session from the one block to the other. -/
def Attempt.Blocked (attempt : Attempt PeerID) (first last : Int) : Prop :=
  attempt.makeSequence first last = none ∨ attempt.makeSequence first last = some [] ∨
    attempt.sessionsOpen = false

namespace InferenceSession

structure Unreaching (config : ClientConfig) (model : BlockModel Token Cache)
    (loop : Loop PeerID Token Cache) (attempts : List (Attempt PeerID)) : Prop where
  serverIdx : loop.serverIdx = 0
  blockIdx : loop.blockIdx = 0
  closed : ∀ current ∈ loop.session.serverSessions.head?, current.closed = true
  limit : ∀ limit, config.maxRetries = some (limit + 1) → loop.attemptNo ≤ limit
  blocked : ∀ i attempt, attempts[i]? = some attempt →
    (∀ limit, config.maxRetries = some (limit + 1) → loop.attemptNo + i ≤ limit) →
    loop.session.serverSessions = [] ∨ 1 ≤ loop.attemptNo + i →
    attempt.Blocked 0 (updateEnd loop.session.serverSessions model)

section unreached
variable [Add Token] {config : ClientConfig} {loop : Loop PeerID Token Cache}
  {attempt : Attempt PeerID} {attempts : List (Attempt PeerID)}

omit [Add Token] in
theorem updateEnd_congr {tail other : List (ServerInferenceSession PeerID Token Cache)}
    (h : tail.head?.map (fun current => current.span) = other.head?.map fun current => current.span) :
    updateEnd tail model = updateEnd other model := by
  have hstop := congrArg (Option.map fun span : RemoteSpanInfo PeerID => span.stop) h
  rw [Option.map_map, Option.map_map] at hstop
  exact congrArg (·.getD (model.numBlocks : Int)) hstop

omit [Add Token] in
theorem head_closed_congr {tail other : List (ServerInferenceSession PeerID Token Cache)}
    (h : tail.head?.map ServerInferenceSession.clientEnd =
      other.head?.map ServerInferenceSession.clientEnd)
    (hclosed : ∀ current ∈ other.head?, current.closed = true) :
    ∀ current ∈ tail.head?, current.closed = true := by
  intro current hmem
  rw [hmem] at h
  obtain ⟨first, hfirst, hclient⟩ := Option.map_eq_some_iff.mp h.symm
  exact (congrArg ClientEnd.closed hclient).symm.trans (hclosed first hfirst)

omit [Add Token] in
theorem closeHead_head_closed {session : InferenceSession PeerID Token Cache} {closeOk : Bool}
    (hclosed : ∀ current ∈ session.serverSessions.head?, current.closed = true) :
    ∀ current ∈ (closeHead session [] session.serverSessions closeOk).serverSessions.head?,
      current.closed = true := by
  intro current hmem
  unfold InferenceSession.closeHead at hmem
  cases hsessions : session.serverSessions with
  | nil => simp [hsessions] at hmem
  | cons head rest =>
      rw [hsessions] at hmem hclosed
      cases hmem
      unfold ServerInferenceSession.close
      dsimp only
      split
      · exact hclosed head rfl
      · rfl

omit [Add Token] in
theorem closeHead_updateEnd (session : InferenceSession PeerID Token Cache) (closeOk : Bool) :
    updateEnd (closeHead session [] session.serverSessions closeOk).serverSessions model =
      updateEnd session.serverSessions model := by
  refine updateEnd_congr ?_
  unfold InferenceSession.closeHead
  cases session.serverSessions with
  | nil => rfl
  | cons head rest =>
      obtain ⟨closed, serving, alive, hclose⟩ := close_frame head closeOk
      simp [hclose]

theorem Unreaching.prepared (h : Unreaching config model loop (attempt :: attempts))
    (call : StepCall Token) :
    loop.attempt config model call attempt =
        (loop.fail (loop.prepare model attempt).1, decide (loop.Continues config)) ∧
      (∀ current ∈ (loop.prepare model attempt).1.serverSessions.head?,
        current.closed = true) ∧
      updateEnd (loop.prepare model attempt).1.serverSessions model =
        updateEnd loop.session.serverSessions model := by
  have hclients := congrArg List.head? (loop.session.takePushes_clientEnds attempt.taken)
  have hempty := loop.session.takePushes_eq_nil attempt.taken
  rw [List.head?_map, List.head?_map] at hclients
  have hclosed := head_closed_congr hclients h.closed
  have hspans := congrArg (Option.map fun client : ClientEnd PeerID Token => client.span) hclients
  rw [Option.map_map, Option.map_map] at hspans
  by_cases hneed : (loop.session.takePushes attempt.taken).serverSessions = [] ∨
    1 ≤ loop.attemptNo
  · have hprepare : loop.prepare model attempt =
        (loop.session.takePushes attempt.taken).updateSequence model
          ([] : List (ServerInferenceSession PeerID Token Cache)).length 0 attempt := by
      refine (if_pos hneed).trans ?_
      rw [h.serverIdx, h.blockIdx]
      rfl
    have hroute := h.blocked 0 attempt rfl h.limit (hneed.imp_left hempty.mp)
    rw [← updateEnd_congr hspans] at hroute
    generalize loop.session.takePushes attempt.taken = session at hprepare hclosed hspans hroute
    rcases updateSequence_cases session [] session.serverSessions model rfl 0 attempt with
      ⟨hupdate, -⟩ | ⟨spans, hne, hopen, hspans, -⟩
    · rw [hprepare.trans hupdate]
      exact ⟨Loop.attempt_unprepared config call (hprepare.trans hupdate),
        closeHead_head_closed hclosed, (closeHead_updateEnd session _).trans
          (updateEnd_congr hspans)⟩
    · rcases hroute with hnone | hnil | hclosed
      · cases hnone.symm.trans hspans
      · exact absurd (Option.some.inj (hspans.symm.trans hnil)) hne
      · cases hclosed.symm.trans hopen
  · have hprepare : loop.prepare model attempt = (loop.session.takePushes attempt.taken, true) :=
      if_neg hneed
    have hchain := (not_or.mp hneed).1
    rw [hprepare]
    generalize loop.session.takePushes attempt.taken = session
      at hprepare hclosed hspans hchain ⊢
    obtain ⟨current, rest, hsessions⟩ := List.exists_cons_of_ne_nil hchain
    have hcurrent : current.closed = true := hclosed current (by rw [hsessions]; rfl)
    have hattempt := Loop.attempt_prepared config call hprepare
      (show session.serverSessions = [] ++ current :: rest from hsessions) h.serverIdx
    refine ⟨hattempt.trans ?_, hclosed, updateEnd_congr hspans⟩
    unfold Loop.request
    rw [ServerInferenceSession.step_closed hcurrent]
    dsimp only
    rw [stepped_self hsessions]

theorem Unreaching.next (h : Unreaching config model loop (attempt :: attempts))
    (hcontinues : loop.Continues config) :
    Unreaching config model (loop.fail (loop.prepare model attempt).1) attempts := by
  obtain ⟨-, hclosed, hend⟩ := h.prepared noTokens
  refine ⟨h.serverIdx, h.blockIdx, hclosed, fun limit hmax => ?_, fun i other hget hmade hneed => ?_⟩
  · have hle := h.limit limit hmax
    have hne : config.maxRetries ≠ some (loop.attemptNo + 1) := hcontinues
    rw [hmax] at hne
    by_contra hlarge
    refine hne (congrArg some ?_)
    change ¬ loop.attemptNo + 1 ≤ limit at hlarge
    omega
  · change other.Blocked 0 (updateEnd (loop.prepare model attempt).1.serverSessions model)
    rw [hend]
    refine h.blocked (i + 1) other hget (fun limit hmax => ?_) (.inr (by omega))
    have hmade := hmade limit hmax
    change loop.attemptNo + 1 + i ≤ limit at hmade
    omega

end unreached
end InferenceSession
end Peerz.Client
