import Peerz.Client.RetryLoop

/-! One attempt of the retry loop, which advances to the next server or fails, and the runs of
the loop. -/
namespace Peerz.Client
open Library Server

variable {PeerID Token Cache : Type} [Add Token] {model : BlockModel Token Cache}

def Attempt.Opens (model : BlockModel Token Cache) (attempt : Attempt PeerID) : Prop :=
  attempt.sessionsOpen = true ∧ ∀ first last : Int, 0 ≤ first → first < last →
    last ≤ model.numBlocks → ∃ spans, attempt.makeSequence first last = some spans

omit [Add Token] in
theorem Attempt.Contiguous.ne_nil {attempt : Attempt PeerID} (h : attempt.Contiguous model)
    {first last : Int} (hfirst : 0 ≤ first) (hlt : first < last) (hlast : last ≤ model.numBlocks) :
    attempt.makeSequence first last ≠ some [] := by
  intro hnil
  obtain ⟨front, final, hspans, -⟩ := h first last [] hfirst hlt hlast hnil
  simp at hspans

namespace InferenceSession

def TakesAll (P : InferenceSession PeerID Token Cache → Push PeerID Token → Prop) :
    List Nat → InferenceSession PeerID Token Cache → Prop
  | [], _ => True
  | i :: taken, session =>
      (∀ push, session.pushes[i]? = some push → P session push) ∧
        TakesAll P taken (session.takePush i)

/-- What holds of the pushes that servers take while the loop runs. -/
def Loop.Takes (P : InferenceSession PeerID Token Cache → Push PeerID Token → Prop)
    (config : ClientConfig) (model : BlockModel Token Cache) (call : StepCall Token) :
    List (Attempt PeerID) → Loop PeerID Token Cache → Prop
  | [], _ => True
  | attempt :: attempts, loop =>
      loop.blockIdx < model.numBlocks →
        TakesAll P attempt.taken loop.session ∧
          ((loop.attempt config model call attempt).2 = true →
            Loop.Takes P config model call attempts (loop.attempt config model call attempt).1)

section takes
variable {P Q : InferenceSession PeerID Token Cache → Push PeerID Token → Prop}

theorem TakesAll.mono (hmono : ∀ session push, P session push → Q session push) {taken : List Nat}
    {session : InferenceSession PeerID Token Cache} (h : TakesAll P taken session) :
    TakesAll Q taken session := by
  induction taken generalizing session with
  | nil => trivial
  | cons i taken ih => exact ⟨fun push hpush => hmono _ _ (h.1 push hpush), ih h.2⟩

theorem Loop.Takes.mono (hmono : ∀ session push, P session push → Q session push)
    {config : ClientConfig} {call : StepCall Token} {attempts : List (Attempt PeerID)}
    {loop : Loop PeerID Token Cache} (h : loop.Takes P config model call attempts) :
    loop.Takes Q config model call attempts := by
  induction attempts generalizing loop with
  | nil => trivial
  | cons attempt attempts ih =>
      exact fun hmore => ⟨(h hmore).1.mono hmono, fun hcontinues => ih ((h hmore).2 hcontinues)⟩

theorem Loop.takes_of_none {config : ClientConfig} {call : StepCall Token}
    {attempts : List (Attempt PeerID)} (h : ∀ attempt ∈ attempts, attempt.taken = [])
    (loop : Loop PeerID Token Cache) : loop.Takes P config model call attempts := by
  induction attempts generalizing loop with
  | nil => trivial
  | cons attempt attempts ih =>
      obtain ⟨hfirst, hrest⟩ := List.forall_mem_cons.mp h
      exact fun _ => ⟨hfirst ▸ trivial, fun _ => ih hrest _⟩

end takes

section attempts
variable {config : ClientConfig} {ideal : Ideal Token Cache} {call : StepCall Token}
  {maxLength position : Nat} {strict : Prop} {loop next : Loop PeerID Token Cache}
  {done tail : List (ServerInferenceSession PeerID Token Cache)} {attempt : Attempt PeerID}

theorem LoopInv.takePushes (hcall : CallAt model ideal call maxLength position)
    (h : LoopInv model ideal call maxLength position strict loop done tail) {taken : List Nat}
    (hfits : loop.session.TakesAll (fun session push => session.Fits strict call push) taken) :
    ∃ done' tail', done'.length = done.length ∧ tail'.length = tail.length ∧
      LoopInv model ideal call maxLength position strict
        { loop with session := loop.session.takePushes taken } done' tail' := by
  induction taken generalizing loop done tail with
  | nil => exact ⟨done, tail, rfl, rfl, h⟩
  | cons i taken ih =>
      obtain ⟨hfirst, hrest⟩ := hfits
      obtain ⟨done', tail', hdone, htail, hnext⟩ := h.takePush hcall hfirst
      obtain ⟨done'', tail'', hdone', htail', hlast⟩ := ih hnext hrest
      exact ⟨done'', tail'', hdone'.trans hdone, htail'.trans htail, hlast⟩

section preparing
variable (hcall : CallAt model ideal call maxLength position)
  (h : LoopInv model ideal call maxLength position strict loop done tail)
  (hmore : loop.blockIdx < model.numBlocks) (hcontiguous : attempt.Contiguous model)
include hcall h hmore hcontiguous

theorem LoopInv.updated (hneed : loop.Updates) :
    (¬ attempt.Opens model ∧ ∃ next done' tail',
      loop.session.updateSequence model loop.serverIdx loop.blockIdx attempt = (next, false) ∧
        LoopInv model ideal call maxLength position strict (loop.fail next) done' tail') ∨
    ∃ next done' current rest,
      loop.session.updateSequence model loop.serverIdx loop.blockIdx attempt = (next, true) ∧
        Prepared model ideal call maxLength position strict loop.stepId next loop.blockIdx done'
          current rest ∧
        done'.length = done.length := by
  have hzero := h.position_eq_zero hmore hneed
  obtain ⟨hlt, hle, -⟩ := h.updateEnd_bounds hmore
  rw [h.serverIdx]
  rcases updateSequence_cases loop.session done tail model h.split.sessions loop.blockIdx
    attempt with ⟨hupdate, hreason⟩ | ⟨spans, hne, -, hspans, hupdate⟩
  · refine .inl ⟨?_, _, _, _, hupdate, h.closeHead hzero hneed attempt.closeOk⟩
    rintro ⟨hopen, hrouted⟩
    obtain ⟨spans, hspans⟩ := hrouted _ _ h.split.nonneg hlt hle
    rcases hreason with hnone | hnil | hclosed
    · cases hnone.symm.trans hspans
    · exact hcontiguous.ne_nil h.split.nonneg hlt hle hnil
    · cases hclosed.symm.trans hopen
  · obtain ⟨done', current, rest, hprepared, hlength⟩ := h.replaced hcall hmore hneed hcontiguous
      hspans
    exact .inr ⟨_, done', current, rest, hupdate, hprepared, hlength⟩

variable (hfits : loop.session.TakesAll (fun session push => session.Fits strict call push)
  attempt.taken)
include hfits

theorem LoopInv.prepare_cases :
    (loop.Updates ∧ ¬ attempt.Opens model ∧ ∃ session done' tail',
      loop.prepare model attempt = (session, false) ∧
        LoopInv model ideal call maxLength position strict (loop.fail session) done' tail') ∨
    ∃ session done' current rest, loop.prepare model attempt = (session, true) ∧
      Prepared model ideal call maxLength position strict loop.stepId session loop.blockIdx done'
        current rest ∧
      done'.length = done.length ∧ (0 < position → tail.length = rest.length + 1) := by
  obtain ⟨done', tail', hdone, htail, htaken⟩ := h.takePushes hcall hfits
  have hempty := loop.session.takePushes_eq_nil attempt.taken
  unfold Loop.prepare
  by_cases hneed : loop.Updates
  · have hupdates : (loop.session.takePushes attempt.taken).serverSessions = [] ∨
        1 ≤ loop.attemptNo := hneed.imp_left hempty.mpr
    have hzero := h.position_eq_zero hmore hneed
    dsimp only
    rw [if_pos hupdates]
    rcases htaken.updated hcall hmore hcontiguous hupdates with
      ⟨hblocked, hfailed⟩ | ⟨session, done'', current, rest, hupdate, hprepared, hlength⟩
    · exact .inl ⟨hneed, hblocked, hfailed⟩
    · exact .inr ⟨session, done'', current, rest, hupdate, hprepared, hlength.trans hdone,
        fun hpositive => by omega⟩
  · have hnone : ¬ ((loop.session.takePushes attempt.taken).serverSessions = [] ∨
        1 ≤ loop.attemptNo) := fun hupdates => hneed (hupdates.imp_left hempty.mp)
    dsimp only
    rw [if_neg hnone]
    right
    obtain ⟨hchain, hfirst⟩ := not_or.mp hnone
    have htiles : SpansTile loop.blockIdx tail' model.numBlocks := by
      rcases htaken.ahead with ⟨rfl, rfl, -⟩ | htiles
      · exact absurd htaken.split.sessions hchain
      · exact htiles
    cases tail' with
    | nil =>
        have hend : loop.blockIdx = model.numBlocks := htiles
        omega
    | cons current rest =>
        obtain ⟨hrest, ⟨-, hwaiting⟩ | ⟨hretry, -⟩⟩ := htaken.current current rest rfl
        · exact ⟨_, done', current, rest, rfl, ⟨htaken.split, htiles, hrest, hwaiting.counted,
            hwaiting.counted.extendHistory hwaiting.history (hcall.entered _) _,
            hwaiting.pending⟩, hdone, fun _ => htail.symm⟩
        · exact absurd hretry hfirst

theorem LoopInv.attempt_cases (config : ClientConfig) :
    (∃ next done' tail', loop.attempt config model call attempt = (next, true) ∧
      LoopInv model ideal call maxLength position strict next done' tail' ∧
      loop.blockIdx < next.blockIdx ∧ attempt.request = .served ∧
      (0 < position → tail.length = tail'.length + 1)) ∨
    ∃ session, loop.attempt config model call attempt =
        (loop.fail session, decide (loop.Continues config)) ∧
      (position = 0 → ∃ done' tail',
        LoopInv model ideal call maxLength position strict (loop.fail session) done' tail') ∧
      (0 < position → Stuck (loop.fail session)) ∧
      (strict → attempt.request = .served → loop.Updates ∧ ¬ attempt.Opens model) := by
  rcases h.prepare_cases hcall hmore hcontiguous hfits with
    ⟨hneed, hblocked, session, done', tail', hprepare, hnext⟩ |
      ⟨session, done', current, rest, hprepare, hprepared, hlength, htail⟩
  · have hzero := h.position_eq_zero hmore hneed
    exact .inr ⟨_, Loop.attempt_unprepared config call hprepare, fun _ => ⟨_, _, hnext⟩,
      fun hpositive => by omega, fun _ _ => ⟨hneed, hblocked⟩⟩
  · have hidx : loop.serverIdx = done'.length := h.serverIdx.trans hlength.symm
    have hattempt := Loop.attempt_prepared config call hprepare hprepared.split.sessions hidx
    have hstart : current.span.start = loop.blockIdx := hprepared.tiles.1
    have hlt := hprepared.counted.within.lt
    rw [h.request_eq hstart] at hattempt
    cases hstep : current.idealStep config model ideal call loop.stepId
        (session.nextServers current) attempt.request with
    | mk stepped pushes outputs =>
        rw [hstep] at hattempt
        cases outputs with
        | some outputs =>
            have hoptional : (current.idealStep config model ideal call loop.stepId
                (session.nextServers current) attempt.request).outputs = some outputs := by
              rw [hstep]
            refine .inl ⟨_, _, _, hattempt, hprepared.returned hcall hstep rfl, ?_,
              step_some_served hoptional, htail⟩
            dsimp only
            omega
        | none =>
            refine .inr ⟨_, hattempt, fun hzero => ⟨_, _, hprepared.retriable hcall hstep rfl hzero
              ⟨rfl, rfl, hidx, h.inputs⟩⟩, fun hpositive => hprepared.stuck hcall hstep rfl
              hpositive hidx h.inputs, fun hstrict hserved => ?_⟩
            obtain rfl : strict = True := eq_true hstrict
            rw [hserved] at hstep
            have hready := ServerInferenceSession.idealStep_ready config
              (session.nextServers current) hprepared.counted (hcall.entered _)
              hprepared.extended hcall.prompted hcall.fits hprepared.pending
            rw [hstep] at hready
            cases hready

end preparing
section stuck

omit [Add Token] in
theorem enterServerSessions_fresh (model : BlockModel Token Cache)
    (session : InferenceSession PeerID Token Cache)
    {spans : List (RemoteSpanInfo PeerID)} (hspans : spans ≠ []) (updateEnd : Int) :
    ∃ head others, session.enterServerSessions model (truncateLast spans updateEnd) =
      head :: others ∧ head.position = 0 := by
  have hmap := enterServerSessions_span model session (truncateLast spans updateEnd)
  cases hopened : session.enterServerSessions model (truncateLast spans updateEnd) with
  | nil =>
      rw [hopened] at hmap
      obtain ⟨front, last, rfl⟩ := (List.eq_nil_or_concat' spans).resolve_left hspans
      unfold truncateLast at hmap
      rw [List.modifyLast_concat] at hmap
      simp at hmap
  | cons head others =>
      have hmem : head ∈ session.enterServerSessions model (truncateLast spans updateEnd) :=
        hopened ▸ List.mem_cons_self
      obtain ⟨span, -, rfl⟩ := List.mem_map.mp hmem
      exact ⟨_, others, rfl, rfl⟩

theorem step_refused {session : ServerInferenceSession PeerID Token Cache}
    {inputs history : List Token} (hrefuses : session.closed = true ∨ session.position = 0)
    (hhistory : session.history = some history) (hne : history ≠ [])
    (hlength : history.length ≠ inputs.length) (config : ClientConfig)
    (prompts : List (List Token)) (hypoIds : List Nat) (stepId : Nat)
    (nextServers : List (NextServer PeerID Nat)) (outcome : RequestOutcome) :
    session.step config inputs prompts hypoIds stepId nextServers outcome = { session } := by
  unfold ServerInferenceSession.step ServerInferenceSession.extendHistory
  split
  · rfl
  · rename_i hopen
    have hzero := hrefuses.resolve_left hopen
    have hlong : ¬ history.length = 0 := fun hnil => hne (List.length_eq_zero_iff.mp hnil)
    simp only [hhistory, hzero, Nat.zero_add, if_neg hlong, if_neg hlength]
    rw [← hhistory, ← hzero]

omit [Add Token] in
theorem stepped_self {session : InferenceSession PeerID Token Cache}
    {done rest : List (ServerInferenceSession PeerID Token Cache)}
    {current : ServerInferenceSession PeerID Token Cache}
    (hsessions : session.serverSessions = done ++ current :: rest) :
    session.stepped done rest { session := current } = session := by
  unfold InferenceSession.stepped
  rw [← hsessions, List.append_nil]

/-- Every further attempt closes the session and opens another one that refuses to step. -/
theorem Stuck.attempt_eq (h : Stuck loop) :
    loop.attempt config model call attempt =
        (loop.fail (loop.prepare model attempt).1, decide (loop.Continues config)) ∧
      Stuck (loop.fail (loop.prepare model attempt).1) := by
  obtain ⟨hretry, before, history, hbefore, hhistory, hne, hlength⟩ := h
  obtain ⟨session, htaken⟩ : ∃ session, loop.session.takePushes attempt.taken = session :=
    ⟨_, rfl⟩
  obtain ⟨current, hcurrent, hkept⟩ : ∃ current,
      session.serverSessions[loop.serverIdx]? = some current ∧ current.history = some history := by
    have hclients := congrArg (·[loop.serverIdx]?)
      (loop.session.takePushes_clientEnds attempt.taken)
    simp only [List.getElem?_map, hbefore, htaken, Option.map_some] at hclients
    obtain ⟨current, hcurrent, hclient⟩ := Option.map_eq_some_iff.mp hclients
    exact ⟨current, hcurrent, (congrArg ClientEnd.history hclient).trans hhistory⟩
  obtain ⟨hlt, hget⟩ := List.getElem?_eq_some_iff.mp hcurrent
  have hsplit : session.serverSessions = session.serverSessions.take loop.serverIdx ++
      current :: session.serverSessions.drop (loop.serverIdx + 1) := by
    rw [← hget, List.getElem_cons_drop, List.take_append_drop]
  have hidx : (session.serverSessions.take loop.serverIdx).length = loop.serverIdx :=
    List.length_take_of_le hlt.le
  have hprepare : loop.prepare model attempt =
      session.updateSequence model loop.serverIdx loop.blockIdx attempt := by
    unfold Loop.prepare
    rw [htaken]
    exact if_pos (.inr hretry)
  have hupdated := updateSequence_cases session _ _ model hsplit loop.blockIdx attempt
  rw [hidx] at hupdated
  rcases hupdated with ⟨hupdate, -⟩ | ⟨spans, hnonempty, -, -, hupdate⟩
  · rw [hprepare.trans hupdate]
    refine ⟨Loop.attempt_unprepared config call (hprepare.trans hupdate),
      Nat.le_add_left 1 _, current.close attempt.closeOk, history, ?_, ?_, hne, hlength⟩
    · change ((session.serverSessions.take loop.serverIdx) ++ _ :: _)[loop.serverIdx]? = _
      rw [List.getElem?_append_right hidx.le, hidx, Nat.sub_self]
      rfl
    · obtain ⟨closed, serving, alive, hclose⟩ := close_frame current attempt.closeOk
      rw [hclose]
      exact hkept
  · obtain ⟨head, others, hopened, hposition⟩ := enterServerSessions_fresh model session hnonempty
      (updateEnd (current :: session.serverSessions.drop (loop.serverIdx + 1)) model)
    obtain ⟨link, hsessions⟩ := installed_eq session
      (session.serverSessions.take loop.serverIdx)
      (current :: session.serverSessions.drop (loop.serverIdx + 1)) model attempt.closeOk
      (truncateLast spans (updateEnd
        (current :: session.serverSessions.drop (loop.serverIdx + 1)) model))
    rw [replacements_eq attempt.closeOk hopened, List.append_assoc, List.cons_append,
      List.mapIdx_append, List.mapIdx_cons] at hsessions
    obtain ⟨front, fresh, rest, hnext, hfront, hzero, hinherited⟩ : ∃ front fresh rest,
        (installed session (session.serverSessions.take loop.serverIdx)
          (current :: session.serverSessions.drop (loop.serverIdx + 1)) model attempt.closeOk
          (truncateLast spans (updateEnd
            (current :: session.serverSessions.drop (loop.serverIdx + 1)) model))).serverSessions =
          front ++ fresh :: rest ∧ front.length = loop.serverIdx ∧ fresh.position = 0 ∧
            fresh.history = some history :=
      ⟨_, _, _, hsessions, by rw [List.length_mapIdx, hidx], hposition, hkept⟩
    have hattempt := Loop.attempt_prepared config call (hprepare.trans hupdate) hnext hfront.symm
    have hrefused := step_refused (.inr hzero) hinherited hne hlength config
      (pySlice call.prompts fresh.span.start fresh.span.stop) call.hypoIds loop.stepId
    rw [hprepare.trans hupdate]
    refine ⟨hattempt.trans ?_, Nat.le_add_left 1 _, fresh, history, ?_, hinherited, hne, hlength⟩
    · unfold Loop.request
      rw [hrefused]
      dsimp only
      rw [stepped_self hnext]
    · change (installed session _ _ model attempt.closeOk _).serverSessions[loop.serverIdx]? = _
      rw [hnext, ← hfront, List.getElem?_append_right (Nat.le_refl _), Nat.sub_self]
      rfl

end stuck

end attempts

/-! The runs of the loop. -/

/-- What an attempt never changes. -/
structure SameCall (session next : InferenceSession PeerID Token Cache) : Prop where
  position : next.position = session.position
  maxLength : next.maxLength = session.maxLength
  nextStepId : next.nextStepId = session.nextStepId

omit [Add Token] in
theorem updateSequence_sameCall (session : InferenceSession PeerID Token Cache)
    (model : BlockModel Token Cache) (serverIdx : Nat) (blockIdx : Int) (attempt : Attempt PeerID) :
    session.SameCall (session.updateSequence model serverIdx blockIdx attempt).1 := by
  unfold updateSequence
  dsimp only
  split
  · exact ⟨rfl, rfl, rfl⟩
  · exact ⟨rfl, rfl, rfl⟩
  · split
    · exact ⟨rfl, rfl, rfl⟩
    · exact ⟨rfl, rfl, rfl⟩

namespace Loop

variable {config : ClientConfig} {call : StepCall Token} {loop next : Loop PeerID Token Cache}
  {attempt : Attempt PeerID} {attempts : List (Attempt PeerID)}

omit [Add Token] in
theorem lastTokens_eq {inputs : List Token} {nInputTokens : Nat}
    (hlength : inputs.length = nInputTokens) : lastTokens nInputTokens inputs = inputs := by
  unfold lastTokens
  rw [hlength, Nat.sub_self, List.drop_zero, ite_self]

theorem run_done (hdone : model.numBlocks ≤ loop.blockIdx) :
    run config model call attempts loop = .returned (lastTokens call.inputs.length loop.inputs)
      { loop.session with position := loop.session.position + call.inputs.length } := by
  unfold run
  exact if_pos hdone

theorem run_nil (hmore : loop.blockIdx < model.numBlocks) :
    run config model call ([] : List (Attempt PeerID)) loop = .pending := by
  unfold run
  exact if_neg (by omega)

theorem run_cons (hmore : loop.blockIdx < model.numBlocks) {continues : Bool}
    (hattempt : loop.attempt config model call attempt = (next, continues)) :
    run config model call (attempt :: attempts) loop =
      if continues then run config model call attempts next else .raised next.session := by
  rw [run]
  dsimp only
  rw [if_neg (by omega), hattempt]

variable (loop model attempt) in
theorem prepare_sameCall : loop.session.SameCall (loop.prepare model attempt).1 := by
  obtain ⟨serverSessions, pushes, htaken⟩ := loop.session.takePushes_frame attempt.taken
  unfold prepare
  rw [htaken]
  dsimp only
  split
  · obtain ⟨hposition, hlimit, hnext⟩ := updateSequence_sameCall
      { loop.session with serverSessions := serverSessions, pushes := pushes } model loop.serverIdx
      loop.blockIdx attempt
    exact ⟨hposition, hlimit, hnext⟩
  · exact ⟨rfl, rfl, rfl⟩

variable (loop config model call attempt) in
theorem attempt_sameCall :
    loop.session.SameCall (loop.attempt config model call attempt).1.session ∧
      (loop.attempt config model call attempt).1.stepId = loop.stepId := by
  obtain ⟨hposition, hlimit, hnext⟩ : loop.session.SameCall (loop.prepare model attempt).1 :=
    prepare_sameCall ..
  rcases loop.attempt_eq config model call attempt with
    ⟨-, hattempt⟩ | ⟨-, hattempt⟩ | ⟨done, current, rest, -, -, hattempt⟩
  · rw [hattempt]
    exact ⟨⟨hposition, hlimit, hnext⟩, rfl⟩
  · rw [hattempt]
    exact ⟨⟨hposition, hlimit, hnext⟩, rfl⟩
  · rw [hattempt]
    dsimp only
    split
    · exact ⟨⟨hposition, hlimit, hnext⟩, rfl⟩
    · exact ⟨⟨hposition, hlimit, hnext⟩, rfl⟩

theorem run_position {outputs : List Token} {session : InferenceSession PeerID Token Cache}
    (hrun : run config model call attempts loop = .returned outputs session) :
    session.position = loop.session.position + call.inputs.length := by
  induction attempts generalizing loop with
  | nil =>
      unfold run at hrun
      split at hrun
      · cases hrun
        rfl
      · cases hrun
  | cons attempt attempts ih =>
      unfold run at hrun
      split at hrun
      · cases hrun
        rfl
      · dsimp only at hrun
        split at hrun
        · rw [ih hrun, (attempt_sameCall ..).1.position]
        · cases hrun

end Loop

section runs
variable {config : ClientConfig} {ideal : Ideal Token Cache} {call : StepCall Token}
  {maxLength position : Nat} {strict : Prop} {loop : Loop PeerID Token Cache}
  {done tail : List (ServerInferenceSession PeerID Token Cache)}
  {attempts : List (Attempt PeerID)} {outputs : List Token}
  {next : InferenceSession PeerID Token Cache}

theorem Stuck.run_ne_returned (h : Stuck loop) (hmore : loop.blockIdx < model.numBlocks) :
    Loop.run config model call attempts loop ≠ .returned outputs next := by
  induction attempts generalizing loop with
  | nil =>
      rw [Loop.run_nil hmore]
      exact nofun
  | cons attempt attempts ih =>
      obtain ⟨hattempt, hstuck⟩ := h.attempt_eq
      rw [Loop.run_cons hmore hattempt]
      split
      · exact ih hstuck hmore
      · exact nofun

section returning
variable (hcall : CallAt model ideal call maxLength position)
  (h : LoopInv model ideal call maxLength position strict loop done tail)
include hcall h

omit hcall in
theorem LoopInv.tail_eq_nil (hdone : model.numBlocks ≤ loop.blockIdx) : tail = [] := by
  rcases h.ahead with ⟨-, hnil, -⟩ | htiles
  · exact hnil
  · rw [le_antisymm h.blockIdx_le hdone] at htiles
    exact List.map_eq_nil_iff.mp (htiles.eq_nil_iff.mpr rfl)

theorem LoopInv.finished (hdone : model.numBlocks ≤ loop.blockIdx) :
    loop.inputs = ideal.outputs model call ∧
      Good model (ideal.step model call) strict
        { loop.session with position := loop.session.position + call.inputs.length } := by
  have hend : loop.blockIdx = model.numBlocks := le_antisymm h.blockIdx_le hdone
  have hsessions : loop.session.serverSessions = done := by
    rw [h.split.sessions, h.tail_eq_nil hdone, List.append_nil]
  have hjoined := h.split.joined
  have hgrows : loop.session.Grows
      { loop.session with position := loop.session.position + call.inputs.length } :=
    ⟨le_rfl, fun later hmem => .inr ⟨later, hmem, rfl, rfl, fun _ hold => hold⟩⟩
  refine ⟨?_, fun block => ?_, fun hzero => ?_, hjoined.chained.congr rfl rfl, .inr ?_, ?_, ?_, ?_⟩
  · rw [h.inputs, hend, Int.toNat_natCast]
    rfl
  · change (ideal.entered block ++ ideal.hidden model call block).length = _
    rw [List.length_append, hcall.entered, Ideal.hidden_length, h.split.counted]
  · dsimp only at hzero
    rw [h.split.counted] at hzero
    have hempty : call.inputs = [] := List.length_eq_zero_iff.mp (by omega)
    rw [Ideal.step_eq_self hempty]
    exact hcall.zero (by omega)
  · dsimp only
    rw [hsessions, ← hend]
    exact h.split.tiles
  · dsimp only
    rw [hsessions, h.split.limit, h.split.counted]
    exact fun serverSession hmem => (h.split.served serverSession hmem).good
  · intro serverSession hmem id hid
    have hbounded := (hjoined.sound serverSession hmem).2.bounded id hid
    have hnext := hjoined.nextStepId
    dsimp only
    omega
  · intro push hmem
    obtain ⟨haddressed, id, hle, hid, -, hkind⟩ := hjoined.pushes push hmem
    have hnext := hjoined.nextStepId
    refine ⟨haddressed.grows hgrows, id, ?_, hid, ?_⟩
    · dsimp only
      omega
    · refine Stale.grows ?_ haddressed.server hgrows
      rcases hkind with hstale | ⟨rfl, -, hhidden⟩
      · exact hstale
      · by_cases hempty : ¬ strict ∧ call.inputs = []
        · exact .inr ⟨hempty.1, hhidden.trans (Ideal.hidden_eq_nil hempty.2 _)⟩
        · refine .inl fun serverSession hserver _ => ?_
          rw [hsessions] at hserver
          exact (h.split.served serverSession hserver).processed.resolve_right hempty

theorem LoopInv.returned_of_done (hdone : model.numBlocks ≤ loop.blockIdx) :
    ∃ next, Loop.run config model call attempts loop = .returned (ideal.outputs model call) next ∧
      Good model (ideal.step model call) strict next := by
  obtain ⟨hinputs, hgood⟩ := h.finished hcall hdone
  have hlast : Loop.lastTokens call.inputs.length loop.inputs = ideal.outputs model call := by
    rw [hinputs]
    exact Loop.lastTokens_eq (Ideal.hidden_length _)
  rw [Loop.run_done hdone, hlast]
  exact ⟨_, rfl, hgood⟩

theorem LoopInv.returned_of_cons (hmore : loop.blockIdx < model.numBlocks)
    {attempt : Attempt PeerID} (hattempt : attempt.Contiguous model)
    (htakes : loop.Takes (fun session push => session.Fits strict call push) config model call
      (attempt :: attempts))
    (hrun : Loop.run config model call (attempt :: attempts) loop = .returned outputs next) :
    ∃ middle done' tail', LoopInv model ideal call maxLength position strict middle done' tail' ∧
      middle.Takes (fun session push => session.Fits strict call push) config model call attempts ∧
      Loop.run config model call attempts middle = .returned outputs next ∧
      (0 < position → attempt.request = .served ∧ tail.length = tail'.length + 1) := by
  obtain ⟨hfits, hlater⟩ := htakes hmore
  rcases h.attempt_cases hcall hmore hattempt hfits config with
    ⟨middle, done', tail', hstep, hmiddle, -, hserved, htail⟩ |
      ⟨session, hstep, hretriable, hstuck, -⟩
  · rw [Loop.run_cons hmore hstep, if_pos rfl] at hrun
    rw [hstep] at hlater
    exact ⟨middle, done', tail', hmiddle, hlater rfl, hrun,
      fun hpositive => ⟨hserved, htail hpositive⟩⟩
  · rw [Loop.run_cons hmore hstep] at hrun
    rw [hstep] at hlater
    split at hrun
    · rename_i hcontinues
      rcases Nat.eq_zero_or_pos position with hzero | hpositive
      · obtain ⟨done', tail', hmiddle⟩ := hretriable hzero
        exact ⟨_, done', tail', hmiddle, hlater hcontinues, hrun, fun hpositive => by omega⟩
      · exact absurd hrun ((hstuck hpositive).run_ne_returned hmore)
    · cases hrun

variable (hcontiguous : ∀ attempt ∈ attempts, attempt.Contiguous model)
  (htakes : loop.Takes (fun session push => session.Fits strict call push) config model call
    attempts)
include hcontiguous htakes

/-- What the loop returns is what the ideal session computes. -/
theorem LoopInv.run_returned
    (hrun : Loop.run config model call attempts loop = .returned outputs next) :
    outputs = ideal.outputs model call ∧ Good model (ideal.step model call) strict next := by
  induction attempts generalizing loop done tail with
  | nil =>
      by_cases hdone : model.numBlocks ≤ loop.blockIdx
      · obtain ⟨final, hfinal, hgood⟩ := h.returned_of_done hcall hdone
        cases hrun.symm.trans hfinal
        exact ⟨rfl, hgood⟩
      · rw [Loop.run_nil (by omega)] at hrun
        cases hrun
  | cons attempt attempts ih =>
      by_cases hdone : model.numBlocks ≤ loop.blockIdx
      · obtain ⟨final, hfinal, hgood⟩ := h.returned_of_done hcall hdone
        cases hrun.symm.trans hfinal
        exact ⟨rfl, hgood⟩
      · obtain ⟨hfirst, hrest⟩ := List.forall_mem_cons.mp hcontiguous
        obtain ⟨middle, done', tail', hmiddle, htakes, hrun, -⟩ := h.returned_of_cons hcall
          (by omega) hfirst htakes hrun
        exact ih hmiddle hrest htakes hrun

/-- Past position 0 every server has to be served at the first attempt. -/
theorem LoopInv.served_of_returned (hpositive : 0 < position)
    (hrun : Loop.run config model call attempts loop = .returned outputs next) :
    ∀ i < tail.length, ∃ attempt, attempts[i]? = some attempt ∧ attempt.request = .served := by
  intro i hi
  have hmore : loop.blockIdx < model.numBlocks := by
    by_contra hdone
    rw [h.tail_eq_nil (by omega)] at hi
    exact absurd hi (Nat.not_lt_zero i)
  induction attempts generalizing loop done tail i with
  | nil =>
      rw [Loop.run_nil hmore] at hrun
      cases hrun
  | cons attempt attempts ih =>
      obtain ⟨hfirst, hrest⟩ := List.forall_mem_cons.mp hcontiguous
      obtain ⟨middle, done', tail', hmiddle, htakes, hrun, hadvance⟩ := h.returned_of_cons hcall
        hmore hfirst htakes hrun
      obtain ⟨hserved, htail⟩ := hadvance hpositive
      cases i with
      | zero => exact ⟨attempt, rfl, hserved⟩
      | succ i =>
          have hlt : i < tail'.length := by omega
          refine ih hmiddle hrest htakes hrun i hlt ?_
          by_contra hdone
          rw [hmiddle.tail_eq_nil (by omega)] at hlt
          exact absurd hlt (Nat.not_lt_zero i)

end returning

section retrying
variable (hcall : CallAt model ideal call maxLength position)
  (h : LoopInv model ideal call maxLength position True loop done tail)
include hcall h

theorem LoopInv.run_served (hpositive : 0 < position)
    (hcontiguous : ∀ attempt ∈ attempts, attempt.Contiguous model)
    (htakes : loop.Takes (fun session push => session.Fits True call push) config model call
      attempts)
    (hserved : ∀ i < tail.length,
      ∃ attempt, attempts[i]? = some attempt ∧ attempt.request = .served) :
    ∃ next, Loop.run config model call attempts loop =
      .returned (ideal.outputs model call) next ∧ Good model (ideal.step model call) True next := by
  induction attempts generalizing loop done tail with
  | nil =>
      cases tail with
      | cons current rest =>
          obtain ⟨attempt, hget, -⟩ := hserved 0 (Nat.zero_lt_succ _)
          cases hget
      | nil =>
          refine h.returned_of_done hcall ?_
          rcases h.ahead with ⟨-, -, hzero, -⟩ | htiles
          · omega
          · exact Int.le_of_eq htiles.symm
  | cons attempt attempts ih =>
      by_cases hdone : model.numBlocks ≤ loop.blockIdx
      · exact h.returned_of_done hcall hdone
      · have hmore : loop.blockIdx < model.numBlocks := by omega
        obtain ⟨hattempt, hattempts⟩ := List.forall_mem_cons.mp hcontiguous
        obtain ⟨hfits, hlater⟩ := htakes hmore
        rcases h.attempt_cases hcall hmore hattempt hfits config with
          ⟨middle, done', tail', hstep, hmiddle, -, -, htail⟩ | ⟨session, -, -, -, hfails⟩
        · rw [hstep] at hlater
          rw [Loop.run_cons hmore hstep, if_pos rfl]
          have hlength := htail hpositive
          refine ih hmiddle hattempts (hlater rfl) fun i hi => ?_
          exact hserved (i + 1) (by omega)
        · have hnonempty : 0 < tail.length := by
            rcases h.ahead with ⟨-, -, hzero, -⟩ | htiles
            · omega
            · refine List.length_pos_iff.mpr fun hnil => ?_
              rw [hnil] at htiles
              exact hmore.ne htiles
          obtain ⟨first, hget, hfirst⟩ := hserved 0 hnonempty
          cases hget
          have hzero := h.position_eq_zero hmore (hfails trivial hfirst).1
          omega

end retrying

/-! Attempts that keep coming. -/

/-- The call goes on for as long as attempts come, from the given one on, and the pushes that
servers take fit it. -/
structure Continuing (config : ClientConfig) (model : BlockModel Token Cache)
    (call : StepCall Token) (attempts : Nat → Attempt PeerID) (start : Nat)
    (loop : Loop PeerID Token Cache) : Prop where
  retries : ∀ used raised,
    Loop.run config model call ((List.range' start used).map attempts) loop ≠ .raised raised
  takes : ∀ used, loop.Takes (fun session push => session.Fits True call push) config model call
    ((List.range' start used).map attempts)

section continuing
variable {attempts : Nat → Attempt PeerID} {start : Nat}

theorem Continuing.advance (h : Continuing config model call attempts start loop)
    (hmore : loop.blockIdx < model.numBlocks) {later : Loop PeerID Token Cache} {continues : Bool}
    (hstep : loop.attempt config model call (attempts start) = (later, continues)) :
    Continuing config model call attempts (start + 1) later ∧
      ∀ used, Loop.run config model call ((List.range' start (used + 1)).map attempts) loop =
        Loop.run config model call ((List.range' (start + 1) used).map attempts) later := by
  have hcontinues : continues = true := by
    by_contra hlast
    refine h.retries 1 later.session ((Loop.run_cons hmore hstep).trans ?_)
    rw [if_neg hlast]
  subst hcontinues
  have hruns : ∀ used,
      Loop.run config model call ((List.range' start (used + 1)).map attempts) loop =
        Loop.run config model call ((List.range' (start + 1) used).map attempts) later :=
    fun used => (Loop.run_cons hmore hstep).trans (if_pos rfl)
  refine ⟨⟨fun used raised hraised => ?_, fun used => ?_⟩, hruns⟩
  · exact h.retries (used + 1) raised ((hruns used).trans hraised)
  · have hlater := (h.takes (used + 1) hmore).2
    rw [hstep] at hlater
    exact hlater rfl

variable (hcall : CallAt model ideal call maxLength position)
  (h : LoopInv model ideal call maxLength position True loop done tail) (hzero : position = 0)
  (hcontiguous : ∀ i, (attempts i).Contiguous model)
  (hcontinuing : Continuing config model call attempts start loop)
include hcall h hzero hcontiguous hcontinuing

theorem LoopInv.run_advances (hmore : loop.blockIdx < model.numBlocks) {wait : Nat}
    (hopens : (attempts (start + wait)).Opens model)
    (hserved : (attempts (start + wait)).request = .served) :
    ∃ used middle done' tail', LoopInv model ideal call maxLength position True middle done' tail' ∧
      loop.blockIdx < middle.blockIdx ∧
      Continuing config model call attempts (start + used) middle ∧
      ∀ more, Loop.run config model call ((List.range' start (used + more)).map attempts) loop =
        Loop.run config model call ((List.range' (start + used) more).map attempts) middle := by
  induction wait generalizing start loop done tail with
  | zero =>
      obtain ⟨hfits, -⟩ := hcontinuing.takes 1 hmore
      rcases h.attempt_cases hcall hmore (hcontiguous start) hfits config with
        ⟨middle, done', tail', hstep, hmiddle, hlt, -⟩ | ⟨session, -, -, -, hfails⟩
      · obtain ⟨hnext, hruns⟩ := hcontinuing.advance hmore hstep
        exact ⟨1, middle, done', tail', hmiddle, hlt, hnext,
          fun more => Nat.add_comm more 1 ▸ hruns more⟩
      · exact absurd hopens (hfails trivial hserved).2
  | succ wait ih =>
      obtain ⟨hfits, -⟩ := hcontinuing.takes 1 hmore
      rcases h.attempt_cases hcall hmore (hcontiguous start) hfits config with
        ⟨middle, done', tail', hstep, hmiddle, hlt, -⟩ | ⟨session, hstep, hretriable, -⟩
      · obtain ⟨hnext, hruns⟩ := hcontinuing.advance hmore hstep
        exact ⟨1, middle, done', tail', hmiddle, hlt, hnext,
          fun more => Nat.add_comm more 1 ▸ hruns more⟩
      · obtain ⟨done', tail', hfailed⟩ := hretriable hzero
        obtain ⟨hnext, hfirst⟩ := hcontinuing.advance hmore hstep
        rw [show start + (wait + 1) = start + 1 + wait by omega] at hopens hserved
        obtain ⟨used, middle, done'', tail'', hmiddle, hlt, hlast, hruns⟩ := ih hfailed hnext hmore
          hopens hserved
        rw [show start + 1 + used = start + (used + 1) by omega] at hlast hruns
        refine ⟨used + 1, middle, done'', tail'', hmiddle, hlt, hlast, fun more => ?_⟩
        rw [show used + 1 + more = used + more + 1 by omega, hfirst, hruns]

/-- At position 0 the loop returns, if it keeps retrying and healthy attempts keep coming. -/
theorem LoopInv.run_retries
    (hhealthy : ∀ start, ∃ wait, (attempts (start + wait)).Opens model ∧
      (attempts (start + wait)).request = .served) :
    ∃ used next, Loop.run config model call ((List.range' start used).map attempts) loop =
      .returned (ideal.outputs model call) next ∧ Good model (ideal.step model call) True next := by
  induction hleft : (model.numBlocks - loop.blockIdx).toNat using Nat.strong_induction_on
    generalizing start loop done tail with
  | _ left ih =>
      by_cases hdone : model.numBlocks ≤ loop.blockIdx
      · exact ⟨0, h.returned_of_done hcall hdone⟩
      · obtain ⟨wait, hopens, hserved⟩ := hhealthy start
        obtain ⟨used, middle, done', tail', hmiddle, hlt, hlater, hruns⟩ := h.run_advances hcall
          hzero hcontiguous hcontinuing (by omega) hopens hserved
        obtain ⟨more, next, hrun, hgood⟩ := ih _ (by omega) hmiddle hlater rfl
        exact ⟨used + more, next, (hruns more).trans hrun, hgood⟩

end continuing
end runs

/-! The steps of a session, each a run of the loop. -/

omit [Add Token] in
theorem withoutDummies_getD (call : StepCall Token) (block : Nat) :
    (withoutDummies call).prompts.getD block [] = call.prompts.getD block [] := by
  unfold withoutDummies
  dsimp only
  split
  · rename_i hall
    rw [getD_of_all_isEmpty hall]
    rfl
  · rfl

theorem withoutDummies_outputs (ideal : Ideal Token Cache) (call : StepCall Token) :
    ideal.outputs model (withoutDummies call) = ideal.outputs model call := by
  apply Ideal.hidden_congr
  · rfl
  · rfl
  · exact withoutDummies_getD call

theorem withoutDummies_step (ideal : Ideal Token Cache) (call : StepCall Token) :
    ideal.step model (withoutDummies call) = ideal.step model call := by
  apply Ideal.step_congr
  · rfl
  · rfl
  · exact withoutDummies_getD call

section sessions
variable {config : ClientConfig} {ideal : Ideal Token Cache} {call : StepCall Token}
  {strict : Prop} {session next : InferenceSession PeerID Token Cache}
  {attempts : List (Attempt PeerID)} {outputs : List Token}

omit [Add Token] in
theorem good_new (maxLength : Nat) :
    Good model (.new model) strict (new maxLength : InferenceSession PeerID Token Cache) :=
  ⟨fun _ => rfl, fun _ => rfl,
    ⟨.inl rfl, fun _ _ hnone => absurd hnone (by simp [new]), List.nodup_nil,
      fun _ hmem => absurd hmem List.not_mem_nil⟩,
    .inl ⟨rfl, rfl⟩, fun _ hmem => absurd hmem List.not_mem_nil,
    fun _ hmem => absurd hmem List.not_mem_nil, fun _ hmem => absurd hmem List.not_mem_nil⟩

theorem step_eq_run (haccepts : session.Accepts model call) :
    session.step config model call attempts =
      Loop.run config model (withoutDummies call) attempts (Loop.start session call) := by
  unfold step
  rw [if_pos haccepts]

theorem step_position (hstep : session.step config model call attempts = .returned outputs next) :
    next.position = session.position + call.inputs.length := by
  unfold step at hstep
  split at hstep
  · exact Loop.run_position hstep
  · cases hstep

omit [Add Token] in
theorem Good.callAt (h : Good model ideal strict session) (haccepts : session.Accepts model call) :
    CallAt model ideal (withoutDummies call) session.maxLength session.position := by
  obtain ⟨hrows, hprompts, -, hlength⟩ := haccepts
  refine ⟨h.entered, h.zero, ⟨?_, fun block => ?_⟩, hlength⟩
  · unfold withoutDummies
    dsimp only
    split
    · exact .inl rfl
    · rename_i hsome
      refine .inr ⟨(hprompts.resolve_left hsome).1, fun prompt hmem hnil => hsome ?_⟩
      refine List.all_eq_true.mpr fun other hother => ?_
      have hsame := (hrows other hother).trans (hrows prompt hmem).symm
      rw [hnil] at hsame
      rw [List.length_eq_zero_iff.mp hsame]
      rfl
  · rw [withoutDummies_getD]
    rcases lt_or_ge block call.prompts.length with hlt | hge
    · rw [List.getD_eq_getElem _ _ hlt]
      have hmem : call.prompts[block] ∈ call.prompts := List.getElem_mem hlt
      rcases hprompts with hdummy | ⟨-, hfits⟩
      · rw [List.isEmpty_iff.mp (List.all_eq_true.mp hdummy _ hmem)]
        exact Nat.zero_le _
      · exact (hrows _ hmem).trans_le hfits
    · rw [List.getD_eq_default _ _ hge]
      exact Nat.zero_le _

theorem Good.loopInv (h : Good model ideal strict session) (call : StepCall Token) :
    LoopInv model ideal call session.maxLength session.position strict
      (Loop.start session call) [] session.serverSessions := by
  have hgrows : session.Grows (Loop.start session call).session :=
    ⟨le_rfl, fun later hmem => .inr ⟨later, hmem, rfl, rfl, fun _ hold => hold⟩⟩
  have hsound : ∀ serverSession ∈ session.serverSessions, serverSession.Within model ∧
      serverSession.Sound model ideal session.maxLength session.position session.nextStepId := by
    intro serverSession hmem
    have hgood := h.sessions serverSession hmem
    exact ⟨hgood.counted.within, fun id hid => (h.processed serverSession hmem id hid).le,
      fun _ => hgood.stands.level⟩
  have hwaiting : ∀ serverSession ∈ session.serverSessions, Waiting model ideal call
      session.maxLength session.position strict session.nextStepId serverSession := by
    intro serverSession hmem
    have hgood := h.sessions serverSession hmem
    exact ⟨hgood.counted, hgood.history, .inl
      ⟨fun hid => (h.processed serverSession hmem _ hid).ne rfl, hgood.stands⟩⟩
  refine ⟨⟨⟨h.chained.congr rfl rfl, rfl, hsound, fun push hmem => ?_⟩, rfl, rfl, rfl, le_rfl,
    fun _ hmem => absurd hmem List.not_mem_nil, rfl⟩, rfl, rfl, ?_, ?_⟩
  · obtain ⟨haddressed, id, hlt, hid, hstale⟩ := h.pushes push hmem
    exact ⟨haddressed.grows hgrows, id, hlt.le, hid, fun hsame => absurd hsame hlt.ne,
      .inl (hstale.grows haddressed.server hgrows)⟩
  · rcases h.chain with ⟨hnil, hzero⟩ | htiles
    · exact .inl ⟨rfl, hnil, hzero, rfl⟩
    · exact .inr htiles
  · intro current rest hsessions
    rw [hsessions] at hwaiting
    exact ⟨fun other hmem => hwaiting other (List.mem_cons_of_mem _ hmem),
      .inl ⟨rfl, hwaiting current List.mem_cons_self⟩⟩

def CallTakes (P : InferenceSession PeerID Token Cache → Push PeerID Token → Prop)
    (config : ClientConfig) (model : BlockModel Token Cache)
    (session : InferenceSession PeerID Token Cache) (call : StepCall Token)
    (attempts : List (Attempt PeerID)) : Prop :=
  (Loop.start session call).Takes P config model (withoutDummies call) attempts

variable (h : Good model ideal strict session)
include h

theorem Good.step_returned (hcontiguous : ∀ attempt ∈ attempts, attempt.Contiguous model)
    (htakes : session.CallTakes (fun session push => session.Fits strict call push) config model
      call attempts)
    (hstep : session.step config model call attempts = .returned outputs next) :
    outputs = ideal.outputs model call ∧ Good model (ideal.step model call) strict next := by
  by_cases haccepts : session.Accepts model call
  · rw [step_eq_run haccepts] at hstep
    have hreturned := (h.loopInv (withoutDummies call)).run_returned (h.callAt haccepts)
      hcontiguous htakes hstep
    rwa [withoutDummies_outputs, withoutDummies_step] at hreturned
  · unfold step at hstep
    rw [if_neg haccepts] at hstep
    cases hstep

end sessions
end InferenceSession
end Peerz.Client
