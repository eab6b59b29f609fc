import Mathlib.Data.List.Perm.Subperm
import Peerz.Library.Runs
import Peerz.Server.SessionRegistry

/-! The tables of the handlers agree as soon as every event is delivered, and on the way there no
push gets into a wrong queue. -/
namespace Peerz.Server
open Library

variable {SessionId Request : Type} [DecidableEq SessionId]

namespace Envelope

omit [DecidableEq SessionId] in
def change? (receiver : Nat) (envelope : Envelope SessionId Request) :
    Option (Change SessionId Nat) :=
  if envelope.receiver = receiver then
    match envelope.event with
    | .newSession sessionId handlerIndex => some (.put sessionId handlerIndex)
    | .endSession sessionId _ => some (.drop sessionId)
    | .push _ _ => none
  else none

def push? (envelope : Envelope SessionId Request) : Option (SessionId × Request) :=
  match envelope.event with
  | .push sessionId request => some (sessionId, request)
  | _ => none

/-- Only its owner tells the others about a session, and pushes for it go to its owner. -/
def Sourced (opened : List (Nat × SessionId)) (envelope : Envelope SessionId Request) : Prop :=
  match envelope.event with
  | .newSession sessionId handlerIndex =>
      handlerIndex = envelope.sender ∧ envelope.receiver ≠ envelope.sender ∧
        (envelope.sender, sessionId) ∈ opened
  | .endSession sessionId _ =>
      envelope.receiver ≠ envelope.sender ∧ (envelope.sender, sessionId) ∈ opened
  | .push sessionId _ => (envelope.receiver, sessionId) ∈ opened

end Envelope

def changesTo (receiver : Nat) (envelopes : List (Envelope SessionId Request)) :
    List (Change SessionId Nat) :=
  envelopes.filterMap (Envelope.change? receiver)

def PoolEvent.entered : PoolEvent SessionId Request → Option (Nat × SessionId)
  | .enter index sessionId => some (index, sessionId)
  | _ => none

def PoolEvent.arrived : PoolEvent SessionId Request → Option (SessionId × Request)
  | .push _ sessionId request => some (sessionId, request)
  | _ => none

namespace HandlerPool

def putsInto (pool : HandlerPool SessionId Request) (index : Nat) (sessionId : SessionId) :
    List Request :=
  (pool.puts.filter fun put => put.1 = index ∧ put.2.1 = sessionId).map fun put => put.2.2

/-- With all that is in flight to it, each table knows exactly the sessions that are open. -/
structure Replicated (opened : List (Nat × SessionId)) (pool : HandlerPool SessionId Request) :
    Prop where
  entered : ∀ session ∈ pool.sessions, session ∈ opened
  nodup : pool.sessions.Nodup
  bounded : ∀ session ∈ pool.sessions, session.1 < pool.numHandlers
  sourced : ∀ envelope ∈ pool.inFlight, envelope.Sourced opened
  known : ∀ index sessionId owner,
    (pool.handlers index).sessionHandlers.get? sessionId = some owner → (owner, sessionId) ∈ opened
  queues : ∀ index sessionId, (pool.handlers index).sessionQueues.get? sessionId =
    if (index, sessionId) ∈ pool.sessions then some (pool.putsInto index sessionId) else none
  putsOpened : ∀ put ∈ pool.puts, (put.1, put.2.1) ∈ opened
  replica : ∀ owner sessionId, (owner, sessionId) ∈ opened → ∀ receiver < pool.numHandlers,
    lastValue ((pool.handlers receiver).sessionHandlers.get? sessionId)
        (changesTo receiver pool.inFlight) sessionId =
      if (owner, sessionId) ∈ pool.sessions then some owner else none
  noErrors : pool.keyErrors = 0

def Unique (opened : List (Nat × SessionId)) : Prop := (opened.map Prod.snd).Nodup

section lemmas
variable {opened : List (Nat × SessionId)} {pool : HandlerPool SessionId Request}

omit [DecidableEq SessionId] in
theorem Unique.owner_eq (h : Unique opened) {owner other : Nat} {sessionId : SessionId}
    (howner : (owner, sessionId) ∈ opened) (hother : (other, sessionId) ∈ opened) :
    owner = other := by
  have hinjective := List.inj_on_of_nodup_map h howner hother rfl
  exact congrArg Prod.fst hinjective

omit [DecidableEq SessionId] in
theorem Unique.fresh {index : Nat} {sessionId : SessionId}
    (h : Unique (opened ++ [(index, sessionId)])) (owner : Nat) : (owner, sessionId) ∉ opened := by
  intro hmem
  unfold Unique at h
  rw [List.map_append, List.nodup_append] at h
  exact h.2.2 sessionId (List.mem_map_of_mem hmem) sessionId (by simp) rfl

omit [DecidableEq SessionId] in
theorem changesTo_append (receiver : Nat) (left right : List (Envelope SessionId Request)) :
    changesTo receiver (left ++ right) = changesTo receiver left ++ changesTo receiver right :=
  List.filterMap_append

omit [DecidableEq SessionId] in
theorem changesTo_tellOthers (receiver numHandlers sender : Nat) (event : Event SessionId Request) :
    changesTo receiver (tellOthers numHandlers sender event) =
      if receiver < numHandlers ∧ receiver ≠ sender then
        (Envelope.change? receiver ⟨sender, receiver, event⟩).toList
      else [] := by
  unfold tellOthers changesTo
  induction numHandlers with
  | zero => simp
  | succ numHandlers ih =>
      rw [List.range_succ, List.filter_append, List.map_append, List.filterMap_append, ih]
      have hlast : (List.map (fun other => (⟨sender, other, event⟩ : Envelope SessionId Request))
          (List.filter (fun other => other ≠ sender) [numHandlers])).filterMap
            (Envelope.change? receiver) =
          if numHandlers = receiver ∧ receiver ≠ sender then
            (Envelope.change? receiver ⟨sender, receiver, event⟩).toList
          else [] := by
        by_cases hsender : numHandlers = sender
        · rw [if_neg (by omega)]
          simp [hsender]
        · rw [List.filter_cons_of_pos (by simpa using hsender)]
          by_cases hreceiver : numHandlers = receiver
          · rw [if_pos (by omega), ← hreceiver]
            cases hchange : Envelope.change? numHandlers
                (⟨sender, numHandlers, event⟩ : Envelope SessionId Request) with
            | none => simp [hchange]
            | some change => simp [hchange]
          · rw [if_neg (by omega)]
            simp [Envelope.change?, hreceiver]
      rw [hlast]
      by_cases hsender : receiver = sender
      · simp [hsender]
      · by_cases hreceiver : numHandlers = receiver
        · simp [hreceiver, hsender]
        · have hlt : receiver < numHandlers + 1 ↔ receiver < numHandlers := by omega
          simp [hreceiver, hlt]

omit [DecidableEq SessionId] in
theorem sender_of_change {envelope : Envelope SessionId Request} (hsource : envelope.Sourced opened)
    {receiver : Nat} {change : Change SessionId Nat}
    (hchange : envelope.change? receiver = some change) :
    envelope.receiver = receiver ∧ receiver ≠ envelope.sender ∧
      (envelope.sender, change.key) ∈ opened ∧
      ∀ owner, change.value? = some owner → owner = envelope.sender := by
  unfold Envelope.change? at hchange
  unfold Envelope.Sourced at hsource
  split at hchange
  · rename_i hreceiver
    cases hevent : envelope.event with
    | newSession sessionId handlerIndex =>
        rw [hevent] at hchange hsource
        cases hchange
        obtain ⟨hindex, hne, hopened⟩ := hsource
        exact ⟨hreceiver, hreceiver ▸ hne, hopened, fun owner howner =>
          (Option.some.inj howner).symm.trans hindex⟩
    | endSession sessionId handlerIndex =>
        rw [hevent] at hchange hsource
        cases hchange
        exact ⟨hreceiver, hreceiver ▸ hsource.1, hsource.2, nofun⟩
    | push sessionId request =>
        rw [hevent] at hchange
        cases hchange
  · cases hchange

omit [DecidableEq SessionId] in
theorem owner_of_change {envelopes : List (Envelope SessionId Request)}
    (hsourced : ∀ envelope ∈ envelopes, envelope.Sourced opened) {receiver : Nat}
    {change : Change SessionId Nat} (hchange : change ∈ changesTo receiver envelopes) :
    ∃ envelope ∈ envelopes, envelope.receiver = receiver ∧ receiver ≠ envelope.sender ∧
      (envelope.sender, change.key) ∈ opened := by
  obtain ⟨envelope, hmem, heq⟩ := List.mem_filterMap.mp hchange
  obtain ⟨hreceiver, hne, hopened, -⟩ := sender_of_change (hsourced envelope hmem) heq
  exact ⟨envelope, hmem, hreceiver, hne, hopened⟩

/-- The table of the owner itself is always up to date. -/
theorem Replicated.own (h : Replicated opened pool) (hunique : Unique opened) {owner : Nat}
    {sessionId : SessionId} (howner : (owner, sessionId) ∈ opened)
    (hbound : owner < pool.numHandlers) :
    (pool.handlers owner).sessionHandlers.get? sessionId =
      if (owner, sessionId) ∈ pool.sessions then some owner else none := by
  rw [← h.replica owner sessionId howner owner hbound]
  symm
  apply lastValue_of_not_mem
  rintro change hchange rfl
  obtain ⟨envelope, -, -, hne, hsender⟩ := owner_of_change h.sourced hchange
  exact hne (hunique.owner_eq howner hsender)

theorem lastValue_tellOthers {inFlight : List (Envelope SessionId Request)}
    {event : Event SessionId Request} {change : Change SessionId Nat}
    {numHandlers index receiver : Nat} {told : SessionId}
    (hchange : Envelope.change? receiver ⟨index, receiver, event⟩ = some change)
    (htold : change.key = told) (hreceiver : receiver < numHandlers) (before : Option Nat)
    (sessionId : SessionId) :
    lastValue before (changesTo receiver (inFlight ++ tellOthers numHandlers index event)) sessionId =
      if receiver ≠ index ∧ told = sessionId then change.value?
      else lastValue before (changesTo receiver inFlight) sessionId := by
  subst htold
  rw [changesTo_append, changesTo_tellOthers, lastValue_append, hchange]
  by_cases hindex : receiver = index
  · rw [if_neg (fun h => h.2 hindex), if_neg (fun h => h.1 hindex)]
    rfl
  · rw [if_pos ⟨hreceiver, hindex⟩]
    by_cases hkey : change.key = sessionId
    · rw [if_pos ⟨hindex, hkey⟩]
      exact if_pos hkey
    · rw [if_neg (fun h => hkey h.2)]
      exact if_neg hkey

theorem lastValue_announced {inFlight : List (Envelope SessionId Request)}
    {event : Event SessionId Request} {change : Change SessionId Nat}
    {numHandlers index receiver : Nat} {told : SessionId} {value : Option Nat}
    (hchange : Envelope.change? receiver ⟨index, receiver, event⟩ = some change)
    (htold : change.key = told) (hvalue : change.value? = value) (hreceiver : receiver < numHandlers)
    (hquiet : ∀ other ∈ changesTo index inFlight, other.key ≠ told) (before : Option Nat)
    (sessionId : SessionId) :
    lastValue (if receiver = index ∧ sessionId = told then value else before)
        (changesTo receiver (inFlight ++ tellOthers numHandlers index event)) sessionId =
      if sessionId = told then value
      else lastValue before (changesTo receiver inFlight) sessionId := by
  subst hvalue
  rw [lastValue_tellOthers hchange htold hreceiver]
  by_cases hkey : sessionId = told
  · subst hkey
    rw [if_pos rfl]
    by_cases hself : receiver = index
    · subst hself
      rw [if_neg (fun h => h.1 rfl), if_pos ⟨rfl, rfl⟩]
      exact lastValue_of_not_mem hquiet
    · rw [if_pos ⟨hself, rfl⟩]
  · rw [if_neg (fun h => hkey h.2.symm), if_neg (fun h => hkey h.2), if_neg hkey]

omit [DecidableEq SessionId] in
theorem mem_tellOthers {numHandlers index : Nat} {event : Event SessionId Request}
    {envelope : Envelope SessionId Request} (h : envelope ∈ tellOthers numHandlers index event) :
    envelope.sender = index ∧ envelope.receiver ≠ index ∧ envelope.event = event := by
  obtain ⟨receiver, hreceiver, rfl⟩ := List.mem_map.mp h
  exact ⟨rfl, by simpa using (List.mem_filter.mp hreceiver).2, rfl⟩

omit [DecidableEq SessionId] in
theorem Sourced.mono {envelope : Envelope SessionId Request} {more : List (Nat × SessionId)}
    (h : envelope.Sourced opened) : envelope.Sourced (opened ++ more) := by
  unfold Envelope.Sourced at h ⊢
  split at h
  · exact ⟨h.1, h.2.1, List.mem_append_left _ h.2.2⟩
  · exact ⟨h.1, List.mem_append_left _ h.2⟩
  · exact List.mem_append_left _ h

omit [DecidableEq SessionId] in
theorem lookUp_update [DecidableEq SessionId] {α : Type}
    (lookUp : Handler SessionId Request → SessionId → Option α)
    {handlers : Nat → Handler SessionId Request} {index : Nat} {handler : Handler SessionId Request}
    {sessionId : SessionId} {value : Option α}
    (h : ∀ otherId, lookUp handler otherId =
      if otherId = sessionId then value else lookUp (handlers index) otherId)
    (other : Nat) (otherId : SessionId) :
    lookUp (Function.update handlers index handler other) otherId =
      if other = index ∧ otherId = sessionId then value else lookUp (handlers other) otherId := by
  rw [Function.update_apply]
  by_cases hother : other = index
  · rw [if_pos hother, h, hother]
    simp
  · rw [if_neg hother, if_neg (fun h => hother h.1)]

theorem Replicated.enter (h : Replicated opened pool) {index : Nat} {sessionId : SessionId}
    (hunique : Unique (opened ++ [(index, sessionId)])) (hindex : index < pool.numHandlers) :
    Replicated (opened ++ [(index, sessionId)]) { pool with
      handlers := Function.update pool.handlers index
        ((pool.handlers index).enterSession index sessionId)
      inFlight := pool.inFlight ++ tellOthers pool.numHandlers index (.newSession sessionId index)
      sessions := pool.sessions ++ [(index, sessionId)] } := by
  have hfresh := hunique.fresh
  have hclosed : (index, sessionId) ∉ pool.sessions := fun hmem => hfresh index (h.entered _ hmem)
  have hnone : pool.putsInto index sessionId = [] := by
    unfold putsInto
    rw [List.map_eq_nil_iff, List.filter_eq_nil_iff]
    intro put hmem heq
    obtain ⟨hput, hsession⟩ := of_decide_eq_true heq
    exact hfresh index (hput ▸ hsession ▸ h.putsOpened put hmem)
  have htable : ∀ other otherId, (Function.update pool.handlers index
      ((pool.handlers index).enterSession index sessionId) other).sessionHandlers.get? otherId =
        if other = index ∧ otherId = sessionId then some index
        else (pool.handlers other).sessionHandlers.get? otherId :=
    lookUp_update (fun handler otherId => handler.sessionHandlers.get? otherId)
      fun otherId => Dict.get?_insert _ _ _ _
  have hqueue : ∀ other otherId, (Function.update pool.handlers index
      ((pool.handlers index).enterSession index sessionId) other).sessionQueues.get? otherId =
        if other = index ∧ otherId = sessionId then some []
        else (pool.handlers other).sessionQueues.get? otherId :=
    lookUp_update (fun handler otherId => handler.sessionQueues.get? otherId)
      fun otherId => Dict.get?_insert _ _ _ _
  generalize Function.update pool.handlers index
    ((pool.handlers index).enterSession index sessionId) = handlers at htable hqueue
  refine ⟨?_, ?_, ?_, ?_, ?_, ?_, ?_, ?_, h.noErrors⟩
  · intro session hmem
    rcases List.mem_append.mp hmem with hmem | hmem
    · exact List.mem_append_left _ (h.entered session hmem)
    · exact List.mem_append_right _ hmem
  · exact List.nodup_append.mpr ⟨h.nodup, List.nodup_singleton _, by
      intro session hmem other hother
      rw [List.mem_singleton.mp hother]
      rintro rfl
      exact hclosed hmem⟩
  · intro session hmem
    rcases List.mem_append.mp hmem with hmem | hmem
    · exact h.bounded session hmem
    · rw [List.mem_singleton.mp hmem]
      exact hindex
  · intro envelope hmem
    rcases List.mem_append.mp hmem with hmem | hmem
    · exact Sourced.mono (h.sourced envelope hmem)
    · obtain ⟨hsender, hreceiver, hevent⟩ := mem_tellOthers hmem
      unfold Envelope.Sourced
      rw [hevent, hsender]
      exact ⟨rfl, hreceiver, List.mem_append_right _ (List.mem_singleton.mpr rfl)⟩
  · intro receiver otherId owner hknown
    dsimp only at hknown
    rw [htable] at hknown
    split at hknown
    · rename_i hself
      cases hknown
      exact List.mem_append_right _ (List.mem_singleton.mpr (by rw [hself.2]))
    · exact List.mem_append_left _ (h.known receiver otherId owner hknown)
  · intro other otherId
    dsimp only
    rw [hqueue]
    by_cases hself : other = index ∧ otherId = sessionId
    · rw [if_pos hself, hself.1, hself.2, if_pos (List.mem_append_right _ List.mem_cons_self)]
      exact congrArg some hnone.symm
    · have hpair : (other, otherId) ≠ (index, sessionId) :=
        fun heq => hself ⟨congrArg Prod.fst heq, congrArg Prod.snd heq⟩
      rw [if_neg hself, h.queues other otherId]
      simp [hpair, putsInto]
  · intro put hmem
    exact List.mem_append_left _ (h.putsOpened put hmem)
  · intro owner otherId howner receiver (hreceiver : receiver < pool.numHandlers)
    have hannounced : Envelope.change? receiver
        (⟨index, receiver, .newSession sessionId index⟩ : Envelope SessionId Request) =
          some (.put sessionId index) := if_pos rfl
    have htold : (.put sessionId index : Change SessionId Nat).key = sessionId := rfl
    have hvalue : (.put sessionId index : Change SessionId Nat).value? = some index := rfl
    have hquiet : ∀ change ∈ changesTo index pool.inFlight, change.key ≠ sessionId := by
      intro change hchange hsession
      obtain ⟨envelope, -, -, -, hsender⟩ := owner_of_change h.sourced hchange
      exact hfresh envelope.sender (hsession ▸ hsender)
    dsimp only
    rw [htable, lastValue_announced hannounced htold hvalue hreceiver hquiet]
    by_cases hkey : otherId = sessionId
    · subst hkey
      have howner : owner = index := by
        rcases List.mem_append.mp howner with howner | howner
        · exact absurd howner (hfresh owner)
        · exact congrArg Prod.fst (List.mem_singleton.mp howner)
      rw [howner, if_pos rfl, if_pos (List.mem_append_right _ List.mem_cons_self)]
    · have hold : (owner, otherId) ∈ opened := by
        rcases List.mem_append.mp howner with howner | howner
        · exact howner
        · exact absurd (congrArg Prod.snd (List.mem_singleton.mp howner)) hkey
      rw [if_neg hkey, h.replica owner otherId hold receiver hreceiver]
      simp [hkey]

theorem Replicated.leave (h : Replicated opened pool) (hunique : Unique opened) {index : Nat}
    {sessionId : SessionId} (hopen : (index, sessionId) ∈ pool.sessions) :
    ∃ handler, (pool.handlers index).leaveSession sessionId = (handler, true) ∧
      Replicated opened { pool with
        handlers := Function.update pool.handlers index handler
        inFlight := pool.inFlight ++ tellOthers pool.numHandlers index (.endSession sessionId index)
        sessions := pool.sessions.erase (index, sessionId) } := by
  have howner := h.entered _ hopen
  have hheld : (pool.handlers index).sessionQueues.contains sessionId = true := by
    unfold Dict.contains
    rw [h.queues, if_pos hopen]
    rfl
  have hknown : (pool.handlers index).sessionHandlers.contains sessionId = true := by
    unfold Dict.contains
    rw [h.own hunique howner (h.bounded _ hopen), if_pos hopen]
    rfl
  refine ⟨⟨(pool.handlers index).sessionQueues.erase sessionId,
    (pool.handlers index).sessionHandlers.erase sessionId⟩, ?_, ?_⟩
  · unfold Handler.leaveSession
    rw [if_pos hheld]
    exact if_pos hknown
  have htable : ∀ other otherId, (Function.update pool.handlers index
      ⟨(pool.handlers index).sessionQueues.erase sessionId,
        (pool.handlers index).sessionHandlers.erase sessionId⟩ other).sessionHandlers.get? otherId =
        if other = index ∧ otherId = sessionId then none
        else (pool.handlers other).sessionHandlers.get? otherId :=
    lookUp_update (fun handler otherId => handler.sessionHandlers.get? otherId)
      fun otherId => Dict.get?_erase _ _ _
  have hqueue : ∀ other otherId, (Function.update pool.handlers index
      ⟨(pool.handlers index).sessionQueues.erase sessionId,
        (pool.handlers index).sessionHandlers.erase sessionId⟩ other).sessionQueues.get? otherId =
        if other = index ∧ otherId = sessionId then none
        else (pool.handlers other).sessionQueues.get? otherId :=
    lookUp_update (fun handler otherId => handler.sessionQueues.get? otherId)
      fun otherId => Dict.get?_erase _ _ _
  generalize Function.update pool.handlers index
    ⟨(pool.handlers index).sessionQueues.erase sessionId,
      (pool.handlers index).sessionHandlers.erase sessionId⟩ = handlers at htable hqueue
  have hstill : ∀ session, session ∈ pool.sessions.erase (index, sessionId) ↔
      session ≠ (index, sessionId) ∧ session ∈ pool.sessions :=
    fun session => h.nodup.mem_erase_iff
  refine ⟨?_, h.nodup.erase _, ?_, ?_, ?_, ?_, h.putsOpened, ?_, h.noErrors⟩
  · exact fun session hmem => h.entered session ((hstill session).mp hmem).2
  · exact fun session hmem => h.bounded session ((hstill session).mp hmem).2
  · intro envelope hmem
    rcases List.mem_append.mp hmem with hmem | hmem
    · exact h.sourced envelope hmem
    · obtain ⟨hsender, hreceiver, hevent⟩ := mem_tellOthers hmem
      unfold Envelope.Sourced
      rw [hevent, hsender]
      exact ⟨hreceiver, howner⟩
  · intro receiver otherId owner hknown
    dsimp only at hknown
    rw [htable] at hknown
    split at hknown
    · cases hknown
    · exact h.known receiver otherId owner hknown
  · intro other otherId
    dsimp only
    rw [hqueue, h.queues]
    by_cases hself : other = index ∧ otherId = sessionId
    · rw [if_pos hself, if_neg]
      rw [hstill]
      exact fun hmem => hmem.1 (by rw [hself.1, hself.2])
    · have hpair : (other, otherId) ≠ (index, sessionId) :=
        fun heq => hself ⟨congrArg Prod.fst heq, congrArg Prod.snd heq⟩
      rw [if_neg hself]
      simp only [hstill, hpair, ne_eq, not_false_iff, true_and]
      rfl
  · intro owner otherId hother receiver (hreceiver : receiver < pool.numHandlers)
    have hannounced : Envelope.change? receiver
        (⟨index, receiver, .endSession sessionId index⟩ : Envelope SessionId Request) =
          some (.drop sessionId) := if_pos rfl
    have htold : (.drop sessionId : Change SessionId Nat).key = sessionId := rfl
    have hvalue : (.drop sessionId : Change SessionId Nat).value? = none := rfl
    have hquiet : ∀ change ∈ changesTo index pool.inFlight, change.key ≠ sessionId := by
      rintro change hchange rfl
      obtain ⟨envelope, -, -, hne, hsender⟩ := owner_of_change h.sourced hchange
      exact hne (hunique.owner_eq howner hsender)
    dsimp only
    rw [htable, lastValue_announced hannounced htold hvalue hreceiver hquiet]
    by_cases hkey : otherId = sessionId
    · subst hkey
      have hsame := hunique.owner_eq hother howner
      rw [hsame, if_pos rfl, if_neg (fun hmem => ((hstill _).mp hmem).1 rfl)]
    · rw [if_neg hkey, h.replica owner otherId hother receiver hreceiver]
      simp [hstill, hkey]

theorem Replicated.put (h : Replicated opened pool) {index : Nat} {sessionId : SessionId}
    (hopen : (index, sessionId) ∈ pool.sessions) {queue : List Request}
    (hqueue : (pool.handlers index).sessionQueues.get? sessionId = some queue) (request : Request) :
    Replicated opened { pool with
      handlers := Function.update pool.handlers index { pool.handlers index with
        sessionQueues := (pool.handlers index).sessionQueues.insert sessionId (queue ++ [request]) }
      puts := pool.puts ++ [(index, sessionId, request)] } := by
  have hlookUp : ∀ other otherId, (Function.update pool.handlers index { pool.handlers index with
      sessionQueues := (pool.handlers index).sessionQueues.insert sessionId (queue ++ [request]) }
        other).sessionQueues.get? otherId =
        if other = index ∧ otherId = sessionId then some (queue ++ [request])
        else (pool.handlers other).sessionQueues.get? otherId :=
    lookUp_update (fun handler otherId => handler.sessionQueues.get? otherId)
      fun otherId => Dict.get?_insert _ _ _ _
  have htable : ∀ other, (Function.update pool.handlers index { pool.handlers index with
      sessionQueues := (pool.handlers index).sessionQueues.insert sessionId (queue ++ [request]) }
        other).sessionHandlers = (pool.handlers other).sessionHandlers := by
    intro other
    rw [Function.update_apply]
    split
    · rename_i hother
      rw [hother]
    · rfl
  generalize Function.update pool.handlers index { pool.handlers index with
    sessionQueues := (pool.handlers index).sessionQueues.insert sessionId (queue ++ [request]) } =
      handlers at hlookUp htable
  refine ⟨h.entered, h.nodup, h.bounded, h.sourced, ?_, ?_, ?_, ?_, h.noErrors⟩
  · intro other otherId owner hknown
    dsimp only at hknown
    rw [htable] at hknown
    exact h.known other otherId owner hknown
  · intro other otherId
    dsimp only
    rw [hlookUp]
    by_cases hself : other = index ∧ otherId = sessionId
    · obtain ⟨rfl, rfl⟩ := hself
      have hbefore := h.queues other otherId
      rw [hqueue, if_pos hopen] at hbefore
      rw [if_pos ⟨rfl, rfl⟩, if_pos hopen, Option.some.inj hbefore]
      simp [putsInto]
    · rw [if_neg hself, h.queues]
      have hskip : ¬ (index = other ∧ sessionId = otherId) :=
        fun heq => hself ⟨heq.1.symm, heq.2.symm⟩
      simp [putsInto, hskip]
  · intro put hmem
    rcases List.mem_append.mp hmem with hmem | hmem
    · exact h.putsOpened put hmem
    · rw [List.mem_singleton.mp hmem]
      exact h.entered _ hopen
  · intro owner otherId howner receiver hreceiver
    dsimp only
    rw [htable]
    exact h.replica owner otherId howner receiver hreceiver

/-- Pushes come and go between the handlers without a trace in their tables. -/
theorem Replicated.of_inFlight (h : Replicated opened pool)
    {inFlight : List (Envelope SessionId Request)}
    (hsourced : ∀ envelope ∈ inFlight, envelope.Sourced opened)
    (hchanges : ∀ receiver, changesTo receiver inFlight = changesTo receiver pool.inFlight) :
    Replicated opened { pool with inFlight := inFlight } := by
  refine ⟨h.entered, h.nodup, h.bounded, hsourced, h.known, h.queues, h.putsOpened, ?_, h.noErrors⟩
  intro owner sessionId howner receiver hreceiver
  dsimp only
  rw [hchanges]
  exact h.replica owner sessionId howner receiver hreceiver

theorem Replicated.deliver (h : Replicated opened pool) (hunique : Unique opened)
    {earlier later : List (Envelope SessionId Request)} {envelope : Envelope SessionId Request}
    {change : Change SessionId Nat} (hsplit : pool.inFlight = earlier ++ envelope :: later)
    (hfirst : ∀ other ∈ earlier,
      other.sender ≠ envelope.sender ∨ other.receiver ≠ envelope.receiver)
    (hchange : Envelope.change? envelope.receiver envelope = some change) :
    Replicated opened { pool with
      handlers := Function.update pool.handlers envelope.receiver
        { pool.handlers envelope.receiver with
          sessionHandlers := change.apply (pool.handlers envelope.receiver).sessionHandlers }
      inFlight := earlier ++ later } := by
  have henvelope : envelope ∈ pool.inFlight := by
    rw [hsplit]
    exact List.mem_append_right _ List.mem_cons_self
  have hkept : ∀ other ∈ earlier ++ later, other ∈ pool.inFlight := by
    intro other hmem
    rw [hsplit]
    rcases List.mem_append.mp hmem with hmem | hmem
    · exact List.mem_append_left _ hmem
    · exact List.mem_append_right _ (List.mem_cons_of_mem _ hmem)
  obtain ⟨-, -, hsender, hvalue⟩ := sender_of_change (h.sourced envelope henvelope) hchange
  have hlookUp : ∀ other otherId, (Function.update pool.handlers envelope.receiver
      { pool.handlers envelope.receiver with
        sessionHandlers := change.apply (pool.handlers envelope.receiver).sessionHandlers }
          other).sessionHandlers.get? otherId =
        if other = envelope.receiver ∧ otherId = change.key then change.value?
        else (pool.handlers other).sessionHandlers.get? otherId := by
    apply lookUp_update fun handler otherId => handler.sessionHandlers.get? otherId
    intro otherId
    dsimp only
    rw [Change.get?_apply]
    simp only [eq_comm]
  have hqueues : ∀ other, (Function.update pool.handlers envelope.receiver
      { pool.handlers envelope.receiver with
        sessionHandlers := change.apply (pool.handlers envelope.receiver).sessionHandlers }
          other).sessionQueues = (pool.handlers other).sessionQueues := by
    intro other
    rw [Function.update_apply]
    split
    · rename_i hother
      rw [hother]
    · rfl
  generalize Function.update pool.handlers envelope.receiver
    { pool.handlers envelope.receiver with
      sessionHandlers := change.apply (pool.handlers envelope.receiver).sessionHandlers } =
        handlers at hlookUp hqueues
  refine ⟨h.entered, h.nodup, h.bounded, fun other hmem => h.sourced other (hkept other hmem), ?_,
    ?_, h.putsOpened, ?_, h.noErrors⟩
  · intro other otherId owner hknown
    dsimp only at hknown
    rw [hlookUp] at hknown
    split at hknown
    · rename_i hself
      rw [hvalue owner hknown, hself.2]
      exact hsender
    · exact h.known other otherId owner hknown
  · intro other otherId
    dsimp only
    rw [hqueues]
    exact h.queues other otherId
  · intro owner otherId howner receiver hreceiver
    rw [← h.replica owner otherId howner receiver hreceiver]
    dsimp only
    rw [hlookUp, hsplit, changesTo_append, changesTo_append]
    by_cases hself : receiver = envelope.receiver
    · subst hself
      have hlater : changesTo envelope.receiver (envelope :: later) =
          change :: changesTo envelope.receiver later := List.filterMap_cons_some hchange
      rw [hlater, ← lastValue_advance]
      · simp only [true_and, eq_comm]
      · rintro rfl other hother hsame
        obtain ⟨earlierOne, hmem, heq⟩ := List.mem_filterMap.mp hother
        obtain ⟨hreceived, -, hopened, -⟩ := sender_of_change
          (h.sourced earlierOne (hsplit ▸ List.mem_append_left _ hmem)) heq
        rcases hfirst earlierOne hmem with hne | hne
        · exact hne (hunique.owner_eq (hsame ▸ hopened) hsender)
        · exact hne hreceived
    · have hlater : changesTo receiver (envelope :: later) = changesTo receiver later :=
        List.filterMap_cons_none (if_neg (Ne.symm hself))
      rw [if_neg (fun h => hself h.1), hlater]

/-- The requests that were pushed and are not lost yet: in the queue of a session, or on their
way to its owner. -/
def pending (pool : HandlerPool SessionId Request) : List (SessionId × Request) :=
  pool.puts.map Prod.snd ++ pool.inFlight.filterMap Envelope.push?

omit [DecidableEq SessionId] in
theorem pushes_tellOthers {numHandlers index : Nat} {event : Event SessionId Request}
    (h : ∀ sessionId request, event ≠ .push sessionId request) :
    (tellOthers numHandlers index event).filterMap Envelope.push? = [] := by
  rw [List.filterMap_eq_nil_iff]
  intro envelope hmem
  obtain ⟨-, -, hevent⟩ := mem_tellOthers hmem
  unfold Envelope.push?
  rw [hevent]
  cases event with
  | newSession sessionId handlerIndex => rfl
  | endSession sessionId handlerIndex => rfl
  | push sessionId request => exact absurd rfl (h sessionId request)

omit [DecidableEq SessionId] in
theorem changesTo_push (receiver sender other : Nat) (sessionId : SessionId) (request : Request) :
    changesTo receiver [⟨sender, other, .push sessionId request⟩] = [] := by
  unfold changesTo
  rw [List.filterMap_cons_none]
  · rfl
  · unfold Envelope.change?
    split
    · rfl
    · rfl

theorem listen_change {envelope : Envelope SessionId Request} {change : Change SessionId Nat}
    (h : Envelope.change? envelope.receiver envelope = some change)
    {handler : Handler SessionId Request} :
    handler.listenToEventQueue envelope.event =
      ({ handler with sessionHandlers := change.apply handler.sessionHandlers }, none) := by
  unfold Envelope.change? at h
  rw [if_pos rfl] at h
  cases hevent : envelope.event with
  | newSession sessionId handlerIndex | endSession sessionId handlerIndex =>
      rw [hevent] at h
      cases h
      rfl
  | push sessionId request =>
      rw [hevent] at h
      cases h

omit [DecidableEq SessionId] in
theorem event_of_change?_none {envelope : Envelope SessionId Request}
    (h : Envelope.change? envelope.receiver envelope = none) :
    ∃ sessionId request, envelope.event = .push sessionId request := by
  unfold Envelope.change? at h
  rw [if_pos rfl] at h
  cases hevent : envelope.event with
  | newSession sessionId handlerIndex | endSession sessionId handlerIndex =>
      rw [hevent] at h
      cases h
  | push sessionId request => exact ⟨sessionId, request, rfl⟩

structure Follows (opened : List (Nat × SessionId)) (event : PoolEvent SessionId Request)
    (pool next : HandlerPool SessionId Request) : Prop where
  numHandlers : next.numHandlers = pool.numHandlers
  replicated : Replicated (opened ++ event.entered.toList) next
  pending : next.pending.Subperm (pool.pending ++ event.arrived.toList)
  puts : ∀ put ∈ next.puts, put ∈ pool.puts ∨ (put.1, put.2.1) ∈ pool.sessions

variable {next : HandlerPool SessionId Request}

theorem Replicated.follows_enter (h : Replicated opened pool) {index : Nat} {sessionId : SessionId}
    (hunique : Unique (opened ++ [(index, sessionId)]))
    (hstep : pool.enter index sessionId = some next) :
    Follows opened (.enter index sessionId) pool next := by
  have hclosed : (index, sessionId) ∉ pool.sessions :=
    fun hmem => hunique.fresh index (h.entered _ hmem)
  have hheld : ¬ (pool.handlers index).sessionQueues.contains sessionId = true := by
    unfold Dict.contains
    rw [h.queues, if_neg hclosed]
    exact Bool.false_ne_true
  unfold HandlerPool.enter at hstep
  rw [if_neg hheld] at hstep
  split at hstep
  · rename_i hindex
    cases hstep
    refine ⟨rfl, h.enter hunique hindex, ?_, fun put hmem => .inl hmem⟩
    unfold HandlerPool.pending
    dsimp only
    rw [List.filterMap_append, pushes_tellOthers nofun, List.append_nil]
    exact (List.sublist_append_left _ _).subperm
  · cases hstep

theorem Replicated.follows_leave (h : Replicated opened pool) (hunique : Unique opened) {index : Nat}
    {sessionId : SessionId} (hstep : pool.leave index sessionId = some next) :
    Follows opened (.leave index sessionId) pool next := by
  unfold HandlerPool.leave at hstep
  split at hstep
  · rename_i hopen
    obtain ⟨handler, hleave, hreplicated⟩ := h.leave hunique hopen
    rw [hleave] at hstep
    cases hstep
    refine ⟨rfl, (List.append_nil opened).symm ▸ hreplicated, ?_, fun put hmem => .inl hmem⟩
    unfold HandlerPool.pending
    dsimp only
    rw [List.filterMap_append, pushes_tellOthers nofun, List.append_nil]
    exact (List.sublist_append_left _ _).subperm
  · cases hstep

theorem Replicated.follows_push (h : Replicated opened pool) (hunique : Unique opened) {index : Nat}
    {sessionId : SessionId} {request : Request}
    (hstep : pool.rpcPush index sessionId request = some next) :
    Follows opened (.push index sessionId request) pool next := by
  unfold HandlerPool.rpcPush Handler.putIntoSessionQueue at hstep
  split at hstep
  · rename_i hindex
    cases hknown : (pool.handlers index).sessionHandlers.get? sessionId with
    | none =>
        rw [hknown] at hstep
        cases hstep
        exact ⟨rfl, (List.append_nil opened).symm ▸ h, (List.sublist_append_left _ _).subperm,
          fun put hmem => .inl hmem⟩
    | some owner =>
        have howner := h.known index sessionId owner hknown
        rw [hknown] at hstep
        dsimp only at hstep
        by_cases hself : owner = index
        · subst hself
          have hopen : (owner, sessionId) ∈ pool.sessions := by
            have hown := h.own hunique howner hindex
            rw [hknown] at hown
            by_contra hclosed
            rw [if_neg hclosed] at hown
            cases hown
          have hqueue := h.queues owner sessionId
          rw [if_pos hopen] at hqueue
          rw [if_pos rfl, hqueue] at hstep
          cases hstep
          refine ⟨rfl, (List.append_nil opened).symm ▸ h.put hopen hqueue request, ?_, ?_⟩
          · unfold HandlerPool.pending
            dsimp only
            rw [List.map_append, List.append_assoc, List.append_assoc]
            exact (List.perm_append_comm.append_left _).subperm
          · intro put hmem
            rcases List.mem_append.mp hmem with hmem | hmem
            · exact .inl hmem
            · rw [List.mem_singleton.mp hmem]
              exact .inr hopen
        · rw [if_neg hself] at hstep
          cases hstep
          refine ⟨rfl, (List.append_nil opened).symm ▸ h.of_inFlight ?_ ?_, ?_,
            fun put hmem => .inl hmem⟩
          · intro envelope hmem
            rcases List.mem_append.mp hmem with hmem | hmem
            · exact h.sourced envelope hmem
            · rw [List.mem_singleton.mp hmem]
              exact howner
          · intro receiver
            rw [changesTo_append, changesTo_push, List.append_nil]
          · unfold HandlerPool.pending
            dsimp only
            rw [List.filterMap_append, ← List.append_assoc]
            exact (List.Perm.refl _).subperm
  · cases hstep

theorem Replicated.follows_deliver (h : Replicated opened pool) (hunique : Unique opened)
    {position : Nat} (hstep : pool.deliver position = some next) :
    Follows opened (.deliver position) pool next := by
  obtain ⟨envelope, henvelope, hstep⟩ := Option.bind_eq_some_iff.mp hstep
  obtain ⟨hposition, hget⟩ := List.getElem?_eq_some_iff.mp henvelope
  have hsplit : pool.inFlight = pool.inFlight.take position ++
      envelope :: pool.inFlight.drop (position + 1) := by
    rw [← hget, ← List.drop_eq_getElem_cons hposition, List.take_append_drop]
  have herase : pool.inFlight.eraseIdx position =
      pool.inFlight.take position ++ pool.inFlight.drop (position + 1) :=
    List.eraseIdx_eq_take_drop_succ _ _
  dsimp only at hstep
  split at hstep
  · rename_i hfirst
    rw [List.all_eq_true] at hfirst
    have hfirst : ∀ other ∈ pool.inFlight.take position,
        other.sender ≠ envelope.sender ∨ other.receiver ≠ envelope.receiver :=
      fun other hmem => of_decide_eq_true (hfirst other hmem)
    have hremains : (pool.inFlight.take position ++
        pool.inFlight.drop (position + 1)).Sublist pool.inFlight := by
      rw [← herase]
      exact List.eraseIdx_sublist _ _
    rw [herase] at hstep
    cases hchange : Envelope.change? envelope.receiver envelope with
    | some change =>
        rw [listen_change hchange] at hstep
        simp only [Option.map_none, Option.toList_none, List.append_nil, Option.some.injEq] at hstep
        subst hstep
        refine ⟨rfl, (List.append_nil opened).symm ▸ h.deliver hunique hsplit hfirst hchange, ?_,
          fun put hmem => .inl hmem⟩
        exact ((hremains.filterMap _).append_left _).subperm.trans
          (List.sublist_append_left _ _).subperm
    | none =>
        obtain ⟨sessionId, request, hevent⟩ := event_of_change?_none hchange
        have hkept : Replicated opened { pool with
            inFlight := pool.inFlight.take position ++ pool.inFlight.drop (position + 1) } := by
          apply h.of_inFlight fun other hmem => h.sourced other (hremains.subset hmem)
          intro receiver
          have hnone : Envelope.change? receiver envelope = none := by
            unfold Envelope.change?
            rw [hevent]
            exact ite_self none
          conv_rhs => rw [hsplit]
          rw [changesTo_append, changesTo_append]
          congr 1
          exact (List.filterMap_cons_none hnone).symm
        rw [hevent] at hstep
        unfold Handler.listenToEventQueue at hstep
        dsimp only at hstep
        cases hqueue : (pool.handlers envelope.receiver).sessionQueues.get? sessionId with
        | none =>
            rw [hqueue] at hstep
            simp only [Option.map_none, Option.toList_none, List.append_nil, Option.some.injEq,
              Function.update_eq_self] at hstep
            subst hstep
            exact ⟨rfl, (List.append_nil opened).symm ▸ hkept,
              ((hremains.filterMap _).append_left _).subperm.trans
                (List.sublist_append_left _ _).subperm, fun put hmem => .inl hmem⟩
        | some queue =>
            have hopen : (envelope.receiver, sessionId) ∈ pool.sessions := by
              by_contra hclosed
              rw [h.queues, if_neg hclosed] at hqueue
              cases hqueue
            rw [hqueue] at hstep
            simp only [Option.map_some, Option.toList_some, Option.some.injEq] at hstep
            subst hstep
            refine ⟨rfl, (List.append_nil opened).symm ▸ hkept.put hopen hqueue request, ?_, ?_⟩
            · have hpush : envelope.push? = some (sessionId, request) := by
                unfold Envelope.push?
                rw [hevent]
              have hpending : pool.pending = pool.puts.map Prod.snd ++
                  ((pool.inFlight.take position).filterMap Envelope.push? ++
                    (sessionId, request) ::
                      (pool.inFlight.drop (position + 1)).filterMap Envelope.push?) := by
                unfold HandlerPool.pending
                conv_lhs => rw [hsplit]
                rw [List.filterMap_append, List.filterMap_cons_some hpush]
              rw [hpending]
              unfold HandlerPool.pending
              dsimp only
              rw [List.map_append, List.filterMap_append, List.append_assoc]
              apply (List.Perm.append_left _ _).subperm.trans
                (List.sublist_append_left _ _).subperm
              rw [List.map_singleton, List.singleton_append]
              exact List.perm_middle.symm
            · intro put hmem
              rcases List.mem_append.mp hmem with hmem | hmem
              · exact .inl hmem
              · rw [List.mem_singleton.mp hmem]
                exact .inr hopen
  · cases hstep

theorem Replicated.follows (h : Replicated opened pool) {event : PoolEvent SessionId Request}
    (hunique : Unique (opened ++ event.entered.toList)) (hstep : pool.step event = some next) :
    Follows opened event pool next := by
  have hbefore : Unique opened := by
    unfold Unique at hunique ⊢
    rw [List.map_append] at hunique
    exact hunique.of_append_left
  cases event with
  | enter index sessionId => exact h.follows_enter hunique hstep
  | leave index sessionId => exact h.follows_leave hbefore hstep
  | push index sessionId request => exact h.follows_push hbefore hstep
  | deliver position => exact h.follows_deliver hbefore hstep

theorem replicated_new (numHandlers : Nat) :
    Replicated [] (new numHandlers : HandlerPool SessionId Request) := by
  refine ⟨?_, .nil, ?_, ?_, nofun, fun _ _ => rfl, ?_, ?_, rfl⟩
  · exact fun _ hmem => absurd hmem List.not_mem_nil
  · exact fun _ hmem => absurd hmem List.not_mem_nil
  · exact fun _ hmem => absurd hmem List.not_mem_nil
  · exact fun _ hmem => absurd hmem List.not_mem_nil
  · exact fun _ _ hmem => absurd hmem List.not_mem_nil

end lemmas

def Sound (numHandlers : Nat) (past : List (PoolEvent SessionId Request))
    (pool : HandlerPool SessionId Request) : Prop :=
  Unique (past.filterMap PoolEvent.entered) →
    pool.numHandlers = numHandlers ∧ Replicated (past.filterMap PoolEvent.entered) pool ∧
      pool.pending.Subperm (past.filterMap PoolEvent.arrived)

theorem Sound.step {numHandlers : Nat} {past : List (PoolEvent SessionId Request)}
    {pool next : HandlerPool SessionId Request} {event : PoolEvent SessionId Request}
    (h : Sound numHandlers past pool) (hstep : pool.step event = some next) :
    Sound numHandlers (past ++ [event]) next := by
  intro hunique
  have hentered : (past ++ [event]).filterMap PoolEvent.entered =
      past.filterMap PoolEvent.entered ++ event.entered.toList := by
    rw [List.filterMap_append]
    cases hevent : event.entered <;> simp [hevent]
  have harrived : (past ++ [event]).filterMap PoolEvent.arrived =
      past.filterMap PoolEvent.arrived ++ event.arrived.toList := by
    rw [List.filterMap_append]
    cases hevent : event.arrived <;> simp [hevent]
  rw [hentered] at hunique ⊢
  rw [harrived]
  have hbefore : Unique (past.filterMap PoolEvent.entered) := by
    unfold Unique at hunique ⊢
    rw [List.map_append] at hunique
    exact hunique.of_append_left
  obtain ⟨hnum, hreplicated, hpending⟩ := h hbefore
  have hfollows := hreplicated.follows hunique hstep
  refine ⟨hfollows.numHandlers.trans hnum, hfollows.replicated, hfollows.pending.trans ?_⟩
  exact (List.subperm_append_right _).mpr hpending

/-- No handler ever meets a `KeyError`. A request gets into the queue of a session at most as
often as it was pushed for that session, at the handler that owns it, and only while it is open.
Once all events are delivered the handlers know exactly the open sessions and their owners. -/
theorem registry_run {numHandlers : Nat} {events : List (PoolEvent SessionId Request)}
    {pool : HandlerPool SessionId Request} (h : LeadsTo step (new numHandlers) events pool)
    (hunique : Unique (events.filterMap PoolEvent.entered)) :
    pool.keyErrors = 0 ∧
      (pool.puts.map Prod.snd).Subperm (events.filterMap PoolEvent.arrived) ∧
      (∀ put ∈ pool.puts, (put.1, put.2.1) ∈ events.filterMap PoolEvent.entered) ∧
      (∀ index sessionId, (pool.handlers index).sessionQueues.get? sessionId =
        if (index, sessionId) ∈ pool.sessions then some (pool.putsInto index sessionId) else none) ∧
      (∀ event next, pool.step event = some next →
        Unique (events.filterMap PoolEvent.entered ++ event.entered.toList) →
          next.keyErrors = 0 ∧
            ∀ put ∈ next.puts, put ∈ pool.puts ∨ (put.1, put.2.1) ∈ pool.sessions) ∧
      (pool.inFlight = [] → ∀ index < numHandlers, ∀ sessionId owner,
        ((pool.handlers index).sessionHandlers.get? sessionId = some owner ↔
          (owner, sessionId) ∈ pool.sessions)) := by
  have hsound : Sound numHandlers events pool :=
    h.history (fun _ _ _ _ hsound hstep => Sound.step hsound hstep)
      fun _ => ⟨rfl, replicated_new numHandlers, List.nil_subperm⟩
  obtain ⟨rfl, hreplicated, hpending⟩ := hsound hunique
  refine ⟨hreplicated.noErrors, ?_, hreplicated.putsOpened, hreplicated.queues, ?_, ?_⟩
  · exact (List.sublist_append_left _ _).subperm.trans hpending
  · intro event next hstep hlater
    have hfollows := hreplicated.follows hlater hstep
    exact ⟨hfollows.replicated.noErrors, hfollows.puts⟩
  · intro hdelivered index hindex sessionId owner
    have hreplica := hreplicated.replica
    rw [hdelivered] at hreplica
    constructor
    · intro hknown
      have howner := hreplicated.known index sessionId owner hknown
      have htable : (pool.handlers index).sessionHandlers.get? sessionId = _ :=
        hreplica owner sessionId howner index hindex
      rw [hknown] at htable
      by_contra hclosed
      rw [if_neg hclosed] at htable
      cases htable
    · intro hopen
      have htable : (pool.handlers index).sessionHandlers.get? sessionId = _ :=
        hreplica owner sessionId (hreplicated.entered _ hopen) index hindex
      rw [htable, if_pos hopen]

/-- A request for a session of the first handler comes in at the second one, and another one
only after the session has ended. -/
private def forwarded : List (PoolEvent Nat Nat) :=
  [.enter 0 7, .deliver 0, .push 1 7 21, .deliver 0, .push 1 7 22, .leave 0 7, .deliver 0, .deliver 0]

theorem registry_run_forwarded :
    ∃ pool : HandlerPool Nat Nat, LeadsTo step (new 2) forwarded pool ∧ pool.keyErrors = 0 ∧
      pool.puts = [(0, 7, 21)] ∧ (pool.handlers 1).sessionHandlers.get? 7 = none := by
  have hruns : ((forwarded.foldlM step (new 2)).map fun pool : HandlerPool Nat Nat =>
      (pool.puts, (pool.handlers 1).sessionHandlers.get? 7)) = some ([(0, 7, 21)], none) := by
    decide +kernel
  obtain ⟨pool, hrun, hstate⟩ := Option.map_eq_some_iff.mp hruns
  obtain ⟨hputs, htable⟩ := Prod.mk.inj hstate
  exact ⟨pool, hrun, (registry_run hrun (by unfold Unique; decide)).1, hputs, htable⟩

end HandlerPool
end Peerz.Server
