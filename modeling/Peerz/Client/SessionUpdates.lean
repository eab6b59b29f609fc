import Peerz.Client.IdealSession

/-! What an attempt of the retry loop does to the chain of server sessions: the pushes that servers
take, the update that replaces a failed session, and the step of one session. The spans of the
chain cover the model in order, its links follow it, and the loop stands where a span starts. -/
namespace Peerz.Client
open Library Server

variable {PeerID Token Cache : Type} {model : BlockModel Token Cache} {strict : Prop}

/-- The spans of a route are not empty, they lead from one block to another one, and only the
last one reaches past it. Where `strict`, that one also starts before it. -/
def Attempt.Reaches (strict : Prop) (model : BlockModel Token Cache) (attempt : Attempt PeerID) :
    Prop :=
  ∀ (first last : Int) (spans : List (RemoteSpanInfo PeerID)),
    0 ≤ first → first ≤ last → (strict → first < last) → last ≤ model.numBlocks →
    attempt.makeSequence first last = some spans →
    ∃ front final, spans = front ++ [final] ∧
      Tiles RemoteSpanInfo.start RemoteSpanInfo.stop first spans final.stop ∧
      (∀ span ∈ front, span.stop ≤ last) ∧ last ≤ final.stop ∧ (strict → final.start < last)

theorem Attempt.Reaches.truncateLast {attempt : Attempt PeerID} (h : attempt.Reaches strict model)
    {first last : Int} {spans : List (RemoteSpanInfo PeerID)} (hfirst : 0 ≤ first)
    (hle : first ≤ last) (hlt : strict → first < last) (hlast : last ≤ model.numBlocks)
    (hspans : attempt.makeSequence first last = some spans) :
    Row RemoteSpanInfo.start RemoteSpanInfo.stop strict first (truncateLast spans last) last ∧
      truncateLast spans last ≠ [] := by
  obtain ⟨front, final, rfl, htiles, hfront, hreach, hstart⟩ :=
    h first last spans hfirst hle hlt hlast hspans
  obtain ⟨htiles, -, -⟩ := tiles_concat.mp htiles
  have hbefore : final.start ≤ last := by
    rcases List.eq_nil_or_concat' front with rfl | ⟨earlier, previous, rfl⟩
    · exact Int.le_trans (Int.le_of_eq htiles.symm) hle
    · obtain ⟨-, -, hstop⟩ := tiles_concat.mp htiles
      exact hstop ▸ hfront previous (by simp)
  unfold Client.truncateLast
  rw [List.modifyLast_concat]
  refine ⟨row_append.mpr ⟨final.start, htiles.row, rfl, ?_, fun hstrict => ?_, ?_⟩, by simp⟩
  · dsimp only
    omega
  · have := hstart hstrict
    dsimp only
    omega
  · dsimp only
    exact Int.min_eq_right hreach

/-- The client's end of a server session, which no server changes. -/
structure ClientEnd (PeerID Token : Type) where
  span : RemoteSpanInfo PeerID
  sessionId : Nat
  nextSession : Option Nat
  stepped : Bool
  closed : Bool
  position : Nat
  history : Option (List Token)

namespace ServerInferenceSession

def clientEnd (session : ServerInferenceSession PeerID Token Cache) : ClientEnd PeerID Token :=
  ⟨session.span, session.sessionId, session.nextSession, session.stepped, session.closed,
    session.position, session.history⟩

/-- What the chain fixes of a server session: the blocks, the id and the session after it. -/
def place (session : ServerInferenceSession PeerID Token Cache) :
    RemoteSpanInfo PeerID × Nat × Option Nat :=
  (session.span, session.sessionId, session.nextSession)

theorem place_congr {session other : ServerInferenceSession PeerID Token Cache}
    (h : session.clientEnd = other.clientEnd) : session.place = other.place :=
  congrArg (fun client => (client.span, client.sessionId, client.nextSession)) h

section frames
variable [Add Token] (session : ServerInferenceSession PeerID Token Cache)

theorem handle_clientEnd (request : SessionRequest PeerID Token) :
    (session.handle request).session.clientEnd = session.clientEnd := by
  unfold handle
  dsimp only
  split
  · rfl
  · split <;> rfl

theorem takePush_clientEnd (push : Push PeerID Token) :
    (session.takePush push).session.clientEnd = session.clientEnd := by
  unfold takePush
  split
  · exact session.handle_clientEnd _
  · rfl

theorem exchange_clientEnd (request : SessionRequest PeerID Token) (outcome : RequestOutcome) :
    (session.exchange request outcome).session.clientEnd = session.clientEnd := by
  have hhandle : ∀ arrives : Bool, (if arrives then session.handle request
      else { session }).session.clientEnd = session.clientEnd := by
    intro arrives
    split
    · exact session.handle_clientEnd request
    · rfl
  unfold exchange
  split
  · cases outcome with
    | served =>
        dsimp only
        split
        · exact hhandle _
        · exact hhandle session.serving
    | failed handled streamLives => exact hhandle (handled && session.serving)
  · rfl

theorem step_place (config : ClientConfig) (inputs : List Token) (prompts : List (List Token))
    (hypoIds : List Nat) (stepId : Nat) (nextServers : List (NextServer PeerID Nat))
    (outcome : RequestOutcome) :
    (session.step config inputs prompts hypoIds stepId nextServers outcome).session.place =
      session.place := by
  have hplace := place_congr (exchange_clientEnd
    { session with history := some (session.extendHistory inputs), stepped := true }
    (session.stepRequest config inputs prompts hypoIds stepId nextServers) outcome)
  unfold step
  split
  · rfl
  · dsimp only
    split
    · split
      · exact hplace
      · exact hplace
    · rfl

end frames
end ServerInferenceSession

namespace InferenceSession

theorem linkSessions_eq (sessions : List (ServerInferenceSession PeerID Token Cache))
    (low high : Nat) :
    ∃ link : Nat → ServerInferenceSession PeerID Token Cache → Option Nat,
      linkSessions sessions low high =
        sessions.mapIdx fun i session => { session with nextSession := link i session } := by
  refine ⟨fun i session => if low ≤ i ∧ i < high then
    (sessions[i + 1]?).map ServerInferenceSession.sessionId else session.nextSession, ?_⟩
  unfold linkSessions
  congr 1
  funext i session
  by_cases hlinked : low ≤ i ∧ i < high
  · simp only [if_pos hlinked]
  · simp only [if_neg hlinked]

section linking
variable (link : Nat → ServerInferenceSession PeerID Token Cache → Option Nat)
  (sessions : List (ServerInferenceSession PeerID Token Cache))

theorem mapIdx_span : (sessions.mapIdx fun i session =>
    { session with nextSession := link i session }).map ServerInferenceSession.span =
      sessions.map ServerInferenceSession.span := by
  apply List.ext_getElem
  · simp
  · intro i hleft hright
    simp

theorem forall_mapIdx {P : ServerInferenceSession PeerID Token Cache → Prop}
    (hP : ∀ session nextSession, P session → P { session with nextSession := nextSession })
    (h : ∀ session ∈ sessions, P session) :
    ∀ session ∈ sessions.mapIdx fun i session =>
      { session with nextSession := link i session }, P session := by
  intro session hmem
  obtain ⟨i, hi, rfl⟩ := List.mem_mapIdx.mp hmem
  exact hP _ _ (h _ (List.getElem_mem hi))

end linking

/-- Each session's link is the session after it, and the last one has none. -/
def LinksNext (sessions : List (ServerInferenceSession PeerID Token Cache)) : Prop :=
  ∀ i session, sessions[i]? = some session →
    session.nextSession = (sessions[i + 1]?).map ServerInferenceSession.sessionId

/-- The chain between two attempts. Its ids are those of different sessions. -/
structure Chained (strict : Prop) (model : BlockModel Token Cache)
    (session : InferenceSession PeerID Token Cache) : Prop where
  spans : session.serverSessions = [] ∨
    Row RemoteSpanInfo.start RemoteSpanInfo.stop strict 0
      (session.serverSessions.map ServerInferenceSession.span) model.numBlocks
  links : LinksNext session.serverSessions
  ids : (session.serverSessions.map ServerInferenceSession.sessionId).Nodup
  fresh : ∀ serverSession ∈ session.serverSessions,
    serverSession.sessionId < session.nextSessionId

/-- A span starts at the block; where there are no spans yet, it is the first block. -/
def Located (session : InferenceSession PeerID Token Cache) (serverIdx : Nat) (blockIdx : Int) :
    Prop :=
  session.serverSessions = [] ∧ serverIdx = 0 ∧ blockIdx = 0 ∨
    ∃ current, session.serverSessions[serverIdx]? = some current ∧ current.span.start = blockIdx

section congruence
variable {sessions others : List (ServerInferenceSession PeerID Token Cache)}
  (h : sessions.map ServerInferenceSession.place = others.map ServerInferenceSession.place)
include h

theorem spans_congr : sessions.map ServerInferenceSession.span =
    others.map ServerInferenceSession.span := by
  have hspans := congrArg (List.map Prod.fst) h
  rwa [List.map_map, List.map_map] at hspans

theorem ids_congr : sessions.map ServerInferenceSession.sessionId =
    others.map ServerInferenceSession.sessionId := by
  have hids := congrArg (List.map fun place => place.2.1) h
  rwa [List.map_map, List.map_map] at hids

theorem LinksNext.congr (hlinks : LinksNext sessions) : LinksNext others := by
  intro i other hother
  have hids : (sessions[i + 1]?).map ServerInferenceSession.sessionId =
      (others[i + 1]?).map ServerInferenceSession.sessionId := by
    rw [← List.getElem?_map, ids_congr h, List.getElem?_map]
  have hplace : (sessions[i]?).map ServerInferenceSession.place = some other.place := by
    rw [← List.getElem?_map, h, List.getElem?_map, hother]
    rfl
  obtain ⟨session, hsession, hsame⟩ := Option.map_eq_some_iff.mp hplace
  rw [← hids, ← hlinks i session hsession]
  exact (congrArg (fun place => place.2.2) hsame).symm

end congruence

theorem Chained.ids_lt {session : InferenceSession PeerID Token Cache}
    (h : Chained strict model session) :
    ∀ id ∈ session.serverSessions.map ServerInferenceSession.sessionId,
      id < session.nextSessionId :=
  List.forall_mem_map.mpr h.fresh

theorem Chained.congr {session other : InferenceSession PeerID Token Cache}
    (h : Chained strict model session)
    (hplaces : session.serverSessions.map ServerInferenceSession.place =
      other.serverSessions.map ServerInferenceSession.place)
    (hfresh : session.nextSessionId = other.nextSessionId) : Chained strict model other := by
  refine ⟨?_, h.links.congr hplaces, ids_congr hplaces ▸ h.ids, ?_⟩
  · rw [← spans_congr hplaces]
    refine h.spans.imp_left fun hnil => ?_
    rw [hnil] at hplaces
    exact List.map_eq_nil_iff.mp hplaces.symm
  · have hids := h.ids_lt
    rw [ids_congr hplaces, hfresh] at hids
    exact List.forall_mem_map.mp hids

theorem Located.congr {session other : InferenceSession PeerID Token Cache} {serverIdx : Nat}
    {blockIdx : Int} (h : Located session serverIdx blockIdx)
    (hplaces : session.serverSessions.map ServerInferenceSession.place =
      other.serverSessions.map ServerInferenceSession.place) :
    Located other serverIdx blockIdx := by
  rcases h with ⟨hnil, hstart⟩ | ⟨current, hcurrent, hstart⟩
  · rw [hnil] at hplaces
    exact .inl ⟨List.map_eq_nil_iff.mp hplaces.symm, hstart⟩
  · have hspan : (other.serverSessions[serverIdx]?).map ServerInferenceSession.span =
        some current.span := by
      rw [← List.getElem?_map, ← spans_congr hplaces, List.getElem?_map, hcurrent]
      rfl
    obtain ⟨moved, hmoved, hsame⟩ := Option.map_eq_some_iff.mp hspan
    exact .inr ⟨moved, hmoved, hsame ▸ hstart⟩

section taking
variable [Add Token] (session : InferenceSession PeerID Token Cache)

theorem takePush_clientEnds (i : Nat) :
    (session.takePush i).serverSessions.map ServerInferenceSession.clientEnd =
      session.serverSessions.map ServerInferenceSession.clientEnd := by
  unfold takePush
  split
  · rfl
  · rw [List.map_map]
    exact List.map_congr_left fun serverSession _ => serverSession.takePush_clientEnd _

theorem takePushes_clientEnds (taken : List Nat) :
    (session.takePushes taken).serverSessions.map ServerInferenceSession.clientEnd =
      session.serverSessions.map ServerInferenceSession.clientEnd := by
  unfold takePushes
  induction taken generalizing session with
  | nil => rfl
  | cons i taken ih => exact (ih (session.takePush i)).trans (session.takePush_clientEnds i)

theorem takePushes_places (taken : List Nat) :
    (session.takePushes taken).serverSessions.map ServerInferenceSession.place =
      session.serverSessions.map ServerInferenceSession.place := by
  have hplaces := congrArg (List.map fun client : ClientEnd PeerID Token =>
    (client.span, client.sessionId, client.nextSession)) (session.takePushes_clientEnds taken)
  rwa [List.map_map, List.map_map] at hplaces

theorem takePushes_eq_nil (taken : List Nat) :
    (session.takePushes taken).serverSessions = [] ↔ session.serverSessions = [] := by
  rw [← List.map_eq_nil_iff (f := ServerInferenceSession.clientEnd),
    session.takePushes_clientEnds taken, List.map_eq_nil_iff]

theorem takePush_frame (i : Nat) :
    ∃ serverSessions pushes, session.takePush i =
      { session with serverSessions := serverSessions, pushes := pushes } := by
  unfold takePush
  split
  · exact ⟨_, _, rfl⟩
  · exact ⟨_, _, rfl⟩

theorem takePushes_frame (taken : List Nat) :
    ∃ serverSessions pushes, session.takePushes taken =
      { session with serverSessions := serverSessions, pushes := pushes } := by
  unfold takePushes
  induction taken generalizing session with
  | nil => exact ⟨_, _, rfl⟩
  | cons i taken ih =>
      obtain ⟨serverSessions, pushes, htaken⟩ := ih (session.takePush i)
      obtain ⟨between, left, hfirst⟩ := session.takePush_frame i
      rw [hfirst] at htaken
      rw [List.foldl_cons, hfirst]
      exact ⟨serverSessions, pushes, htaken⟩

end taking

/-! An update replaces one session by several, or only closes it. -/

theorem close_frame (session : ServerInferenceSession PeerID Token Cache) (closeOk : Bool) :
    ∃ closed serving alive, session.close closeOk =
      { session with closed := closed, serving := serving, alive := alive } := by
  unfold ServerInferenceSession.close
  split
  · exact ⟨_, _, _, rfl⟩
  · exact ⟨_, _, _, rfl⟩

theorem modify_length_append {α : Type} (done tail : List α) (f : α → α) :
    (done ++ tail).modify done.length f = done ++ tail.modifyHead f := by
  induction done with
  | nil => cases tail <;> rfl
  | cons first done ih => simpa using ih

section updating
variable (session : InferenceSession PeerID Token Cache)
  (done tail : List (ServerInferenceSession PeerID Token Cache))

def closeHead (closeOk : Bool) : InferenceSession PeerID Token Cache :=
  { session with serverSessions := done ++ tail.modifyHead fun failed => failed.close closeOk }

def replacements (model : BlockModel Token Cache) (closeOk : Bool)
    (spans : List (RemoteSpanInfo PeerID)) : List (ServerInferenceSession PeerID Token Cache) :=
  let updated := session.enterServerSessions model spans
  match tail with
  | [] => updated
  | failed :: _ =>
      updated.modifyHead fun first => { first with history := (failed.close closeOk).history }

def updateEnd (model : BlockModel Token Cache) : Int :=
  (tail.head?.map fun failed => failed.span.stop).getD model.numBlocks

def installed (model : BlockModel Token Cache) (closeOk : Bool)
    (spans : List (RemoteSpanInfo PeerID)) : InferenceSession PeerID Token Cache :=
  let updated := replacements session tail model closeOk spans
  let sessions := done ++ updated ++ tail.tail
  { session with
    serverSessions := linkSessions sessions (done.length - 1)
      (min (done.length + updated.length) (sessions.length - 1))
    nextSessionId := session.nextSessionId + updated.length }

theorem installed_eq (model : BlockModel Token Cache) (closeOk : Bool)
    (spans : List (RemoteSpanInfo PeerID)) :
    ∃ link : Nat → ServerInferenceSession PeerID Token Cache → Option Nat,
      (installed session done tail model closeOk spans).serverSessions =
        (done ++ replacements session tail model closeOk spans ++ tail.tail).mapIdx
          fun i session => { session with nextSession := link i session } :=
  linkSessions_eq _ _ _

/-- What an update can do. -/
theorem updateSequence_cases (model : BlockModel Token Cache)
    (hsessions : session.serverSessions = done ++ tail) (blockIdx : Int)
    (attempt : Attempt PeerID) :
    (session.updateSequence model done.length blockIdx attempt =
        (closeHead session done tail attempt.closeOk, false) ∧
      (attempt.makeSequence blockIdx (updateEnd tail model) = none ∨
        attempt.makeSequence blockIdx (updateEnd tail model) = some [] ∨
        attempt.sessionsOpen = false)) ∨
    ∃ spans, spans ≠ [] ∧ attempt.sessionsOpen = true ∧
      attempt.makeSequence blockIdx (updateEnd tail model) = some spans ∧
      session.updateSequence model done.length blockIdx attempt =
        (installed session done tail model attempt.closeOk
          (truncateLast spans (updateEnd tail model)), true) := by
  have hend : ((tail.modifyHead fun failed => failed.close attempt.closeOk).head?.map
      fun failed => failed.span.stop).getD (model.numBlocks : Int) = updateEnd tail model := by
    unfold updateEnd
    cases tail with
    | nil => rfl
    | cons failed rest =>
        obtain ⟨closed, serving, alive, hclose⟩ := close_frame failed attempt.closeOk
        simp [hclose]
  have hhead : (done ++ tail.modifyHead fun failed => failed.close attempt.closeOk)[done.length]? =
      (tail.modifyHead fun failed => failed.close attempt.closeOk).head? := by
    rw [List.getElem?_append_right (Nat.le_refl _), Nat.sub_self, List.head?_eq_getElem?]
  unfold updateSequence
  simp only [hsessions, modify_length_append, hhead, hend]
  split
  · rename_i hnone
    exact .inl ⟨rfl, .inl hnone⟩
  · rename_i hempty
    exact .inl ⟨rfl, .inr (.inl hempty)⟩
  · rename_i spans hne hspans
    cases hopen : attempt.sessionsOpen with
    | false => exact .inl ⟨rfl, .inr (.inr rfl)⟩
    | true =>
        refine .inr ⟨spans, hne, rfl, hspans, (if_pos rfl).trans ?_⟩
        cases tail with
        | nil =>
            have hdrop : done.drop (done.length + 1) = [] := List.drop_eq_nil_of_le (Nat.le_succ _)
            simp [installed, replacements, enterServerSessions, hdrop]
        | cons failed rest => simp [installed, replacements, enterServerSessions]

end updating

theorem enterServerSessions_span (model : BlockModel Token Cache)
    (session : InferenceSession PeerID Token Cache)
    (spans : List (RemoteSpanInfo PeerID)) :
    (session.enterServerSessions model spans).map ServerInferenceSession.span = spans := by
  unfold enterServerSessions
  rw [List.map_map]
  exact List.zipIdx_map_fst 0 spans

theorem linkSessions_map {γ : Type} {f : ServerInferenceSession PeerID Token Cache → γ}
    (hf : ∀ session nextSession, f { session with nextSession := nextSession } = f session)
    (sessions : List (ServerInferenceSession PeerID Token Cache)) (low high : Nat) :
    (linkSessions sessions low high).map f = sessions.map f := by
  obtain ⟨link, hlink⟩ := linkSessions_eq sessions low high
  rw [hlink]
  apply List.ext_getElem
  · simp
  · intro i hleft hright
    simp [hf]

theorem linksNext_linkSessions {sessions : List (ServerInferenceSession PeerID Token Cache)}
    {low high : Nat} (h : ∀ i session, sessions[i]? = some session → ¬ (low ≤ i ∧ i < high) →
      session.nextSession = (sessions[i + 1]?).map ServerInferenceSession.sessionId) :
    LinksNext (linkSessions sessions low high) := by
  intro i linked hlinked
  have hids : ((linkSessions sessions low high)[i + 1]?).map ServerInferenceSession.sessionId =
      (sessions[i + 1]?).map ServerInferenceSession.sessionId := by
    rw [← List.getElem?_map, linkSessions_map (fun _ _ => rfl), List.getElem?_map]
  rw [hids]
  unfold linkSessions at hlinked
  rw [List.getElem?_mapIdx] at hlinked
  obtain ⟨session, hsession, rfl⟩ := Option.map_eq_some_iff.mp hlinked
  split
  · rfl
  · rename_i houtside
    exact h i session hsession houtside

section updating
variable {session : InferenceSession PeerID Token Cache}
  {done tail : List (ServerInferenceSession PeerID Token Cache)} {closeOk : Bool}
  {spans : List (RemoteSpanInfo PeerID)}

theorem closeHead_places : (closeHead session done tail closeOk).serverSessions.map
    ServerInferenceSession.place = (done ++ tail).map ServerInferenceSession.place := by
  unfold closeHead
  cases tail with
  | nil => rfl
  | cons failed rest =>
      obtain ⟨closed, serving, alive, hclose⟩ := close_frame failed closeOk
      simp [hclose, ServerInferenceSession.place]

theorem replacements_places : (replacements session tail model closeOk spans).map
    ServerInferenceSession.place =
      (session.enterServerSessions model spans).map ServerInferenceSession.place := by
  unfold replacements
  cases tail with
  | nil => rfl
  | cons failed rest =>
      dsimp only
      cases session.enterServerSessions model spans with
      | nil => rfl
      | cons first others => rfl

theorem mem_replacements {opened : ServerInferenceSession PeerID Token Cache}
    (hmem : opened ∈ replacements session tail model closeOk spans) :
    ∃ entered ∈ session.enterServerSessions model spans, ∃ history,
      opened = { entered with history := history } := by
  unfold replacements at hmem
  cases tail with
  | nil => exact ⟨opened, hmem, opened.history, rfl⟩
  | cons failed rest =>
      dsimp only at hmem
      cases hentered : session.enterServerSessions model spans with
      | nil =>
          rw [hentered] at hmem
          cases hmem
      | cons first others =>
          rw [hentered] at hmem
          rcases List.mem_cons.mp hmem with rfl | hother
          · exact ⟨first, List.mem_cons_self, _, rfl⟩
          · exact ⟨opened, List.mem_cons_of_mem _ hother, opened.history, rfl⟩

theorem replacements_span :
    (replacements session tail model closeOk spans).map ServerInferenceSession.span = spans :=
  (spans_congr replacements_places).trans (enterServerSessions_span model session spans)

theorem replacements_id :
    (replacements session tail model closeOk spans).map ServerInferenceSession.sessionId =
      List.range' session.nextSessionId spans.length := by
  refine (ids_congr replacements_places).trans ?_
  unfold enterServerSessions
  apply List.ext_getElem
  · simp
  · intro i hleft hright
    simp [ServerInferenceSession.new]

theorem replacements_length : (replacements session tail model closeOk spans).length =
    spans.length := by
  rw [← List.length_map ServerInferenceSession.span, replacements_span]

theorem replacements_nextSession {opened : ServerInferenceSession PeerID Token Cache}
    (hmem : opened ∈ replacements session tail model closeOk spans) :
    opened.nextSession = none := by
  have hplace := List.mem_map_of_mem (f := ServerInferenceSession.place) hmem
  rw [replacements_places] at hplace
  obtain ⟨entered, hentered, hsame⟩ := List.mem_map.mp hplace
  obtain ⟨span, -, rfl⟩ := List.mem_map.mp hentered
  exact (congrArg (fun place => place.2.2) hsame).symm

theorem installed_map {γ : Type} {f : ServerInferenceSession PeerID Token Cache → γ}
    (hf : ∀ session nextSession, f { session with nextSession := nextSession } = f session) :
    (installed session done tail model closeOk spans).serverSessions.map f =
      done.map f ++ (replacements session tail model closeOk spans).map f ++ tail.tail.map f := by
  refine (linkSessions_map hf _ _ _).trans ?_
  rw [List.map_append, List.map_append]

theorem linksNext_installed (hlinks : LinksNext (done ++ tail)) (hne : spans ≠ []) :
    LinksNext (installed session done tail model closeOk spans).serverSessions := by
  apply linksNext_linkSessions
  intro i serverSession hget houtside
  have hlength : (replacements session tail model closeOk spans).length = spans.length :=
    replacements_length
  have hpositive : 0 < spans.length := List.length_pos_iff.mpr hne
  rw [List.length_append, List.length_append, hlength, List.length_tail] at houtside
  rcases Nat.lt_or_ge (i + 1) done.length with hdone | hdone
  · -- both ends of the link come before the replaced session
    rw [List.append_assoc, List.getElem?_append_left (by omega)] at hget ⊢
    have hold := hlinks i serverSession (by rwa [List.getElem?_append_left (by omega)])
    rwa [List.getElem?_append_left hdone] at hold
  · rcases Nat.lt_or_ge i (done.length + spans.length) with hopened | hopened
    · -- the last replacement, which nothing comes after
      rw [List.getElem?_append_left (by simpa [hlength] using hopened),
        List.getElem?_append_right (by omega)] at hget
      rw [List.getElem?_eq_none (by simp [hlength]; omega)]
      exact replacements_nextSession (List.mem_of_getElem? hget)
    · -- both ends come after it
      have hshift : ∀ j, done.length + spans.length ≤ j →
          (done ++ replacements session tail model closeOk spans ++ tail.tail)[j]? =
            (done ++ tail)[j + 1 - spans.length]? := by
        intro j hj
        rw [List.getElem?_append_right (by simpa [hlength] using hj),
          List.getElem?_append_right (by omega), List.getElem?_tail, List.length_append, hlength]
        congr 1
        omega
      rw [hshift i hopened] at hget
      rw [hlinks _ _ hget, hshift (i + 1) (by omega)]
      congr 2
      omega

theorem mem_closeHead (hsessions : session.serverSessions = done ++ tail)
    {later : ServerInferenceSession PeerID Token Cache}
    (hmem : later ∈ (closeHead session done tail closeOk).serverSessions) :
    ∃ earlier ∈ session.serverSessions, later = earlier ∨
      (∃ rest, tail = earlier :: rest) ∧ later = earlier.close closeOk := by
  rw [hsessions]
  rcases List.mem_append.mp hmem with hdone | htail
  · exact ⟨later, List.mem_append_left _ hdone, .inl rfl⟩
  · cases tail with
    | nil => cases htail
    | cons failed rest =>
        rcases List.mem_cons.mp htail with rfl | hrest
        · exact ⟨failed, by simp, .inr ⟨⟨rest, rfl⟩, rfl⟩⟩
        · exact ⟨later, by simp [hrest], .inl rfl⟩

/-- A session after an update is an earlier one or a replacement, with another link at most. -/
theorem mem_installed (hsessions : session.serverSessions = done ++ tail)
    {later : ServerInferenceSession PeerID Token Cache}
    (hmem : later ∈ (installed session done tail model closeOk spans).serverSessions) :
    ∃ earlier nextSession, later = { earlier with nextSession := nextSession } ∧
      (earlier ∈ session.serverSessions ∨
        earlier ∈ replacements session tail model closeOk spans) := by
  obtain ⟨link, hsessionsLinked⟩ := installed_eq session done tail model closeOk spans
  rw [hsessionsLinked] at hmem
  obtain ⟨i, hi, rfl⟩ := List.mem_mapIdx.mp hmem
  refine ⟨_, _, rfl, ?_⟩
  rw [hsessions]
  rcases List.mem_append.mp (List.getElem_mem hi) with hleft | hlater
  · rcases List.mem_append.mp hleft with hdone | hnew
    · exact .inl (List.mem_append_left _ hdone)
    · exact .inr hnew
  · exact .inl (List.mem_append_right _ (List.mem_of_mem_tail hlater))

variable {blockIdx : Int}

structure Cut (model : BlockModel Token Cache) (strict : Prop)
    (session : InferenceSession PeerID Token Cache) (serverIdx : Nat) (blockIdx : Int)
    (done tail : List (ServerInferenceSession PeerID Token Cache)) : Prop where
  sessions : session.serverSessions = done ++ tail
  serverIdx : serverIdx = done.length
  before : Row RemoteSpanInfo.start RemoteSpanInfo.stop strict 0
    (done.map ServerInferenceSession.span) blockIdx
  le : blockIdx ≤ updateEnd tail model
  lt : strict → blockIdx < updateEnd tail model
  after : Row RemoteSpanInfo.start RemoteSpanInfo.stop strict (updateEnd tail model)
    (tail.tail.map ServerInferenceSession.span) model.numBlocks

theorem Chained.split (h : Chained strict model session) {serverIdx : Nat}
    {current : ServerInferenceSession PeerID Token Cache}
    (hcurrent : session.serverSessions[serverIdx]? = some current) :
    ∃ done rest, Cut model strict session serverIdx current.span.start done (current :: rest) := by
  obtain ⟨hlt, rfl⟩ := List.getElem?_eq_some_iff.mp hcurrent
  have hsessions : session.serverSessions = session.serverSessions.take serverIdx ++
      session.serverSessions[serverIdx] :: session.serverSessions.drop (serverIdx + 1) := by
    rw [List.getElem_cons_drop, List.take_append_drop]
  obtain hnil | hrow := h.spans
  · rw [hnil] at hlt
    cases hlt
  · rw [hsessions, List.map_append, List.map_cons] at hrow
    obtain ⟨middle, hbefore, rfl, hle, hlt', hafter⟩ := row_append.mp hrow
    refine ⟨_, _, ⟨hsessions, ?_, hbefore, hle, hlt', hafter⟩⟩
    rw [List.length_take, Nat.min_eq_left (Nat.le_of_lt hlt)]

theorem Chained.cut (h : Chained strict model session) {serverIdx : Nat}
    (hlocated : Located session serverIdx blockIdx) (hmore : blockIdx < model.numBlocks) :
    ∃ done tail, Cut model strict session serverIdx blockIdx done tail := by
  rcases hlocated with ⟨hnil, rfl, rfl⟩ | ⟨current, hcurrent, rfl⟩
  · exact ⟨[], [], ⟨hnil, rfl, rfl, Int.le_of_lt hmore, fun _ => hmore, rfl⟩⟩
  · obtain ⟨done, rest, hcut⟩ := h.split hcurrent
    exact ⟨done, _, hcut⟩

theorem Chained.installed {serverIdx : Nat} (h : Chained strict model session)
    (hcut : Cut model strict session serverIdx blockIdx done tail)
    (hspans : Row RemoteSpanInfo.start RemoteSpanInfo.stop strict blockIdx spans
      (updateEnd tail model)) (hne : spans ≠ []) :
    Chained strict model (installed session done tail model closeOk spans) := by
  have hopened : ∀ id, id ∈ List.range' session.nextSessionId spans.length ↔
      session.nextSessionId ≤ id ∧ id < session.nextSessionId + spans.length := by
    intro id
    exact List.mem_range'_1
  have hfresh := h.ids_lt
  have hids := h.ids
  rw [hcut.sessions, List.map_append] at hids hfresh
  obtain ⟨hdone, hrest, hapart⟩ := List.nodup_append.mp hids
  have htail : ∀ id ∈ tail.tail.map ServerInferenceSession.sessionId,
      id ∈ tail.map ServerInferenceSession.sessionId := by
    rw [List.map_tail]
    exact fun id => List.mem_of_mem_tail
  refine ⟨.inr ?_, linksNext_installed (hcut.sessions ▸ h.links) hne, ?_, ?_⟩
  · rw [installed_map (fun _ _ => rfl), replacements_span, row_append]
    exact ⟨_, row_append.mpr ⟨_, hcut.before, hspans⟩, hcut.after⟩
  · rw [installed_map (fun _ _ => rfl), replacements_id, List.nodup_append, List.nodup_append]
    refine ⟨⟨hdone, List.nodup_range', ?_⟩, ?_, ?_⟩
    · intro old hold new hnew
      have := hfresh old (List.mem_append_left _ hold)
      have := ((hopened new).mp hnew).1
      omega
    · rw [List.map_tail]
      exact hrest.tail
    · intro old hold later hlater
      rcases List.mem_append.mp hold with hold | hnew
      · exact hapart old hold later (htail later hlater)
      · have := hfresh later (List.mem_append_right _ (htail later hlater))
        have := ((hopened old).mp hnew).1
        omega
  · have hall : ∀ id ∈ (InferenceSession.installed session done tail model closeOk
        spans).serverSessions.map ServerInferenceSession.sessionId,
        id < session.nextSessionId + spans.length := by
      rw [installed_map (fun _ _ => rfl), replacements_id]
      intro id hmem
      rcases List.mem_append.mp hmem with hmem | hlater
      · rcases List.mem_append.mp hmem with hold | hnew
        · have := hfresh id (List.mem_append_left _ hold)
          omega
        · exact ((hopened id).mp hnew).2
      · have := hfresh id (List.mem_append_right _ (htail id hlater))
        omega
    refine fun serverSession hmem => Nat.lt_of_lt_of_eq (hall _ (List.mem_map_of_mem hmem)) ?_
    exact congrArg (session.nextSessionId + ·) replacements_length.symm

theorem installed_current (hne : spans ≠ [])
    (hspans : Row RemoteSpanInfo.start RemoteSpanInfo.stop strict blockIdx spans
      (updateEnd tail model)) :
    ∃ current, (installed session done tail model closeOk spans).serverSessions[done.length]? =
      some current ∧ current.span.start = blockIdx := by
  cases spans with
  | nil => exact absurd rfl hne
  | cons first others =>
      have hspan : ((installed session done tail model closeOk
          (first :: others)).serverSessions[done.length]?).map ServerInferenceSession.span =
            some first := by
        rw [← List.getElem?_map, installed_map (fun _ _ => rfl), replacements_span,
          List.append_assoc, List.getElem?_append_right (by simp)]
        simp
      obtain ⟨current, hcurrent, hsame⟩ := Option.map_eq_some_iff.mp hspan
      exact ⟨current, hcurrent, (congrArg RemoteSpanInfo.start hsame).trans hspans.1⟩

end updating

/-! The parts of an attempt. -/

section attempts
variable [Add Token] {config : ClientConfig} {call : StepCall Token}
  {loop : Loop PeerID Token Cache} {attempt : Attempt PeerID}
  {session : InferenceSession PeerID Token Cache}

def nextServers (session : InferenceSession PeerID Token Cache)
    (current : ServerInferenceSession PeerID Token Cache) : List (NextServer PeerID Nat) :=
  collectNextServers session.serverSessions session.serverSessions.length current.nextSession

namespace Loop

def Updates (loop : Loop PeerID Token Cache) : Prop :=
  loop.session.serverSessions = [] ∨ 1 ≤ loop.attemptNo

/-- The session that the attempt steps, and `false` where no replacement is found. -/
def prepare (loop : Loop PeerID Token Cache) (model : BlockModel Token Cache)
    (attempt : Attempt PeerID) : InferenceSession PeerID Token Cache × Bool :=
  let session := loop.session.takePushes attempt.taken
  if session.serverSessions = [] ∨ 1 ≤ loop.attemptNo then
    session.updateSequence model loop.serverIdx loop.blockIdx attempt
  else (session, true)

def request (loop : Loop PeerID Token Cache) (config : ClientConfig) (call : StepCall Token)
    (session : InferenceSession PeerID Token Cache)
    (current : ServerInferenceSession PeerID Token Cache) (outcome : RequestOutcome) :
    Stepped PeerID Token Cache :=
  current.step config loop.inputs (pySlice call.prompts current.span.start current.span.stop)
    call.hypoIds loop.stepId (session.nextServers current) outcome

def fail (loop : Loop PeerID Token Cache) (session : InferenceSession PeerID Token Cache) :
    Loop PeerID Token Cache :=
  { loop with session := session, attemptNo := loop.attemptNo + 1 }

def Continues (loop : Loop PeerID Token Cache) (config : ClientConfig) : Prop :=
  config.maxRetries ≠ some (loop.attemptNo + 1)

instance : Decidable (loop.Continues config) := inferInstanceAs (Decidable (_ ≠ _))

end Loop

def stepped (session : InferenceSession PeerID Token Cache)
    (done rest : List (ServerInferenceSession PeerID Token Cache))
    (stepped : Stepped PeerID Token Cache) : InferenceSession PeerID Token Cache :=
  { session with
    serverSessions := done ++ stepped.session :: rest
    pushes := session.pushes ++ stepped.pushes }

namespace Loop

theorem attempt_unprepared (config : ClientConfig) (call : StepCall Token)
    (hprepare : loop.prepare model attempt = (session, false)) :
    loop.attempt config model call attempt =
      (loop.fail session, decide (loop.Continues config)) := by
  unfold prepare at hprepare
  unfold Loop.attempt
  dsimp only at hprepare ⊢
  rw [hprepare]
  rfl

theorem attempt_prepared (config : ClientConfig) (call : StepCall Token)
    {done rest : List (ServerInferenceSession PeerID Token Cache)}
    {current : ServerInferenceSession PeerID Token Cache}
    (hprepare : loop.prepare model attempt = (session, true))
    (hsessions : session.serverSessions = done ++ current :: rest)
    (hidx : loop.serverIdx = done.length) :
    loop.attempt config model call attempt =
      let answered := loop.request config call session current attempt.request
      let next := session.stepped done rest answered
      match answered.outputs with
      | none => (loop.fail next, decide (loop.Continues config))
      | some outputs =>
          ({ session := next, serverIdx := done.length + 1, blockIdx := current.span.stop,
             attemptNo := 0, inputs := outputs, stepId := loop.stepId }, true) := by
  have hcurrent : session.serverSessions[loop.serverIdx]? = some current := by
    simp [hsessions, hidx]
  have hset : ∀ stepped, session.serverSessions.set loop.serverIdx stepped =
      done ++ stepped :: rest := by
    intro stepped
    simp [hsessions, hidx]
  unfold prepare at hprepare
  unfold Loop.attempt
  dsimp only at hprepare ⊢
  rw [hprepare]
  simp only [if_true, hcurrent, hset]
  unfold Loop.request InferenceSession.stepped nextServers
  rw [← hidx]
  generalize current.step _ _ _ _ _ _ _ = answered
  obtain ⟨stepped, pushes, _ | outputs⟩ := answered
  · rfl
  · rfl

theorem attempt_eq (loop : Loop PeerID Token Cache) (config : ClientConfig)
    (model : BlockModel Token Cache) (call : StepCall Token) (attempt : Attempt PeerID) :
    (loop.prepare model attempt).2 = false ∧ loop.attempt config model call attempt =
        (loop.fail (loop.prepare model attempt).1, decide (loop.Continues config)) ∨
      (loop.prepare model attempt).1.serverSessions[loop.serverIdx]? = none ∧
        loop.attempt config model call attempt =
          (loop.fail (loop.prepare model attempt).1, decide (loop.Continues config)) ∨
      ∃ done current rest,
        (loop.prepare model attempt).1.serverSessions = done ++ current :: rest ∧
        loop.serverIdx = done.length ∧ loop.attempt config model call attempt =
          let answered := loop.request config call (loop.prepare model attempt).1 current
            attempt.request
          let next := (loop.prepare model attempt).1.stepped done rest answered
          match answered.outputs with
          | none => (loop.fail next, decide (loop.Continues config))
          | some outputs =>
              ({ session := next, serverIdx := done.length + 1, blockIdx := current.span.stop,
                 attemptNo := 0, inputs := outputs, stepId := loop.stepId }, true) := by
  obtain ⟨⟨session, ready⟩, hprepare⟩ :
      ∃ prepared, loop.prepare model attempt = prepared := ⟨_, rfl⟩
  rw [hprepare]
  cases ready with
  | false => exact .inl ⟨rfl, attempt_unprepared config call hprepare⟩
  | true =>
      right
      cases hcurrent : session.serverSessions[loop.serverIdx]? with
      | none =>
          refine .inl ⟨rfl, ?_⟩
          unfold prepare at hprepare
          unfold Loop.attempt
          dsimp only at hprepare ⊢
          rw [hprepare]
          simp only [if_true, hcurrent]
          rfl
      | some current =>
          obtain ⟨hlt, rfl⟩ := List.getElem?_eq_some_iff.mp hcurrent
          have hsessions : session.serverSessions = session.serverSessions.take loop.serverIdx ++
              session.serverSessions[loop.serverIdx] ::
                session.serverSessions.drop (loop.serverIdx + 1) := by
            rw [List.getElem_cons_drop, List.take_append_drop]
          have hidx : loop.serverIdx = (session.serverSessions.take loop.serverIdx).length :=
            (List.length_take_of_le hlt.le).symm
          exact .inr ⟨_, _, _, hsessions, hidx, attempt_prepared config call hprepare hsessions hidx⟩

end Loop

omit [Add Token] in
theorem Chained.located_zero {session : InferenceSession PeerID Token Cache}
    (h : Chained strict model session) : Located session 0 0 := by
  rcases h.spans with hnil | hrow
  · exact .inl ⟨hnil, rfl, rfl⟩
  · cases hsessions : session.serverSessions with
    | nil => exact .inl ⟨hsessions, rfl, rfl⟩
    | cons first rest =>
        rw [hsessions] at hrow
        exact .inr ⟨first, by rw [hsessions]; rfl, hrow.1⟩

theorem Chained.taken (h : Chained strict model session) (taken : List Nat) :
    Chained strict model (session.takePushes taken) := by
  refine h.congr (session.takePushes_places taken).symm ?_
  obtain ⟨serverSessions, pushes, htaken⟩ := session.takePushes_frame taken
  rw [htaken]

theorem Chained.prepare (h : Chained strict model loop.session)
    (hlocated : Located loop.session loop.serverIdx loop.blockIdx)
    (hmore : loop.blockIdx < model.numBlocks) (hreaches : attempt.Reaches strict model) :
    Chained strict model (loop.prepare model attempt).1 ∧
      Located (loop.prepare model attempt).1 loop.serverIdx loop.blockIdx ∧
      ((loop.prepare model attempt).2 = true → ∃ current,
        (loop.prepare model attempt).1.serverSessions[loop.serverIdx]? = some current ∧
          current.span.start = loop.blockIdx) := by
  replace h := h.taken attempt.taken
  replace hlocated := hlocated.congr (loop.session.takePushes_places attempt.taken).symm
  unfold Loop.prepare
  generalize loop.session.takePushes attempt.taken = session at h hlocated ⊢
  dsimp only
  split
  · obtain ⟨done, tail, hcut⟩ := h.cut hlocated hmore
    rw [hcut.serverIdx] at hlocated ⊢
    rcases updateSequence_cases session done tail model hcut.sessions loop.blockIdx
      attempt with ⟨hfailed, -⟩ | ⟨spans, -, -, hspans, hupdated⟩
    · have hplaces : session.serverSessions.map ServerInferenceSession.place =
          (closeHead session done tail attempt.closeOk).serverSessions.map
            ServerInferenceSession.place := by
        rw [closeHead_places, hcut.sessions]
      rw [hfailed]
      exact ⟨h.congr hplaces rfl, hlocated.congr hplaces, nofun⟩
    · obtain ⟨hrow, hne⟩ := hreaches.truncateLast hcut.before.le hcut.le hcut.lt hcut.after.le
        hspans
      rw [hupdated]
      exact ⟨h.installed hcut hrow hne, .inr (installed_current hne hrow),
        fun _ => installed_current hne hrow⟩
  · rename_i hready
    refine ⟨h, hlocated, fun _ => hlocated.resolve_left fun hempty => hready (.inl hempty.1)⟩

theorem forall_mem_replaced {α : Type*} {P : α → Prop} {done rest : List α} {current next : α}
    (h : ∀ item ∈ done ++ current :: rest, P item) (hnext : P next) :
    ∀ item ∈ done ++ next :: rest, P item := by
  rw [List.forall_mem_append, List.forall_mem_cons] at h ⊢
  exact ⟨h.1, hnext, h.2.2⟩

omit [Add Token] in
theorem stepped_places {done rest : List (ServerInferenceSession PeerID Token Cache)}
    {current : ServerInferenceSession PeerID Token Cache} {stepped : Stepped PeerID Token Cache}
    (hsessions : session.serverSessions = done ++ current :: rest)
    (hplace : stepped.session.place = current.place) :
    session.serverSessions.map ServerInferenceSession.place =
      (session.stepped done rest stepped).serverSessions.map ServerInferenceSession.place := by
  unfold InferenceSession.stepped
  rw [hsessions, List.map_append, List.map_append, List.map_cons, List.map_cons, hplace]

theorem Chained.attempted (h : Chained strict model loop.session)
    (hlocated : Located loop.session loop.serverIdx loop.blockIdx)
    (hmore : loop.blockIdx < model.numBlocks) (hreaches : attempt.Reaches strict model) :
    Chained strict model (loop.attempt config model call attempt).1.session ∧
      ((loop.attempt config model call attempt).1.blockIdx < model.numBlocks →
        Located (loop.attempt config model call attempt).1.session
          (loop.attempt config model call attempt).1.serverIdx
          (loop.attempt config model call attempt).1.blockIdx) := by
  obtain ⟨hchained, hplace, hready⟩ := h.prepare hlocated hmore hreaches
  obtain ⟨⟨session, ready⟩, hprepare⟩ :
      ∃ prepared, loop.prepare model attempt = prepared := ⟨_, rfl⟩
  rw [hprepare] at hchained hplace hready
  cases ready with
  | false =>
      rw [Loop.attempt_unprepared config call hprepare]
      exact ⟨hchained, fun _ => hplace⟩
  | true =>
      obtain ⟨current, hcurrent, hstart⟩ := hready rfl
      obtain ⟨done, rest, hcut⟩ := hchained.split hcurrent
      have hsame : (loop.request config call session current attempt.request).session.place =
          current.place := current.step_place ..
      have hplaces := stepped_places hcut.sessions hsame
      rw [Loop.attempt_prepared config call hprepare hcut.sessions hcut.serverIdx]
      dsimp only
      split
      · exact ⟨hchained.congr hplaces rfl, fun _ => hplace.congr hplaces⟩
      · refine ⟨hchained.congr hplaces rfl, fun hmore => ?_⟩
        cases rest with
        | nil => exact absurd hcut.after (Int.ne_of_lt hmore)
        | cons next rest => exact .inr ⟨next, by simp [stepped], hcut.after.1⟩

end attempts

end InferenceSession
end Peerz.Client
