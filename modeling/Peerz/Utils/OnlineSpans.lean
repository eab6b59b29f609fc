import Mathlib.Data.List.Induction
import Peerz.Utils.Dht

/-! The span of an online server, by its first and its later online entries. -/
namespace Peerz.Utils.Dht
open Library

variable {PeerID : Type}

/-- The first online entry opens the span, and every later one makes it reach its block. -/
def OpensAt (online : Nat → ServerInfo → Prop) (blockOffset numBlocks : Int) (peerId : PeerID)
    (span : RemoteSpanInfo PeerID) : Prop :=
  ∃ first serverInfo, online first serverInfo ∧ (∀ earlier < first, ∀ other, ¬ online earlier other) ∧
    span.start = (openSpan blockOffset numBlocks first peerId serverInfo).start ∧
    ∀ block : Int, block < span.stop ↔
      block < (openSpan blockOffset numBlocks first peerId serverInfo).stop ∨
      ∃ later other, first < later ∧ block ≤ later ∧ online later other

def Summarizes (online : Nat → ServerInfo → Prop) (blockOffset numBlocks : Int) (peerId : PeerID) :
    Option (RemoteSpanInfo PeerID) → Prop
  | none => ∀ blockIdx serverInfo, ¬ online blockIdx serverInfo
  | some span => span.state = .online ∧ OpensAt online blockOffset numBlocks peerId span

theorem summarizes_open {online : Nat → ServerInfo → Prop} {blockOffset numBlocks : Int}
    {peerId : PeerID} {first : Nat} {serverInfo : ServerInfo}
    (honline : ∀ blockIdx other,
      online blockIdx other ↔ blockIdx = first ∧ other = serverInfo)
    (hstate : serverInfo.state = .online) :
    Summarizes online blockOffset numBlocks peerId
      (some (openSpan blockOffset numBlocks first peerId serverInfo)) := by
  refine ⟨?_, first, serverInfo, (honline _ _).mpr ⟨rfl, rfl⟩, ?_, rfl, ?_⟩
  · unfold openSpan
    split <;> exact hstate
  · intro earlier hlt other h
    exact hlt.ne ((honline _ _).mp h).1
  · intro block
    refine ⟨.inl, ?_⟩
    rintro (h | ⟨later, other, hlt, -, h⟩)
    · exact h
    · exact absurd ((honline _ _).mp h).1 hlt.ne'

theorem summarizes_extend {online before : Nat → ServerInfo → Prop} {blockOffset numBlocks : Int}
    {peerId : PeerID} {last : Nat} {serverInfo : ServerInfo} {span : RemoteSpanInfo PeerID}
    (hbefore : ∀ blockIdx other, before blockIdx other → blockIdx < last)
    (honline : ∀ blockIdx other,
      online blockIdx other ↔ before blockIdx other ∨ blockIdx = last ∧ other = serverInfo)
    (h : Summarizes before blockOffset numBlocks peerId (some span)) :
    Summarizes online blockOffset numBlocks peerId (some (extendSpan span last)) := by
  obtain ⟨hstate, first, opener, hfirst, hearlier, hstart, hstop⟩ := h
  have hlt := hbefore first opener hfirst
  refine ⟨hstate, first, opener, (honline _ _).mpr (.inl hfirst), ?_, hstart, ?_⟩
  · intro earlier hltFirst other hother
    rcases (honline _ _).mp hother with hother | ⟨rfl, -⟩
    · exact hearlier earlier hltFirst other hother
    · omega
  · intro block
    change block < max span.stop (last + 1) ↔ _
    rw [lt_max_iff, hstop block]
    constructor
    · rintro ((hopen | ⟨later, other, hafter, hle, hother⟩) | hlast)
      · exact .inl hopen
      · exact .inr ⟨later, other, hafter, hle, (honline _ _).mpr (.inl hother)⟩
      · exact .inr ⟨last, serverInfo, hlt, by omega, (honline _ _).mpr (.inr ⟨rfl, rfl⟩)⟩
    · rintro (hopen | ⟨later, other, hafter, hle, hother⟩)
      · exact .inl (.inl hopen)
      · rcases (honline _ _).mp hother with hother | ⟨rfl, -⟩
        · exact .inl (.inr ⟨later, other, hafter, hle, hother⟩)
        · exact .inr (by omega)

variable [LinearOrder PeerID]

def OnlineAt (moduleInfos : List (RemoteModuleInfo PeerID)) (peerId : PeerID) (blockIdx : Nat)
    (serverInfo : ServerInfo) : Prop :=
  ∃ moduleInfo, moduleInfos[blockIdx]? = some moduleInfo ∧
    moduleInfo.servers.get? peerId = some serverInfo ∧ serverInfo.state = .online

theorem onlineAt_concat {moduleInfos : List (RemoteModuleInfo PeerID)}
    {moduleInfo : RemoteModuleInfo PeerID} {peerId : PeerID} {blockIdx : Nat}
    {serverInfo : ServerInfo} :
    OnlineAt (moduleInfos ++ [moduleInfo]) peerId blockIdx serverInfo ↔
      OnlineAt moduleInfos peerId blockIdx serverInfo ∨
      blockIdx = moduleInfos.length ∧ moduleInfo.servers.get? peerId = some serverInfo ∧
        serverInfo.state = .online := by
  unfold OnlineAt
  rcases Nat.lt_trichotomy blockIdx moduleInfos.length with hlt | rfl | hgt
  · rw [List.getElem?_append_left hlt]
    simp [hlt.ne]
  · simp
  · rw [List.getElem?_eq_none (by rw [List.length_append]; exact hgt),
      List.getElem?_eq_none hgt.le]
    simp [hgt.ne']

theorem OnlineAt.lt {moduleInfos : List (RemoteModuleInfo PeerID)} {peerId : PeerID}
    {blockIdx : Nat} {serverInfo : ServerInfo}
    (h : OnlineAt moduleInfos peerId blockIdx serverInfo) : blockIdx < moduleInfos.length := by
  obtain ⟨moduleInfo, hget, -⟩ := h
  exact (List.getElem?_eq_some_iff.mp hget).1

theorem visitOwnEntry_online (blockOffset numBlocks : Int) (peerId : PeerID)
    (block : RemoteModuleInfo PeerID × Nat) {current : Option (RemoteSpanInfo PeerID)}
    (hcurrent : ∀ span ∈ current, span.state = .online) :
    (∀ serverInfo, block.1.servers.get? peerId = some serverInfo → serverInfo.state ≠ .online) ∧
      visitOwnEntry .online blockOffset numBlocks peerId current block = current ∨
    ∃ serverInfo, block.1.servers.get? peerId = some serverInfo ∧ serverInfo.state = .online ∧
      visitOwnEntry .online blockOffset numBlocks peerId current block =
        some (match current with
          | none => openSpan blockOffset numBlocks block.2 peerId serverInfo
          | some span => extendSpan span block.2) := by
  unfold visitOwnEntry
  cases hget : block.1.servers.get? peerId with
  | none => exact .inl ⟨by simp, rfl⟩
  | some serverInfo =>
      cases hstate : serverInfo.state with
      | offline | joining =>
          refine .inl ⟨?_, ?_⟩
          · rintro other ⟨⟩
            simp [hstate]
          · simp [visitEntry, hstate, ServerState.value]
      | online =>
          refine .inr ⟨serverInfo, rfl, hstate, ?_⟩
          unfold visitEntry
          cases current with
          | none => simp [hstate]
          | some span => simp [hstate, hcurrent span rfl]

theorem foldl_visitOwnEntry_online (blockOffset numBlocks : Int) (peerId : PeerID)
    (moduleInfos : List (RemoteModuleInfo PeerID)) :
    Summarizes (OnlineAt moduleInfos peerId) blockOffset numBlocks peerId
      (moduleInfos.zipIdx.foldl (visitOwnEntry .online blockOffset numBlocks peerId) none) := by
  induction moduleInfos using List.reverseRecOn with
  | nil => simp [Summarizes, OnlineAt]
  | append_singleton moduleInfos moduleInfo ih =>
      rw [List.zipIdx_append, List.foldl_append]
      simp only [List.zipIdx_cons, List.zipIdx_nil, List.foldl_cons, List.foldl_nil, Nat.zero_add]
      generalize moduleInfos.zipIdx.foldl
        (visitOwnEntry .online blockOffset numBlocks peerId) none = current at ih
      have hcurrent : ∀ span ∈ current, span.state = .online := by
        rintro span rfl
        exact ih.1
      rcases visitOwnEntry_online blockOffset numBlocks peerId (moduleInfo, moduleInfos.length)
        hcurrent with ⟨habsent, hvisit⟩ | ⟨serverInfo, hget, hstate, hvisit⟩
      · have hsame : OnlineAt (moduleInfos ++ [moduleInfo]) peerId = OnlineAt moduleInfos peerId := by
          funext blockIdx serverInfo
          refine propext (onlineAt_concat.trans (or_iff_left ?_))
          rintro ⟨-, hget, hstate⟩
          exact habsent serverInfo hget hstate
        rw [hvisit, hsame]
        exact ih
      · have honline (blockIdx : Nat) (other : ServerInfo) :
            OnlineAt (moduleInfos ++ [moduleInfo]) peerId blockIdx other ↔
              OnlineAt moduleInfos peerId blockIdx other ∨
                blockIdx = moduleInfos.length ∧ other = serverInfo := by
          rw [onlineAt_concat, hget]
          refine or_congr_right (and_congr_right fun _ => ⟨fun h => (Option.some.inj h.1).symm, ?_⟩)
          rintro rfl
          exact ⟨rfl, hstate⟩
        rw [hvisit]
        cases current with
        | none =>
            refine summarizes_open (fun blockIdx other => ?_) hstate
            rw [honline]
            exact or_iff_right (ih blockIdx other)
        | some span => exact summarizes_extend (fun _ _ h => h.lt) honline ih

theorem computeSpans_covers_iff (moduleInfos : List (RemoteModuleInfo PeerID)) (peerId : PeerID)
    (block : Int) :
    (∃ span, (computeSpans moduleInfos .online).get? peerId = some span ∧ span.Covers block) ↔
      ∃ first serverInfo, OnlineAt moduleInfos peerId first serverInfo ∧
        (∀ earlier < first, ∀ other, ¬ OnlineAt moduleInfos peerId earlier other) ∧
        (openSpan (blockOffset moduleInfos) moduleInfos.length first peerId serverInfo).start ≤ block ∧
        (block < (openSpan (blockOffset moduleInfos) moduleInfos.length first peerId serverInfo).stop ∨
          ∃ later other, first < later ∧ block ≤ later ∧
            OnlineAt moduleInfos peerId later other) := by
  have h := foldl_visitOwnEntry_online (blockOffset moduleInfos) moduleInfos.length peerId moduleInfos
  rw [← computeSpans_get?] at h
  cases hspan : (computeSpans moduleInfos .online).get? peerId with
  | none =>
      rw [hspan] at h
      refine iff_of_false (by simp) ?_
      rintro ⟨first, serverInfo, hfirst, -⟩
      exact h first serverInfo hfirst
  | some span =>
      rw [hspan] at h
      obtain ⟨-, first, serverInfo, hfirst, hearlier, hstart, hstop⟩ := h
      constructor
      · rintro ⟨_, ⟨⟩, hcovers⟩
        exact ⟨first, serverInfo, hfirst, hearlier, hstart ▸ hcovers.1, (hstop block).mp hcovers.2⟩
      · rintro ⟨other, otherInfo, hother, hotherEarlier, hlow, hhigh⟩
        -- there is only one first entry
        have hsame : other = first := by
          rcases Nat.lt_trichotomy other first with hlt | heq | hgt
          · exact absurd hother (hearlier other hlt otherInfo)
          · exact heq
          · exact absurd hfirst (hotherEarlier first hgt serverInfo)
        subst hsame
        obtain ⟨moduleInfo, hmodule, hget, -⟩ := hfirst
        obtain ⟨otherModule, hotherModule, hotherGet, -⟩ := hother
        cases hmodule.symm.trans hotherModule
        cases hget.symm.trans hotherGet
        exact ⟨span, rfl, hstart.symm ▸ hlow, (hstop block).mpr hhigh⟩

/-! Spans over the records of every state: restricted to the online ones, they are the spans
over the online records alone. -/

def onlineOnly (current : Option (RemoteSpanInfo PeerID)) : Option (RemoteSpanInfo PeerID) :=
  current.filter fun span => span.state = .online

omit [LinearOrder PeerID] in
theorem onlineOnly_of_online {span : RemoteSpanInfo PeerID} (h : span.state = .online) :
    onlineOnly (some span) = some span := by
  simp [onlineOnly, h]

omit [LinearOrder PeerID] in
theorem onlineOnly_of_not_online {span : RemoteSpanInfo PeerID} (h : span.state ≠ .online) :
    onlineOnly (some span) = none := by
  simp [onlineOnly, h]

omit [LinearOrder PeerID] in
@[simp] theorem openSpan_serverInfo (blockOffset numBlocks blockIdx : Int) (peerId : PeerID)
    (serverInfo : ServerInfo) :
    (openSpan blockOffset numBlocks blockIdx peerId serverInfo).serverInfo = serverInfo := by
  unfold openSpan
  split <;> rfl

omit [LinearOrder PeerID] in
theorem visitEntry_onlineOnly (minState : ServerState) (blockOffset numBlocks blockIdx : Int)
    (peerId : PeerID) (serverInfo : ServerInfo) (current : Option (RemoteSpanInfo PeerID)) :
    onlineOnly (visitEntry minState blockOffset numBlocks blockIdx peerId serverInfo current) =
      visitEntry .online blockOffset numBlocks blockIdx peerId serverInfo (onlineOnly current) := by
  have hopen : (openSpan blockOffset numBlocks blockIdx peerId serverInfo).state =
      serverInfo.state := by
    rw [RemoteSpanInfo.state, openSpan_serverInfo]
  have hextend (span : RemoteSpanInfo PeerID) : (extendSpan span blockIdx).state = span.state := rfl
  have hbelow (state : ServerState) (h : state ≠ .online) : state.value < ServerState.online.value := by
    cases state with
    | offline | joining => decide
    | online => exact absurd rfl h
  by_cases hstate : serverInfo.state = .online
  · have hreached : ¬ serverInfo.state.value < minState.value := by
      rw [hstate]
      cases minState <;> decide
    have hnew := hopen.trans hstate
    unfold visitEntry
    rw [if_neg hreached, if_neg (by simp [hstate])]
    cases current with
    | none => exact onlineOnly_of_online hnew
    | some span =>
        by_cases hspan : span.state = .online
        · rw [onlineOnly_of_online hspan]
          simp only [hspan, hstate, lt_irrefl, if_true, if_false]
          exact onlineOnly_of_online ((hextend span).trans hspan)
        · rw [onlineOnly_of_not_online hspan]
          dsimp only
          rw [if_pos (hstate ▸ hbelow _ hspan)]
          exact onlineOnly_of_online hnew
  · have hold : ¬ (openSpan blockOffset numBlocks blockIdx peerId serverInfo).state = .online :=
      hopen ▸ hstate
    have hskip : visitEntry .online blockOffset numBlocks blockIdx peerId serverInfo
        (onlineOnly current) = onlineOnly current := by
      unfold visitEntry
      rw [if_pos (hbelow _ hstate)]
    rw [hskip]
    unfold visitEntry
    split
    · rfl
    · cases current with
      | none => exact onlineOnly_of_not_online hold
      | some span =>
          by_cases hspan : span.state = .online
          · have hlt := hbelow _ hstate
            dsimp only
            rw [if_neg (by rw [hspan]; exact hlt.not_gt), if_neg (by rw [hspan]; exact Ne.symm hstate)]
          · rw [onlineOnly_of_not_online hspan]
            dsimp only
            split
            · exact onlineOnly_of_not_online hold
            · split
              · exact onlineOnly_of_not_online hspan
              · exact onlineOnly_of_not_online hspan

theorem computeSpans_onlineOnly (moduleInfos : List (RemoteModuleInfo PeerID))
    (minState : ServerState) (peerId : PeerID) :
    onlineOnly ((computeSpans moduleInfos minState).get? peerId) =
      (computeSpans moduleInfos .online).get? peerId := by
  have hfold (blocks : List (RemoteModuleInfo PeerID × Nat))
      (current : Option (RemoteSpanInfo PeerID)) :
      onlineOnly (blocks.foldl (visitOwnEntry minState (blockOffset moduleInfos)
        moduleInfos.length peerId) current) =
      blocks.foldl (visitOwnEntry .online (blockOffset moduleInfos) moduleInfos.length peerId)
        (onlineOnly current) := by
    induction blocks generalizing current with
    | nil => rfl
    | cons block rest ih =>
        rw [List.foldl_cons, List.foldl_cons, ih]
        congr 1
        unfold visitOwnEntry
        cases block.1.servers.get? peerId with
        | none => rfl
        | some serverInfo => exact visitEntry_onlineOnly _ _ _ _ _ _ _
  rw [computeSpans_get?, computeSpans_get?, hfold]
  rfl

theorem computeSpans_online_eq_some_iff {moduleInfos : List (RemoteModuleInfo PeerID)}
    (minState : ServerState) {peerId : PeerID} {span : RemoteSpanInfo PeerID} :
    (computeSpans moduleInfos .online).get? peerId = some span ↔
      (computeSpans moduleInfos minState).get? peerId = some span ∧ span.state = .online := by
  rw [← computeSpans_onlineOnly moduleInfos minState, onlineOnly, Option.filter_eq_some_iff,
    decide_eq_true_eq]

def ListedIn (moduleInfos : List (RemoteModuleInfo PeerID)) (peerId : PeerID) : Prop :=
  ∃ moduleInfo ∈ moduleInfos, peerId ∈ moduleInfo.servers.keys

theorem computeSpans_offline_eq_none_iff (moduleInfos : List (RemoteModuleInfo PeerID))
    (peerId : PeerID) :
    (computeSpans moduleInfos .offline).get? peerId = none ↔ ¬ ListedIn moduleInfos peerId := by
  have hvisit (blockOffset numBlocks : Int) (block : RemoteModuleInfo PeerID × Nat)
      (current : Option (RemoteSpanInfo PeerID)) :
      visitOwnEntry .offline blockOffset numBlocks peerId current block = none ↔
        current = none ∧ peerId ∉ block.1.servers.keys := by
    rw [← Dict.get?_eq_none_iff]
    unfold visitOwnEntry
    cases hget : block.1.servers.get? peerId with
    | none => simp
    | some serverInfo =>
        refine iff_of_false (fun h => ?_) (by simp)
        cases visitEntry_eq_none h
        simp [visitEntry, ServerState.value] at h
  have hfold (blocks : List (RemoteModuleInfo PeerID × Nat))
      (current : Option (RemoteSpanInfo PeerID)) :
      blocks.foldl (visitOwnEntry .offline (blockOffset moduleInfos) moduleInfos.length peerId)
        current = none ↔
      current = none ∧ ∀ block ∈ blocks, peerId ∉ block.1.servers.keys := by
    induction blocks generalizing current with
    | nil => simp
    | cons block rest ih =>
        rw [List.foldl_cons, ih, hvisit]
        simp [and_assoc]
  rw [computeSpans_get?, hfold]
  unfold ListedIn
  constructor
  · rintro ⟨-, h⟩ ⟨moduleInfo, hmem, hkey⟩
    revert hkey
    obtain ⟨blockIdx, hlt, rfl⟩ := List.getElem_of_mem hmem
    exact h (moduleInfos[blockIdx], blockIdx)
      (List.mk_mem_zipIdx_iff_getElem?.mpr (List.getElem?_eq_getElem hlt))
  · intro h
    refine ⟨rfl, fun block hblock hkey => h ⟨block.1, ?_, hkey⟩⟩
    exact List.mem_of_getElem? (List.mk_mem_zipIdx_iff_getElem?.mp hblock)

def FirstOnline (moduleInfos : List (RemoteModuleInfo PeerID)) (peerId : PeerID) (first : Nat)
    (serverInfo : ServerInfo) : Prop :=
  OnlineAt moduleInfos peerId first serverInfo ∧
    ∀ earlier < first, ∀ other, ¬ OnlineAt moduleInfos peerId earlier other

theorem FirstOnline.unique {moduleInfos : List (RemoteModuleInfo PeerID)} {peerId : PeerID}
    {left right : Nat} {leftInfo rightInfo : ServerInfo}
    (hleft : FirstOnline moduleInfos peerId left leftInfo)
    (hright : FirstOnline moduleInfos peerId right rightInfo) :
    left = right ∧ leftInfo = rightInfo := by
  have hsame : left = right := by
    rcases Nat.lt_trichotomy left right with hlt | heq | hgt
    · exact absurd hleft.1 (hright.2 left hlt leftInfo)
    · exact heq
    · exact absurd hright.1 (hleft.2 right hgt rightInfo)
  subst hsame
  obtain ⟨leftModule, hleftModule, hleftGet, -⟩ := hleft.1
  obtain ⟨rightModule, hrightModule, hrightGet, -⟩ := hright.1
  cases hleftModule.symm.trans hrightModule
  exact ⟨rfl, Option.some.inj (hleftGet.symm.trans hrightGet)⟩

theorem FirstOnline.concat {moduleInfos : List (RemoteModuleInfo PeerID)} {peerId : PeerID}
    {first : Nat} {serverInfo : ServerInfo} (h : FirstOnline moduleInfos peerId first serverInfo)
    (moduleInfo : RemoteModuleInfo PeerID) :
    FirstOnline (moduleInfos ++ [moduleInfo]) peerId first serverInfo := by
  refine ⟨onlineAt_concat.mpr (.inl h.1), fun earlier hlt other hother => ?_⟩
  rcases onlineAt_concat.mp hother with hother | ⟨rfl, -⟩
  · exact h.2 earlier hlt other hother
  · exact absurd h.1.lt (Nat.not_lt_of_gt hlt)

private theorem foldl_visitOwnEntry_opener (blockOffset numBlocks : Int) (peerId : PeerID)
    (moduleInfos : List (RemoteModuleInfo PeerID)) {span : RemoteSpanInfo PeerID}
    (hspan : moduleInfos.zipIdx.foldl (visitOwnEntry .online blockOffset numBlocks peerId) none =
      some span) : ∃ first, FirstOnline moduleInfos peerId first span.serverInfo := by
  induction moduleInfos using List.reverseRecOn generalizing span with
  | nil => cases hspan
  | append_singleton moduleInfos moduleInfo ih =>
      rw [List.zipIdx_append, List.foldl_append] at hspan
      simp only [List.zipIdx_cons, List.zipIdx_nil, List.foldl_cons, List.foldl_nil,
        Nat.zero_add] at hspan
      have hsummary := foldl_visitOwnEntry_online blockOffset numBlocks peerId moduleInfos
      generalize moduleInfos.zipIdx.foldl
        (visitOwnEntry .online blockOffset numBlocks peerId) none = current at *
      have hcurrent : ∀ span ∈ current, span.state = .online := by
        rintro span rfl
        exact hsummary.1
      rcases visitOwnEntry_online blockOffset numBlocks peerId (moduleInfo, moduleInfos.length)
        hcurrent with ⟨-, hvisit⟩ | ⟨serverInfo, hget, hstate, hvisit⟩
      · rw [hvisit] at hspan
        obtain ⟨first, hfirst⟩ := ih hspan
        exact ⟨first, hfirst.concat moduleInfo⟩
      · rw [hvisit] at hspan
        cases Option.some.inj hspan
        cases current with
        | none =>
            dsimp only
            rw [openSpan_serverInfo]
            refine ⟨moduleInfos.length, onlineAt_concat.mpr (.inr ⟨rfl, hget, hstate⟩), ?_⟩
            intro earlier hlt other hother
            rcases onlineAt_concat.mp hother with hother | ⟨rfl, -⟩
            · exact hsummary earlier other hother
            · exact absurd hlt (Nat.lt_irrefl _)
        | some old =>
            obtain ⟨first, hfirst⟩ := ih rfl
            exact ⟨first, hfirst.concat moduleInfo⟩

theorem computeSpans_online_eq_some {moduleInfos : List (RemoteModuleInfo PeerID)}
    {peerId : PeerID} {span : RemoteSpanInfo PeerID}
    (h : (computeSpans moduleInfos .online).get? peerId = some span) :
    ∃ first, FirstOnline moduleInfos peerId first span.serverInfo ∧
      span.start = (openSpan (blockOffset moduleInfos) moduleInfos.length first peerId
        span.serverInfo).start ∧
      ∀ block : Int, block < span.stop ↔
        block < (openSpan (blockOffset moduleInfos) moduleInfos.length first peerId
          span.serverInfo).stop ∨
        ∃ later other, first < later ∧ block ≤ later ∧ OnlineAt moduleInfos peerId later other := by
  rw [computeSpans_get?] at h
  have hsummary := foldl_visitOwnEntry_online (blockOffset moduleInfos) moduleInfos.length peerId
    moduleInfos
  rw [h] at hsummary
  obtain ⟨-, opener, serverInfo, hopener, hearlier, hstart, hstop⟩ := hsummary
  obtain ⟨first, hfirst⟩ := foldl_visitOwnEntry_opener _ _ _ _ h
  obtain ⟨rfl, rfl⟩ := FirstOnline.unique ⟨hopener, hearlier⟩ hfirst
  exact ⟨opener, hfirst, hstart, hstop⟩

theorem computeSpans_online_eq_none_iff (moduleInfos : List (RemoteModuleInfo PeerID))
    (peerId : PeerID) :
    (computeSpans moduleInfos .online).get? peerId = none ↔
      ∀ blockIdx serverInfo, ¬ OnlineAt moduleInfos peerId blockIdx serverInfo := by
  have hsummary := foldl_visitOwnEntry_online (blockOffset moduleInfos) moduleInfos.length peerId
    moduleInfos
  rw [← computeSpans_get?] at hsummary
  constructor
  · intro h
    rw [h] at hsummary
    exact hsummary
  · intro h
    cases hspan : (computeSpans moduleInfos .online).get? peerId with
    | none => rfl
    | some span =>
        obtain ⟨first, hfirst, -⟩ := computeSpans_online_eq_some hspan
        exact absurd hfirst.1 (h first span.serverInfo)

end Peerz.Utils.Dht
