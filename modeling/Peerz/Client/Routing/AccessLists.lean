import Peerz.Client.Routing.Updates
import Peerz.Utils.OnlineSpans

/-! Whom the table lists after an update. The filter of `_update` looks at one block at a
time, the spans derived from its result reach over blocks it has filtered otherwise. -/
namespace Peerz.Client.Routing
open Library Utils.Dht

variable {PeerID : Type} [LinearOrder PeerID]

section filtering
variable {lists : AccessLists PeerID} {banned : Finset PeerID}

def AllBanned (lists : AccessLists PeerID) (banned : Finset PeerID)
    (blockInfo : RemoteModuleInfo PeerID) : Prop :=
  ∀ peerId serverInfo, blockInfo.servers.get? peerId = some serverInfo → lists.Admits peerId →
    peerId ∈ banned

theorem filterServers_get? {blockInfo : RemoteModuleInfo PeerID} {peerId : PeerID}
    {serverInfo : ServerInfo} :
    (filterServers lists banned blockInfo).servers.get? peerId = some serverInfo ↔
      blockInfo.servers.get? peerId = some serverInfo ∧ lists.Admits peerId ∧
        (peerId ∈ banned → AllBanned lists banned blockInfo) := by
  unfold filterServers
  dsimp only
  split
  · rename_i hsome
    obtain ⟨valid, validInfo, hvalid, hfree⟩ := Dict.size_filter_pos_iff.mp hsome.2
    rw [Dict.get?_filter, decide_eq_true_eq] at hvalid
    rw [decide_eq_true_eq] at hfree
    simp only [Dict.get?_filter, decide_eq_true_eq, and_assoc]
    refine and_congr_right fun _ => and_congr_right fun _ => ⟨fun hnot hbanned => ?_, ?_⟩
    · exact absurd hbanned hnot
    · exact fun hall hbanned => hfree (hall hbanned valid validInfo hvalid.1 hvalid.2)
  · rename_i hnone
    dsimp only
    rw [Dict.get?_filter, decide_eq_true_eq]
    refine ⟨fun h => ⟨h.1, h.2, fun hbanned valid validInfo hvalid hadmits => ?_⟩,
      fun h => ⟨h.1, h.2.1⟩⟩
    by_contra hfree
    refine hnone ⟨Dict.size_filter_lt_iff.mpr ⟨peerId, serverInfo, ?_, by simpa using hbanned⟩,
      Dict.size_filter_pos_iff.mpr ⟨valid, validInfo, ?_, by simpa using hfree⟩⟩
    · exact Dict.get?_filter.mpr ⟨h.1, decide_eq_true h.2⟩
    · exact Dict.get?_filter.mpr ⟨hvalid, decide_eq_true hadmits⟩

/-- The filter keeps an online record of the peer at this block. -/
def KeptAt (lists : AccessLists PeerID) (banned : Finset PeerID)
    (announced : List (RemoteModuleInfo PeerID)) (peerId : PeerID) (blockIdx : Nat)
    (serverInfo : ServerInfo) : Prop :=
  ∃ blockInfo, announced[blockIdx]? = some blockInfo ∧
    blockInfo.servers.get? peerId = some serverInfo ∧ serverInfo.state = .online ∧
    lists.Admits peerId ∧ (peerId ∈ banned → AllBanned lists banned blockInfo)

theorem onlineAt_filterServers {announced : List (RemoteModuleInfo PeerID)} {peerId : PeerID} :
    OnlineAt (announced.map (filterServers lists banned)) peerId =
      KeptAt lists banned announced peerId := by
  funext blockIdx serverInfo
  apply propext
  unfold OnlineAt KeptAt
  rw [List.getElem?_map]
  cases announced[blockIdx]? with
  | none => simp
  | some blockInfo =>
      simp only [Option.map_some, Option.some.injEq, exists_eq_left', filterServers_get?]
      tauto

/-- The blocks the span of the peer reaches: from where its first kept record opens it, to
the end this record announces or to the last block that keeps one. -/
def Reaches (lists : AccessLists PeerID) (banned : Finset PeerID)
    (announced : List (RemoteModuleInfo PeerID)) (peerId : PeerID) (block : Int) : Prop :=
  ∃ first serverInfo, KeptAt lists banned announced peerId first serverInfo ∧
    (∀ earlier < first, ∀ other, ¬ KeptAt lists banned announced peerId earlier other) ∧
    (openSpan (blockOffset announced) announced.length first peerId serverInfo).start ≤ block ∧
    (block < (openSpan (blockOffset announced) announced.length first peerId serverInfo).stop ∨
      ∃ later other, first < later ∧ block ≤ later ∧
        KeptAt lists banned announced peerId later other)

theorem filterServers_uid (blockInfo : RemoteModuleInfo PeerID) :
    (filterServers lists banned blockInfo).uid = blockInfo.uid := by
  unfold filterServers
  dsimp only
  split <;> rfl

theorem blockOffset_filterServers (announced : List (RemoteModuleInfo PeerID)) :
    blockOffset (announced.map (filterServers lists banned)) = blockOffset announced := by
  cases announced with
  | nil => rfl
  | cons blockInfo rest => exact congrArg ModuleUID.index (filterServers_uid blockInfo)

theorem computeSpans_filterServers_covers_iff {announced : List (RemoteModuleInfo PeerID)}
    {peerId : PeerID} {block : Int} :
    (∃ span, (computeSpans (announced.map (filterServers lists banned)) .online).get? peerId =
        some span ∧ span.Covers block) ↔ Reaches lists banned announced peerId block := by
  rw [computeSpans_covers_iff, onlineAt_filterServers, blockOffset_filterServers,
    List.length_map]
  rfl

end filtering

/-! One run of `_update` up to its commit. -/

def Manager.announced (manager : Manager PeerID) (found : ModuleUID → DHTRecord PeerID) :
    List (RemoteModuleInfo PeerID) :=
  getRemoteModuleInfos found manager.info.blockUids manager.activeAdapter

def updateEvents (found : ModuleUID → DHTRecord PeerID) (numBlocks : Nat) :
    List (ManagerEvent PeerID) :=
  .fetch found :: (List.replicate numBlocks .filterBlock ++ [.commit])

theorem leadsTo_filterBlocks (manager : Manager PeerID)
    (kept pending : List (RemoteModuleInfo PeerID)) :
    LeadsTo Manager.step { manager with phase := .filtering kept pending }
      (List.replicate pending.length .filterBlock)
      { manager with phase := (.filtering
          (kept ++ pending.map (filterServers manager.lists manager.banned)) []) } := by
  induction pending generalizing kept with
  | nil => simp
  | cons blockInfo pending ih =>
      rw [List.length_cons, List.replicate_succ, leadsTo_cons]
      refine ⟨_, rfl, ?_⟩
      have hrest := ih (kept ++ [filterServers manager.lists manager.banned blockInfo])
      rw [List.append_assoc] at hrest
      exact hrest

theorem update_of_leadsTo {manager next : Manager PeerID} {found : ModuleUID → DHTRecord PeerID}
    (hphase : manager.phase = .started)
    (hrun : LeadsTo Manager.step manager (updateEvents found manager.info.blockUids.length) next) :
    manager.info.update ((manager.announced found).map
      (filterServers manager.lists manager.banned)) = some next.info := by
  obtain ⟨fetched, hfetch, hrun⟩ := leadsTo_cons.mp hrun
  obtain ⟨filtered, hfilter, hrun⟩ := leadsTo_append.mp hrun
  obtain ⟨committed, hcommit, hrun⟩ := leadsTo_cons.mp hrun
  obtain rfl := leadsTo_nil.mp hrun
  unfold Manager.step at hfetch
  rw [hphase] at hfetch
  cases hfetch
  have hlength : (manager.announced found).length = manager.info.blockUids.length := by
    simp [Manager.announced, getRemoteModuleInfos]
  have hall := leadsTo_filterBlocks manager [] (manager.announced found)
  rw [hlength] at hall
  obtain rfl := hall.unique hfilter
  obtain ⟨kept, hkept, hupdate, -⟩ := Manager.step_commit hcommit
  cases hkept
  exact hupdate

/-- After an update every listed peer is allowed and online. A banned one is listed for a
block only where all allowed servers are banned, if and only if the span of no banned peer
reaches a block with an allowed server that is not banned. -/
theorem update_respects_iff {manager next : Manager PeerID} {found : ModuleUID → DHTRecord PeerID}
    (hphase : manager.phase = .started)
    (hrun : LeadsTo Manager.step manager (updateEvents found manager.info.blockUids.length) next) :
    (∀ (blockIdx : Nat) listed blockInfo,
      next.info.spans.spansContainingBlock[blockIdx]? = some listed →
      (manager.announced found)[blockIdx]? = some blockInfo →
      ∀ span ∈ listed, manager.lists.Admits span.peerId ∧ span.state = .online ∧
        (span.peerId ∈ manager.banned → AllBanned manager.lists manager.banned blockInfo)) ↔
    ∀ peerId ∈ manager.banned, ∀ (blockIdx : Nat) blockInfo,
      (manager.announced found)[blockIdx]? = some blockInfo →
      Reaches manager.lists manager.banned (manager.announced found) peerId blockIdx →
      AllBanned manager.lists manager.banned blockInfo := by
  have hsort := (RemoteSequenceInfo.update_spec (update_of_leadsTo hphase hrun)).2
  have hsorted := sortSpans_wellSorted hsort
  have hlisted (blockIdx : Nat) (blockInfo : RemoteModuleInfo PeerID)
      (hblock : (manager.announced found)[blockIdx]? = some blockInfo) :
      next.info.spans.spansContainingBlock[blockIdx]? =
        some (next.info.spans.spansByPriority.filter fun span => span.Covers blockIdx) := by
    have hlt := (List.getElem?_eq_some_iff.mp hblock).1
    rw [hsorted.containing, List.length_map]
    simp [hlt]
  constructor
  · intro hrespects peerId hbanned blockIdx blockInfo hblock hreaches
    obtain ⟨span, hspan, hcovers⟩ := computeSpans_filterServers_covers_iff.mpr hreaches
    have hpeer := computeSpans_peerId hspan
    have hmem := (mem_spansByPriority_iff hsort).mpr (hpeer.symm ▸ hspan)
    exact (hrespects blockIdx _ blockInfo (hlisted blockIdx blockInfo hblock) hblock span
      (List.mem_filter.mpr ⟨hmem, decide_eq_true hcovers⟩)).2.2 (hpeer.symm ▸ hbanned)
  · intro hreach blockIdx listed blockInfo hget hblock span hspan
    cases (hlisted blockIdx blockInfo hblock).symm.trans hget
    obtain ⟨hmem, hcovers⟩ := List.mem_filter.mp hspan
    have hreaches := computeSpans_filterServers_covers_iff.mp
      ⟨span, (mem_spansByPriority_iff hsort).mp hmem, of_decide_eq_true hcovers⟩
    have hadmits : manager.lists.Admits span.peerId := by
      obtain ⟨first, serverInfo, ⟨_, -, -, -, hadmits, -⟩, -⟩ := hreaches
      exact hadmits
    exact ⟨hadmits, hsorted.online span hmem,
      fun hbanned => hreach span.peerId hbanned blockIdx blockInfo hblock hreaches⟩

private def online (startBlock endBlock : Nat) : ServerInfo :=
  { state := .online, throughput := 1, startBlock := some startBlock, endBlock := some endBlock }

/-- The thread is about to fetch two blocks while server 7 is banned. -/
private def banningManager : Manager Nat where
  info := .makeEmpty [⟨"model", 0⟩, ⟨"model", 1⟩]
  lists := {}
  activeAdapter := none
  banned := {7}
  ready := true
  phase := .started

private def bothHoldAll (_ : ModuleUID) : DHTRecord Nat :=
  (Dict.empty.insert 7 (some (online 0 2))).insert 9 (some (online 0 2))

theorem update_respects_bothHoldAll : ∃ next,
    LeadsTo Manager.step banningManager (updateEvents bothHoldAll 2) next ∧
      ∀ (blockIdx : Nat) listed blockInfo,
        next.info.spans.spansContainingBlock[blockIdx]? = some listed →
        (banningManager.announced bothHoldAll)[blockIdx]? = some blockInfo →
        ∀ span ∈ listed, banningManager.lists.Admits span.peerId ∧ span.state = .online ∧
          (span.peerId ∈ banningManager.banned →
            AllBanned banningManager.lists banningManager.banned blockInfo) := by
  have hruns : ((updateEvents bothHoldAll 2).foldlM Manager.step banningManager).isSome := by
    decide +kernel
  obtain ⟨next, hrun⟩ := Option.isSome_iff_exists.mp hruns
  refine ⟨next, hrun, (update_respects_iff rfl hrun).mpr ?_⟩
  rintro peerId hbanned _ _ - ⟨first, serverInfo, ⟨blockInfo, hblock, -, -, -, hall⟩, -⟩
  -- server 9 is free on both blocks, so no record of server 7 is kept
  have hfree : blockInfo.servers.get? 9 = some (online 0 2) := by
    obtain ⟨uid, -, rfl⟩ := List.mem_map.mp (List.mem_of_getElem? hblock)
    rfl
  exact absurd (hall hbanned 9 _ hfree (by decide)) (by decide)

private def onlyBannedHoldsLast (uid : ModuleUID) : DHTRecord Nat :=
  if uid.index = 0 then
    (Dict.empty.insert 7 (some (online 0 2))).insert 9 (some (online 0 1))
  else Dict.empty.insert 7 (some (online 0 2))

/-- The banned server 7 is listed for block 0, where server 9 is not banned. -/
theorem update_lists_banned : ∃ next,
    LeadsTo Manager.step banningManager (updateEvents onlyBannedHoldsLast 2) next ∧
      ∃ listed blockInfo, next.info.spans.spansContainingBlock[0]? = some listed ∧
        (banningManager.announced onlyBannedHoldsLast)[0]? = some blockInfo ∧
        7 ∈ listed.map RemoteSpanInfo.peerId ∧ 7 ∈ banningManager.banned ∧
        ¬ AllBanned banningManager.lists banningManager.banned blockInfo := by
  have hruns : ((updateEvents onlyBannedHoldsLast 2).foldlM Manager.step banningManager).map
      (fun next => next.info.spans.spansContainingBlock.map (List.map RemoteSpanInfo.peerId)) =
      some [[7, 9], [7]] := by decide +kernel
  obtain ⟨next, hrun, hlists⟩ := Option.map_eq_some_iff.mp hruns
  have hfirst : (next.info.spans.spansContainingBlock[0]?).map (List.map RemoteSpanInfo.peerId) =
      some [7, 9] := by
    rw [← List.getElem?_map, hlists]
    rfl
  obtain ⟨listed, hlisted, hpeers⟩ := Option.map_eq_some_iff.mp hfirst
  refine ⟨next, hrun, listed, _, hlisted, rfl, hpeers ▸ List.mem_cons_self, by decide, ?_⟩
  intro hall
  exact absurd (hall 9 (online 0 1) rfl (by decide)) (by decide)

end Peerz.Client.Routing
