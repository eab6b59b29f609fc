import Peerz.DataStructures

/-! What the swarm's announcements say: reading the records of the block uids and
merging each server's per-block records into one span. -/
namespace Peerz.Utils.Dht
open Library

variable {PeerID : Type}

/-- The answer of the DHT for one uid: per peer, the announcement its record parses to,
`none` for a record that `ServerInfo.from_tuple` rejects. -/
abbrev DHTRecord (PeerID : Type) := Dict PeerID (Option ServerInfo)

private theorem nodup_filterMap_fst {V W : Type} (f : V → Option W) (entries : List (PeerID × V))
    (h : (entries.map Prod.fst).Nodup) :
    ((entries.filterMap fun entry => (f entry.2).map fun value => (entry.1, value)).map
      Prod.fst).Nodup := by
  refine h.sublist ?_
  induction entries with
  | nil => exact List.Sublist.refl _
  | cons entry tail ih =>
      have htail := ih (List.nodup_cons.mp h).2
      cases hf : f entry.2 with
      | none => simpa [hf] using htail.cons entry.1
      | some value => simpa [hf] using htail.cons_cons entry.1

/-- An invalid record is skipped, as is a server without the requested adapter. An absent
and an empty adapter name both mean that none is requested. -/
def acceptServer (activeAdapter : Option String) (parsed : Option ServerInfo) :
    Option ServerInfo :=
  parsed.bind fun serverInfo =>
    match activeAdapter with
    | none => some serverInfo
    | some adapter =>
        if adapter ≠ "" ∧ adapter ∉ serverInfo.adapters then none else some serverInfo

def getRemoteModuleInfos (found : ModuleUID → DHTRecord PeerID) (uids : List ModuleUID)
    (activeAdapter : Option String) : List (RemoteModuleInfo PeerID) :=
  uids.map fun uid =>
    { uid := uid
      servers :=
        { entries := (found uid).entries.filterMap fun entry =>
            (acceptServer activeAdapter entry.2).map fun serverInfo => (entry.1, serverInfo)
          nodupKeys := nodup_filterMap_fst _ _ (found uid).nodupKeys } }

@[simp] theorem getRemoteModuleInfos_uids (found : ModuleUID → DHTRecord PeerID)
    (uids : List ModuleUID) (activeAdapter : Option String) :
    (getRemoteModuleInfos found uids activeAdapter).map RemoteModuleInfo.uid = uids := by
  simp [getRemoteModuleInfos, Function.comp_def]

theorem getRemoteModuleInfos_getElem? {found : ModuleUID → DHTRecord PeerID}
    {uids : List ModuleUID} {activeAdapter : Option String} {blockIdx : Nat}
    {moduleInfo : RemoteModuleInfo PeerID} [DecidableEq PeerID]
    (h : (getRemoteModuleInfos found uids activeAdapter)[blockIdx]? = some moduleInfo)
    (peerId : PeerID) :
    ∃ uid, uids[blockIdx]? = some uid ∧ moduleInfo.servers.get? peerId =
      ((found uid).get? peerId).bind (acceptServer activeAdapter) := by
  obtain ⟨uid, huid, rfl⟩ := Option.map_eq_some_iff.mp ((List.getElem?_map ..).symm.trans h)
  refine ⟨uid, huid, Option.ext fun serverInfo => ?_⟩
  simp [Dict.get?_eq_some_iff, Option.bind_eq_some_iff]

/-- The span a server's first entry opens. Both announced bounds are clipped to the
window of `numBlocks` blocks from `blockOffset`; nothing orders them. -/
def openSpan (blockOffset numBlocks blockIdx : Int) (peerId : PeerID) (serverInfo : ServerInfo) :
    RemoteSpanInfo PeerID :=
  match serverInfo.startBlock, serverInfo.endBlock with
  | some startBlock, some endBlock =>
      ⟨peerId, max (startBlock - blockOffset) 0, min (endBlock - blockOffset) numBlocks, serverInfo⟩
  | _, _ => ⟨peerId, blockIdx, blockIdx + 1, serverInfo⟩

def extendSpan (span : RemoteSpanInfo PeerID) (blockIdx : Int) : RemoteSpanInfo PeerID :=
  { span with stop := max span.stop (blockIdx + 1) }

def visitEntry (minState : ServerState) (blockOffset numBlocks blockIdx : Int) (peerId : PeerID)
    (serverInfo : ServerInfo) (current : Option (RemoteSpanInfo PeerID)) :
    Option (RemoteSpanInfo PeerID) :=
  if serverInfo.state.value < minState.value then current
  else
    match current with
    | none => some (openSpan blockOffset numBlocks blockIdx peerId serverInfo)
    | some span =>
        if span.state.value < serverInfo.state.value then
          some (openSpan blockOffset numBlocks blockIdx peerId serverInfo)
        else if span.state = serverInfo.state then some (extendSpan span blockIdx)
        else some span

/-- The index the window starts at, `parse_uid(module_infos[0].uid)[1]`. -/
def blockOffset (moduleInfos : List (RemoteModuleInfo PeerID)) : Nat :=
  match moduleInfos with
  | [] => 0
  | moduleInfo :: _ => moduleInfo.uid.index

theorem visitEntry_eq_none {minState : ServerState} {blockOffset numBlocks blockIdx : Int}
    {peerId : PeerID} {serverInfo : ServerInfo} {current : Option (RemoteSpanInfo PeerID)}
    (h : visitEntry minState blockOffset numBlocks blockIdx peerId serverInfo current = none) :
    current = none := by
  unfold visitEntry at h
  cases current with
  | none => rfl
  | some span =>
      dsimp only at h
      split at h
      · exact h
      · split at h
        · cases h
        · split at h <;> cases h

variable [LinearOrder PeerID]

def visitServer (minState : ServerState) (blockOffset numBlocks blockIdx : Int)
    (spans : Dict PeerID (RemoteSpanInfo PeerID)) (entry : PeerID × ServerInfo) :
    Dict PeerID (RemoteSpanInfo PeerID) :=
  match visitEntry minState blockOffset numBlocks blockIdx entry.1 entry.2 (spans.get? entry.1) with
  | none => spans
  | some span => spans.insert entry.1 span

def visitBlock (minState : ServerState) (blockOffset numBlocks : Int)
    (spans : Dict PeerID (RemoteSpanInfo PeerID)) (block : RemoteModuleInfo PeerID × Nat) :
    Dict PeerID (RemoteSpanInfo PeerID) :=
  block.1.servers.sortedItems.foldl (visitServer minState blockOffset numBlocks block.2) spans

def computeSpans (moduleInfos : List (RemoteModuleInfo PeerID)) (minState : ServerState) :
    Dict PeerID (RemoteSpanInfo PeerID) :=
  moduleInfos.zipIdx.foldl
    (visitBlock minState (blockOffset moduleInfos) moduleInfos.length) Dict.empty

/-! One server's records decide its span: the fold over all servers, restricted to a
peer, is the fold over that peer's own entries. -/

def visitOwnEntry (minState : ServerState) (blockOffset numBlocks : Int) (peerId : PeerID)
    (current : Option (RemoteSpanInfo PeerID)) (block : RemoteModuleInfo PeerID × Nat) :
    Option (RemoteSpanInfo PeerID) :=
  match block.1.servers.get? peerId with
  | none => current
  | some serverInfo =>
      visitEntry minState blockOffset numBlocks block.2 peerId serverInfo current

theorem visitServer_get?_self (minState : ServerState) (blockOffset numBlocks blockIdx : Int)
    (spans : Dict PeerID (RemoteSpanInfo PeerID)) (entry : PeerID × ServerInfo) :
    (visitServer minState blockOffset numBlocks blockIdx spans entry).get? entry.1 =
      visitEntry minState blockOffset numBlocks blockIdx entry.1 entry.2 (spans.get? entry.1) := by
  unfold visitServer
  cases hvisit : visitEntry minState blockOffset numBlocks blockIdx entry.1 entry.2
      (spans.get? entry.1) with
  | some span => simp [Dict.get?_insert]
  | none => exact visitEntry_eq_none hvisit

theorem visitServer_get?_other (minState : ServerState) (blockOffset numBlocks blockIdx : Int)
    (spans : Dict PeerID (RemoteSpanInfo PeerID)) (entry : PeerID × ServerInfo) (peerId : PeerID)
    (hne : peerId ≠ entry.1) :
    (visitServer minState blockOffset numBlocks blockIdx spans entry).get? peerId =
      spans.get? peerId := by
  unfold visitServer
  split
  · rfl
  · rw [Dict.get?_insert, if_neg hne]

private theorem foldl_visitServer_get? (minState : ServerState)
    (blockOffset numBlocks blockIdx : Int) (peerId : PeerID)
    (entries : List (PeerID × ServerInfo)) (hnodup : (entries.map Prod.fst).Nodup)
    (spans : Dict PeerID (RemoteSpanInfo PeerID)) :
    ((∀ serverInfo, (peerId, serverInfo) ∉ entries) →
      (entries.foldl (visitServer minState blockOffset numBlocks blockIdx) spans).get? peerId =
        spans.get? peerId) ∧
    (∀ serverInfo, (peerId, serverInfo) ∈ entries →
      (entries.foldl (visitServer minState blockOffset numBlocks blockIdx) spans).get? peerId =
        visitEntry minState blockOffset numBlocks blockIdx peerId serverInfo
          (spans.get? peerId)) := by
  induction entries generalizing spans with
  | nil => simp
  | cons entry tail ih =>
      obtain ⟨hhead, htail⟩ := List.nodup_cons.mp hnodup
      obtain ⟨habsent, hpresent⟩ := ih htail
        (visitServer minState blockOffset numBlocks blockIdx spans entry)
      simp only [List.foldl_cons]
      refine ⟨fun hnone => ?_, fun serverInfo hmem => ?_⟩
      · have hne : peerId ≠ entry.1 := by
          rintro rfl
          exact hnone entry.2 List.mem_cons_self
        rw [habsent fun serverInfo h => hnone serverInfo (List.mem_cons_of_mem _ h),
          visitServer_get?_other _ _ _ _ _ _ _ hne]
      · rcases List.mem_cons.mp hmem with rfl | hmem
        · rw [habsent, visitServer_get?_self]
          intro other h
          exact hhead (List.mem_map.mpr ⟨_, h, rfl⟩)
        · have hne : peerId ≠ entry.1 := by
            rintro rfl
            exact hhead (List.mem_map.mpr ⟨_, hmem, rfl⟩)
          rw [hpresent serverInfo hmem, visitServer_get?_other _ _ _ _ _ _ _ hne]

theorem visitBlock_get? (minState : ServerState) (blockOffset numBlocks : Int) (peerId : PeerID)
    (spans : Dict PeerID (RemoteSpanInfo PeerID)) (block : RemoteModuleInfo PeerID × Nat) :
    (visitBlock minState blockOffset numBlocks spans block).get? peerId =
      visitOwnEntry minState blockOffset numBlocks peerId (spans.get? peerId) block := by
  obtain ⟨habsent, hpresent⟩ := foldl_visitServer_get? minState blockOffset numBlocks block.2
    peerId block.1.servers.sortedItems block.1.servers.sortedItems_nodupKeys spans
  have hperm (serverInfo : ServerInfo) : (peerId, serverInfo) ∈ block.1.servers.sortedItems ↔
      block.1.servers.get? peerId = some serverInfo := by
    rw [block.1.servers.sortedItems_perm.mem_iff, Dict.get?_eq_some_iff]
  unfold visitBlock visitOwnEntry
  cases hget : block.1.servers.get? peerId with
  | none => exact habsent fun serverInfo h => by simp [(hperm serverInfo).mp h] at hget
  | some serverInfo => exact hpresent serverInfo ((hperm serverInfo).mpr hget)

theorem foldl_visitBlock_get? (minState : ServerState) (blockOffset numBlocks : Int)
    (peerId : PeerID) (blocks : List (RemoteModuleInfo PeerID × Nat))
    (spans : Dict PeerID (RemoteSpanInfo PeerID)) :
    (blocks.foldl (visitBlock minState blockOffset numBlocks) spans).get? peerId =
      blocks.foldl (visitOwnEntry minState blockOffset numBlocks peerId) (spans.get? peerId) := by
  induction blocks generalizing spans with
  | nil => rfl
  | cons block tail ih => rw [List.foldl_cons, ih, visitBlock_get?, List.foldl_cons]

theorem computeSpans_get? (moduleInfos : List (RemoteModuleInfo PeerID)) (minState : ServerState)
    (peerId : PeerID) :
    (computeSpans moduleInfos minState).get? peerId =
      moduleInfos.zipIdx.foldl
        (visitOwnEntry minState (blockOffset moduleInfos) moduleInfos.length peerId) none := by
  rw [computeSpans, foldl_visitBlock_get?, Dict.get?_empty]

/-- The induction rule for a server's span: it holds of every span an entry opens, and an
entry of the same state in a later block keeps it. -/
theorem computeSpans_induction {moduleInfos : List (RemoteModuleInfo PeerID)}
    {minState : ServerState} {peerId : PeerID} (P : RemoteSpanInfo PeerID → Prop)
    (hopen : ∀ (blockIdx : Nat) (moduleInfo : RemoteModuleInfo PeerID) (serverInfo : ServerInfo),
      moduleInfos[blockIdx]? = some moduleInfo →
      moduleInfo.servers.get? peerId = some serverInfo → minState.value ≤ serverInfo.state.value →
      P (openSpan (blockOffset moduleInfos) moduleInfos.length blockIdx peerId serverInfo))
    (hextend : ∀ (blockIdx : Nat) (span : RemoteSpanInfo PeerID), blockIdx < moduleInfos.length →
      P span → P (extendSpan span blockIdx))
    {span : RemoteSpanInfo PeerID}
    (hspan : (computeSpans moduleInfos minState).get? peerId = some span) : P span := by
  rw [computeSpans_get?] at hspan
  have hfold : ∀ (blocks : List (RemoteModuleInfo PeerID × Nat))
      (current : Option (RemoteSpanInfo PeerID)),
      (∀ block ∈ blocks, moduleInfos[block.2]? = some block.1) → (∀ kept ∈ current, P kept) →
      ∀ kept ∈ blocks.foldl
        (visitOwnEntry minState (blockOffset moduleInfos) moduleInfos.length peerId) current,
        P kept := by
    intro blocks
    induction blocks with
    | nil => exact fun current _ hcurrent => hcurrent
    | cons block tail ih =>
        intro current hblocks hcurrent
        refine ih _ (fun other h => hblocks other (List.mem_cons_of_mem _ h)) ?_
        have hblock := hblocks block List.mem_cons_self
        unfold visitOwnEntry
        cases hget : block.1.servers.get? peerId with
        | none => exact hcurrent
        | some serverInfo =>
            unfold visitEntry
            dsimp only
            split
            · exact hcurrent
            · rename_i hstate
              have hnew := hopen block.2 block.1 serverInfo hblock hget (Nat.le_of_not_lt hstate)
              have hlt : block.2 < moduleInfos.length := (List.getElem?_eq_some_iff.mp hblock).1
              cases current with
              | none =>
                  rintro kept ⟨⟩
                  exact hnew
              | some old =>
                  have hold := hcurrent old rfl
                  intro kept hkept
                  dsimp only at hkept
                  split at hkept
                  · cases hkept
                    exact hnew
                  · split at hkept
                    · cases hkept
                      exact hextend block.2 old hlt hold
                    · cases hkept
                      exact hold
  refine hfold _ none (fun block hblock => ?_) (by simp) span hspan
  obtain ⟨info, index⟩ := block
  exact List.mk_mem_zipIdx_iff_getElem?.mp hblock

theorem computeSpans_peerId {moduleInfos : List (RemoteModuleInfo PeerID)}
    {minState : ServerState} {peerId : PeerID} {span : RemoteSpanInfo PeerID}
    (h : (computeSpans moduleInfos minState).get? peerId = some span) : span.peerId = peerId := by
  refine computeSpans_induction (fun span => span.peerId = peerId) ?_ (fun _ _ _ h => h) h
  intro blockIdx moduleInfo serverInfo _ _ _
  unfold openSpan
  split <;> rfl

theorem computeSpans_bounds {moduleInfos : List (RemoteModuleInfo PeerID)}
    {minState : ServerState} {peerId : PeerID} {span : RemoteSpanInfo PeerID}
    (h : (computeSpans moduleInfos minState).get? peerId = some span) :
    0 ≤ span.start ∧ span.stop ≤ moduleInfos.length := by
  refine computeSpans_induction
    (fun span => 0 ≤ span.start ∧ span.stop ≤ moduleInfos.length) ?_ ?_ h
  · intro blockIdx moduleInfo serverInfo hblock _ _
    have hlt : blockIdx < moduleInfos.length := (List.getElem?_eq_some_iff.mp hblock).1
    unfold openSpan
    split
    · dsimp only
      omega
    · dsimp only
      omega
  · intro blockIdx span hlt hspan
    simp only [extendSpan]
    omega

theorem computeSpans_state {moduleInfos : List (RemoteModuleInfo PeerID)}
    {minState : ServerState} {peerId : PeerID} {span : RemoteSpanInfo PeerID}
    (h : (computeSpans moduleInfos minState).get? peerId = some span) :
    minState.value ≤ span.state.value := by
  refine computeSpans_induction (fun span => minState.value ≤ span.state.value) ?_
    (fun _ _ _ h => h) h
  intro blockIdx moduleInfo serverInfo _ _ hstate
  unfold openSpan
  split <;> exact hstate

end Peerz.Utils.Dht
