import Mathlib.Order.Interval.Finset.Nat
import Peerz.Library.Checked
import Peerz.Utils.OnlineSpans
import Peerz.Utils.Signature

/-! When the credited layers are the blocks that a server's span covers: the health state
against the announcements it is computed from. -/
namespace Peerz.Validator
open Library Utils.Dht Utils.Signature

/-- A prefix that `parse_uid` can split off again. -/
def Plain (dhtPrefix : String) : Prop := ' ' ∉ dhtPrefix.toList ∧ '.' ∉ dhtPrefix.toList

variable {PeerID : Type}

def coveredBlocks (span : RemoteSpanInfo PeerID) (numBlocks : Nat) : Nat :=
  ((Finset.range numBlocks).filter fun block : Nat => span.Covers block).card

theorem coveredBlocks_le (span : RemoteSpanInfo PeerID) (numBlocks : Nat) :
    coveredBlocks span numBlocks ≤ numBlocks := by
  have h := Finset.card_filter_le (Finset.range numBlocks)
    fun block : Nat => span.Covers block
  rwa [Finset.card_range] at h

theorem coveredBlocks_eq {span : RemoteSpanInfo PeerID} {numBlocks : Nat} (hstart : 0 ≤ span.start)
    (hstop : span.stop ≤ numBlocks) :
    coveredBlocks span numBlocks = (span.stop - span.start).toNat := by
  have hcovered : ((Finset.range numBlocks).filter fun block : Nat => span.Covers block) =
      Finset.Ico span.start.toNat span.stop.toNat := by
    ext block
    rw [Finset.mem_filter, Finset.mem_range, Finset.mem_Ico, RemoteSpanInfo.Covers]
    omega
  rw [coveredBlocks, hcovered, Nat.card_Ico]
  omega

def modelInfos (found : ModuleUID → DHTRecord PeerID) (model : ListedModel) :
    List (RemoteModuleInfo PeerID) :=
  getRemoteModuleInfos found (blockUids model) none

@[simp] theorem modelInfos_length (found : ModuleUID → DHTRecord PeerID) (model : ListedModel) :
    (modelInfos found model).length = model.numBlocks := by
  simp [modelInfos, getRemoteModuleInfos, blockUids]

theorem modelInfos_eq_cons (found : ModuleUID → DHTRecord PeerID) (model : ListedModel) :
    ∃ first rest, modelInfos found model = first :: rest ∧ first.uid = ⟨model.dhtPrefix, 0⟩ := by
  obtain ⟨numBlocks, hnumBlocks⟩ := Nat.exists_eq_add_of_le' model.positive
  have huids : blockUids model = ⟨model.dhtPrefix, 0⟩ ::
      (List.range numBlocks).map fun index => ⟨model.dhtPrefix, index + 1⟩ := by
    unfold blockUids
    rw [hnumBlocks, List.range_succ_eq_map, List.map_cons, List.map_map]
    rfl
  have hmapped := getRemoteModuleInfos_uids found (blockUids model) none
  rw [huids] at hmapped
  obtain ⟨first, rest, hinfos, hfirst, -⟩ := List.map_eq_cons_iff.mp hmapped
  exact ⟨first, rest, (by rw [modelInfos, huids]; exact hinfos), hfirst⟩

theorem modelInfos_blockOffset (found : ModuleUID → DHTRecord PeerID) (model : ListedModel) :
    blockOffset (modelInfos found model) = 0 := by
  obtain ⟨first, rest, hinfos, hfirst⟩ := modelInfos_eq_cons found model
  rw [hinfos, blockOffset, hfirst]

theorem parseUid_plain {uid : ModuleUID} (h : Plain uid.dhtPrefix) :
    parseUid uid = .ok (uid.dhtPrefix, uid.index) := by
  rw [parseUid, if_neg h.1, if_neg h.2]

theorem parseUid_not_plain {uid : ModuleUID} (h : ¬ Plain uid.dhtPrefix) :
    ∃ e, parseUid uid = .error e := by
  unfold parseUid
  split
  · exact ⟨_, rfl⟩
  · split
    · exact ⟨_, rfl⟩
    · rename_i hspace hdot
      exact absurd ⟨hspace, hdot⟩ h

theorem flatMap_modelInfos (found : ModuleUID → DHTRecord PeerID) (models : List ListedModel) :
    getRemoteModuleInfos found (models.flatMap blockUids) none =
      models.flatMap (modelInfos found) := by
  unfold getRemoteModuleInfos modelInfos
  rw [List.map_flatMap]
  rfl

variable [LinearOrder PeerID]

theorem modelServers_plain (found : ModuleUID → DHTRecord PeerID) {model : ListedModel}
    (h : Plain model.dhtPrefix) :
    modelServers (modelInfos found model) =
      .ok (computeSpans (modelInfos found model) .offline) := by
  obtain ⟨first, rest, hinfos, hfirst⟩ := modelInfos_eq_cons found model
  have hparse : parseUid first.uid = .ok (model.dhtPrefix, 0) := by
    rw [hfirst]
    exact parseUid_plain h
  rw [hinfos]
  unfold modelServers
  dsimp only
  rw [hparse]
  rfl

theorem modelServers_not_plain (found : ModuleUID → DHTRecord PeerID) {model : ListedModel}
    (h : ¬ Plain model.dhtPrefix) : ∃ e, modelServers (modelInfos found model) = .error e := by
  obtain ⟨first, rest, hinfos, hfirst⟩ := modelInfos_eq_cons found model
  obtain ⟨e, hparse⟩ := @parseUid_not_plain first.uid (by rw [hfirst]; exact h)
  refine ⟨e, ?_⟩
  rw [hinfos]
  unfold modelServers
  dsimp only
  rw [hparse]
  rfl

/-- The servers of all models, a later model's entry over an earlier one's. -/
def allServers (found : ModuleUID → DHTRecord PeerID) (models : List ListedModel) :
    Dict PeerID (RemoteSpanInfo PeerID) :=
  models.foldl (fun merged model => merged.update (computeSpans (modelInfos found model) .offline))
    Dict.empty

theorem visitModel_middle (found : ModuleUID → DHTRecord PeerID) (model : ListedModel)
    (before after : List (RemoteModuleInfo PeerID)) (servers : Dict PeerID (RemoteSpanInfo PeerID)) :
    visitModel (before ++ (modelInfos found model ++ after)) (servers, before.length) model =
      (modelServers (modelInfos found model)).map fun own =>
        (servers.update own, before.length + model.numBlocks) := by
  have hslice := pySlice_middle before (modelInfos found model) after
  rw [modelInfos_length] at hslice
  unfold visitModel
  dsimp only
  rw [hslice]
  cases modelServers (modelInfos found model) <;> rfl

theorem foldlM_visitModel_plain (found : ModuleUID → DHTRecord PeerID) {models : List ListedModel}
    (hplain : ∀ model ∈ models, Plain model.dhtPrefix) (before : List (RemoteModuleInfo PeerID))
    (servers : Dict PeerID (RemoteSpanInfo PeerID)) :
    ∃ offset, models.foldlM (visitModel (before ++ models.flatMap (modelInfos found)))
        (servers, before.length) =
      .ok (models.foldl (fun merged model =>
        merged.update (computeSpans (modelInfos found model) .offline)) servers, offset) := by
  induction models generalizing before servers with
  | nil => exact ⟨before.length, rfl⟩
  | cons model rest ih =>
      obtain ⟨offset, hrest⟩ := ih (fun other hmem => hplain other (List.mem_cons_of_mem _ hmem))
        (before ++ modelInfos found model)
        (servers.update (computeSpans (modelInfos found model) .offline))
      rw [List.length_append, modelInfos_length, List.append_assoc] at hrest
      refine ⟨offset, ?_⟩
      rw [List.foldlM_cons, List.flatMap_cons, visitModel_middle,
        modelServers_plain found (hplain model List.mem_cons_self)]
      exact hrest

theorem foldlM_visitModel_not_plain (found : ModuleUID → DHTRecord PeerID)
    {models : List ListedModel} (hplain : ¬ ∀ model ∈ models, Plain model.dhtPrefix)
    (before : List (RemoteModuleInfo PeerID)) (servers : Dict PeerID (RemoteSpanInfo PeerID)) :
    ∃ e, models.foldlM (visitModel (before ++ models.flatMap (modelInfos found)))
        (servers, before.length) = .error e := by
  induction models generalizing before servers with
  | nil => exact absurd (fun _ hmem => absurd hmem List.not_mem_nil) hplain
  | cons model rest ih =>
      rw [List.foldlM_cons, List.flatMap_cons, visitModel_middle]
      by_cases hmodel : Plain model.dhtPrefix
      · have hrest : ¬ ∀ other ∈ rest, Plain other.dhtPrefix := by
          intro h
          apply hplain
          intro other hother
          rcases List.mem_cons.mp hother with rfl | hother
          · exact hmodel
          · exact h other hother
        obtain ⟨e, h⟩ := ih hrest (before ++ modelInfos found model)
          (servers.update (computeSpans (modelInfos found model) .offline))
        rw [List.length_append, modelInfos_length, List.append_assoc] at h
        refine ⟨e, ?_⟩
        rw [modelServers_plain found hmodel]
        exact h
      · obtain ⟨e, h⟩ := modelServers_not_plain found hmodel
        refine ⟨e, ?_⟩
        rw [h]
        rfl

/-- The last of the models that list the peer is the one it is credited for. -/
def LastListing (found : ModuleUID → DHTRecord PeerID) (models : List ListedModel)
    (peerId : PeerID) (model : ListedModel) : Prop :=
  ∃ before after, models = before ++ model :: after ∧ ListedIn (modelInfos found model) peerId ∧
    ∀ later ∈ after, ¬ ListedIn (modelInfos found later) peerId

omit [LinearOrder PeerID] in
theorem LastListing.unique {found : ModuleUID → DHTRecord PeerID} {models : List ListedModel}
    {peerId : PeerID} {left right : ListedModel} (hleft : LastListing found models peerId left)
    (hright : LastListing found models peerId right) : left = right := by
  obtain ⟨before, after, rfl, hlisted, hafter⟩ := hleft
  obtain ⟨before', after', hsplit, hlisted', hafter'⟩ := hright
  rcases List.append_eq_append_iff.mp hsplit with ⟨middle, -, hmiddle⟩ | ⟨middle, -, hmiddle⟩
  · cases middle with
    | nil => exact (List.cons.inj hmiddle).1
    | cons head tail =>
        obtain ⟨-, hrest⟩ := List.cons.inj hmiddle
        exact absurd hlisted' (hafter right (hrest ▸ by simp))
  · cases middle with
    | nil => exact (List.cons.inj hmiddle).1.symm
    | cons head tail =>
        obtain ⟨-, hrest⟩ := List.cons.inj hmiddle
        exact absurd hlisted (hafter' left (hrest ▸ by simp))

theorem allServers_get? (found : ModuleUID → DHTRecord PeerID) (models : List ListedModel)
    (peerId : PeerID) (span : RemoteSpanInfo PeerID) :
    (allServers found models).get? peerId = some span ↔
      ∃ model, LastListing found models peerId model ∧
        (computeSpans (modelInfos found model) .offline).get? peerId = some span := by
  have hlisted (model : ListedModel) {own : RemoteSpanInfo PeerID}
      (h : (computeSpans (modelInfos found model) .offline).get? peerId = some own) :
      ListedIn (modelInfos found model) peerId := by
    by_contra hnone
    rw [(computeSpans_offline_eq_none_iff _ _).mpr hnone] at h
    cases h
  rw [allServers, Dict.get?_foldl_update]
  simp only [computeSpans_offline_eq_none_iff]
  constructor
  · rintro ⟨before, model, after, hsplit, hspan, hafter⟩
    exact ⟨model, ⟨before, after, hsplit, hlisted model hspan, hafter⟩, hspan⟩
  · rintro ⟨model, ⟨before, after, hsplit, -, hafter⟩, hspan⟩
    exact ⟨before, model, after, hsplit, hspan, hafter⟩

def OnlinePeer (found : ModuleUID → DHTRecord PeerID) (models : List ListedModel)
    (peerId : PeerID) : Prop :=
  ∃ model ∈ models, ∃ blockIdx serverInfo, OnlineAt (modelInfos found model) peerId blockIdx serverInfo

/-- Every online peer has one item, with the blocks that its span covers. -/
structure Credited (found : ModuleUID → DHTRecord PeerID) (models : List ListedModel)
    (entries : List (HealthEntry PeerID)) : Prop where
  distinct : (entries.map HealthEntry.peerId).Nodup
  peers : ∀ peerId, peerId ∈ entries.map HealthEntry.peerId ↔ OnlinePeer found models peerId
  covered : ∀ entry ∈ entries, ∃ model span, LastListing found models entry.peerId model ∧
    (computeSpans (modelInfos found model) .offline).get? entry.peerId = some span ∧
    span.state = .online ∧ entry.throughput = pyRound span.throughput ∧
    entry.layers = coveredBlocks span model.numBlocks ∧
    0 ≤ entry.layers ∧ entry.layers ≤ model.numBlocks

/-- The first online record of a peer in a model names both bounds, these are in order and
inside the model (or equal), and the peer's later online records are below the end. -/
def WellAnnounced (found : ModuleUID → DHTRecord PeerID) (model : ListedModel) (peerId : PeerID) :
    Prop :=
  ∃ first serverInfo startBlock endBlock, FirstOnline (modelInfos found model) peerId first serverInfo ∧
    serverInfo.startBlock = some startBlock ∧ serverInfo.endBlock = some endBlock ∧
    startBlock ≤ endBlock ∧ (endBlock ≤ model.numBlocks ∨ startBlock = endBlock) ∧
    ∀ later other, first < later → OnlineAt (modelInfos found model) peerId later other →
      later < endBlock

/-- The announced length is the covered one exactly for a well-announced server. -/
theorem announced_eq_covered_iff {found : ModuleUID → DHTRecord PeerID} {model : ListedModel}
    {peerId : PeerID} {span : RemoteSpanInfo PeerID}
    (hspan : (computeSpans (modelInfos found model) .online).get? peerId = some span)
    {startBlock endBlock : Nat} (hstart : span.serverInfo.startBlock = some startBlock)
    (hend : span.serverInfo.endBlock = some endBlock) :
    (endBlock : Int) - startBlock = coveredBlocks span model.numBlocks ↔
      WellAnnounced found model peerId := by
  obtain ⟨hlow, hhigh⟩ := computeSpans_bounds hspan
  obtain ⟨first, hfirst, hopenStart, hopenStop⟩ := computeSpans_online_eq_some hspan
  rw [modelInfos_blockOffset, modelInfos_length] at hopenStart hopenStop
  rw [modelInfos_length] at hhigh
  have hopen : openSpan ((0 : Nat) : Int) (model.numBlocks : Int) first peerId span.serverInfo =
      ⟨peerId, max (startBlock - 0) 0, min (endBlock - 0) model.numBlocks, span.serverInfo⟩ := by
    rw [openSpan, hstart, hend]
    rfl
  rw [hopen] at hopenStart hopenStop
  dsimp only at hopenStart hopenStop
  -- the span ends at the announced end or after the last online record
  have hreach : min (endBlock : Int) model.numBlocks ≤ span.stop := by
    have := (hopenStop (min (endBlock : Int) model.numBlocks - 1)).mpr (.inl (by omega))
    omega
  have hstop : span.stop ≤ endBlock ↔ ∀ later other, first < later →
      OnlineAt (modelInfos found model) peerId later other → later < endBlock := by
    rw [← not_lt, hopenStop endBlock]
    constructor
    · intro h later other hlt honline
      by_contra hle
      exact h (.inr ⟨later, other, hlt, by omega, honline⟩)
    · rintro h (hlt | ⟨later, other, hlt, hle, honline⟩)
      · omega
      · have := h later other hlt honline
        omega
  rw [coveredBlocks_eq hlow hhigh]
  constructor
  · intro h
    refine ⟨first, span.serverInfo, startBlock, endBlock, hfirst, hstart, hend, by omega, by omega, ?_⟩
    exact hstop.mp (by omega)
  · rintro ⟨first', serverInfo', startBlock', endBlock', hfirst', hstart', hend', hle, hinside, hlater⟩
    obtain ⟨rfl, rfl⟩ := FirstOnline.unique hfirst' hfirst
    cases Option.some.inj (hstart'.symm.trans hstart)
    cases Option.some.inj (hend'.symm.trans hend)
    have := hstop.mpr hlater
    omega

omit [LinearOrder PeerID] in
theorem onlineServer_eq_ok {peerId : PeerID} {span : RemoteSpanInfo PeerID}
    {entry : HealthEntry PeerID} :
    onlineServer peerId span = .ok entry ↔
      ∃ startBlock endBlock, span.serverInfo.startBlock = some startBlock ∧
        span.serverInfo.endBlock = some endBlock ∧
        entry = ⟨peerId, pyRound span.serverInfo.throughput, endBlock - startBlock⟩ := by
  unfold onlineServer
  cases hend : span.serverInfo.endBlock with
  | none => simp
  | some endBlock =>
      cases hstart : span.serverInfo.startBlock with
      | none => simp
      | some startBlock => simp [eq_comm]

def onlineServers (found : ModuleUID → DHTRecord PeerID) (models : List ListedModel) :
    List (PeerID × RemoteSpanInfo PeerID) :=
  (allServers found models).entries.filter fun entry => entry.2.state = .online

theorem mem_onlineServers {found : ModuleUID → DHTRecord PeerID} {models : List ListedModel}
    {peerId : PeerID} {span : RemoteSpanInfo PeerID} :
    (peerId, span) ∈ onlineServers found models ↔
      ∃ model, LastListing found models peerId model ∧
        (computeSpans (modelInfos found model) .online).get? peerId = some span := by
  rw [onlineServers, List.mem_filter, decide_eq_true_eq, ← Dict.get?_eq_some_iff, allServers_get?]
  constructor
  · rintro ⟨⟨model, hlast, hspan⟩, hstate⟩
    exact ⟨model, hlast, (computeSpans_online_eq_some_iff .offline).mpr ⟨hspan, hstate⟩⟩
  · rintro ⟨model, hlast, hspan⟩
    obtain ⟨hspan, hstate⟩ := (computeSpans_online_eq_some_iff .offline).mp hspan
    exact ⟨⟨model, hlast, hspan⟩, hstate⟩

theorem fetchHealthState_plain (modelIndex : Option (Dict String (Option ModelInfo)))
    (found : ModuleUID → DHTRecord PeerID)
    (hplain : ∀ model ∈ listedModels modelIndex, Plain model.dhtPrefix) :
    fetchHealthState modelIndex found =
      (onlineServers found (listedModels modelIndex)).mapM fun entry =>
        onlineServer entry.1 entry.2 := by
  obtain ⟨offset, hservers⟩ := foldlM_visitModel_plain found hplain [] Dict.empty
  rw [List.nil_append, List.length_nil] at hservers
  unfold fetchHealthState
  dsimp only
  rw [flatMap_modelInfos, hservers]
  rfl

theorem fetchHealthState_not_plain (modelIndex : Option (Dict String (Option ModelInfo)))
    (found : ModuleUID → DHTRecord PeerID)
    (hplain : ¬ ∀ model ∈ listedModels modelIndex, Plain model.dhtPrefix) :
    ∃ e, fetchHealthState modelIndex found = .error e := by
  obtain ⟨e, hservers⟩ := foldlM_visitModel_not_plain found hplain [] Dict.empty
  rw [List.nil_append, List.length_nil] at hservers
  refine ⟨e, ?_⟩
  unfold fetchHealthState
  dsimp only
  rw [flatMap_modelInfos, hservers]
  rfl

theorem onlineAt_of_mem_onlineServers {found : ModuleUID → DHTRecord PeerID}
    {models : List ListedModel} {peerId : PeerID} {span : RemoteSpanInfo PeerID}
    (h : (peerId, span) ∈ onlineServers found models) : OnlinePeer found models peerId := by
  obtain ⟨model, ⟨before, after, hsplit, -, -⟩, hspan⟩ := mem_onlineServers.mp h
  obtain ⟨first, hfirst, -⟩ := computeSpans_online_eq_some hspan
  exact ⟨model, hsplit ▸ by simp, first, span.serverInfo, hfirst.1⟩

/-- No prefix that `parse_uid` cannot split, and every online peer is well announced in the
last model that lists it. -/
def SoundAnnouncements (modelIndex : Option (Dict String (Option ModelInfo)))
    (found : ModuleUID → DHTRecord PeerID) : Prop :=
  (∀ model ∈ listedModels modelIndex, Plain model.dhtPrefix) ∧
    ∀ peerId, OnlinePeer found (listedModels modelIndex) peerId →
      ∃ model, LastListing found (listedModels modelIndex) peerId model ∧
        WellAnnounced found model peerId

theorem SoundAnnouncements.bounds {modelIndex : Option (Dict String (Option ModelInfo))}
    {found : ModuleUID → DHTRecord PeerID} (hsound : SoundAnnouncements modelIndex found)
    {peerId : PeerID} {span : RemoteSpanInfo PeerID}
    (hmem : (peerId, span) ∈ onlineServers found (listedModels modelIndex)) :
    ∃ model startBlock endBlock, LastListing found (listedModels modelIndex) peerId model ∧
      (computeSpans (modelInfos found model) .online).get? peerId = some span ∧
      span.serverInfo.startBlock = some startBlock ∧ span.serverInfo.endBlock = some endBlock ∧
      (endBlock : Int) - startBlock = coveredBlocks span model.numBlocks := by
  obtain ⟨model, hlast, hspan⟩ := mem_onlineServers.mp hmem
  obtain ⟨other, hother, hwell⟩ := hsound.2 peerId (onlineAt_of_mem_onlineServers hmem)
  cases hother.unique hlast
  have hwell' := hwell
  obtain ⟨first, serverInfo, startBlock, endBlock, hfirst, hstart, hend, -⟩ := hwell
  obtain ⟨opener, hopener, -⟩ := computeSpans_online_eq_some hspan
  obtain ⟨rfl, rfl⟩ := FirstOnline.unique hopener hfirst
  exact ⟨model, startBlock, endBlock, hlast, hspan, hstart, hend,
    (announced_eq_covered_iff hspan hstart hend).mpr hwell'⟩

theorem SoundAnnouncements.mem_of_onlinePeer
    {modelIndex : Option (Dict String (Option ModelInfo))} {found : ModuleUID → DHTRecord PeerID}
    (hsound : SoundAnnouncements modelIndex found) {peerId : PeerID}
    (honline : OnlinePeer found (listedModels modelIndex) peerId) :
    ∃ span, (peerId, span) ∈ onlineServers found (listedModels modelIndex) := by
  obtain ⟨model, hlast, first, serverInfo, -, -, hfirst, -⟩ := hsound.2 peerId honline
  cases hspan : (computeSpans (modelInfos found model) .online).get? peerId with
  | none =>
      exact absurd hfirst.1 ((computeSpans_online_eq_none_iff _ _).mp hspan first serverInfo)
  | some span => exact ⟨span, mem_onlineServers.mpr ⟨model, hlast, hspan⟩⟩

theorem SoundAnnouncements.credited {modelIndex : Option (Dict String (Option ModelInfo))}
    {found : ModuleUID → DHTRecord PeerID} (hsound : SoundAnnouncements modelIndex found) :
    ∃ entries, fetchHealthState modelIndex found = .ok entries ∧
      Credited found (listedModels modelIndex) entries := by
  let credit (entry : PeerID × RemoteSpanInfo PeerID) : HealthEntry PeerID :=
    ⟨entry.1, pyRound entry.2.serverInfo.throughput,
      (entry.2.serverInfo.endBlock.getD 0 : Int) - entry.2.serverInfo.startBlock.getD 0⟩
  have hitems : ∀ entry ∈ onlineServers found (listedModels modelIndex),
      onlineServer entry.1 entry.2 = .ok (credit entry) := by
    rintro ⟨peerId, span⟩ hmem
    obtain ⟨model, startBlock, endBlock, -, -, hstart, hend, -⟩ := hsound.bounds hmem
    refine onlineServer_eq_ok.mpr ⟨startBlock, endBlock, hstart, hend, ?_⟩
    simp only [credit, hstart, hend, Option.getD_some]
  have hpeers : ((onlineServers found (listedModels modelIndex)).map credit).map
      HealthEntry.peerId = (onlineServers found (listedModels modelIndex)).map Prod.fst := by
    rw [List.map_map]
    rfl
  refine ⟨_, (fetchHealthState_plain modelIndex found hsound.1).trans (mapM_eq_ok hitems), ?_⟩
  constructor
  · rw [hpeers]
    exact (allServers found _).nodupKeys.sublist (List.filter_sublist.map Prod.fst)
  · intro peerId
    rw [hpeers, List.mem_map]
    constructor
    · rintro ⟨⟨peerId, span⟩, hmem, rfl⟩
      exact onlineAt_of_mem_onlineServers hmem
    · intro honline
      obtain ⟨span, hmem⟩ := hsound.mem_of_onlinePeer honline
      exact ⟨_, hmem, rfl⟩
  · intro entry hentry
    obtain ⟨⟨peerId, span⟩, hmem, rfl⟩ := List.mem_map.mp hentry
    obtain ⟨model, startBlock, endBlock, hlast, hspan, hstart, hend, hlayers⟩ :=
      hsound.bounds hmem
    obtain ⟨hoffline, hstate⟩ := (computeSpans_online_eq_some_iff .offline).mp hspan
    have hcredit : (credit (peerId, span)).layers = coveredBlocks span model.numBlocks := by
      simp only [credit, hstart, hend, Option.getD_some]
      exact hlayers
    have hle := coveredBlocks_le span model.numBlocks
    exact ⟨model, span, hlast, hoffline, hstate, rfl, hcredit, by omega, by omega⟩

theorem Credited.sound {modelIndex : Option (Dict String (Option ModelInfo))}
    {found : ModuleUID → DHTRecord PeerID} {entries : List (HealthEntry PeerID)}
    (hfetch : fetchHealthState modelIndex found = .ok entries)
    (h : Credited found (listedModels modelIndex) entries) :
    SoundAnnouncements modelIndex found := by
  have hplain : ∀ model ∈ listedModels modelIndex, Plain model.dhtPrefix := by
    by_contra hnot
    obtain ⟨e, herror⟩ := fetchHealthState_not_plain modelIndex found hnot
    cases herror.symm.trans hfetch
  refine ⟨hplain, fun peerId honline => ?_⟩
  obtain ⟨entry, hentry, rfl⟩ := List.mem_map.mp ((h.peers peerId).mpr honline)
  obtain ⟨model, span, hlast, hoffline, hstate, -, hlayers, -⟩ := h.covered entry hentry
  have hspan := (computeSpans_online_eq_some_iff .offline).mpr ⟨hoffline, hstate⟩
  -- the item was computed from that span
  rw [fetchHealthState_plain modelIndex found hplain] at hfetch
  obtain ⟨⟨creditedPeer, credited⟩, hmem, hserver⟩ := mem_of_mapM_eq_ok hfetch hentry
  obtain ⟨startBlock, endBlock, hstart, hend, rfl⟩ := onlineServer_eq_ok.mp hserver
  obtain ⟨other, hother, hcredited⟩ := mem_onlineServers.mp hmem
  cases hother.unique hlast
  cases Option.some.inj (hspan.symm.trans hcredited)
  exact ⟨model, hlast, (announced_eq_covered_iff hspan hstart hend).mp hlayers⟩

/-- The health state credits every online peer with the blocks its span covers, and the data
to sign holds their contributions, none negative, and the sum of these. -/
def HealthStateCredited (solidityKeccak : PeerID → String)
    (modelIndex : Option (Dict String (Option ModelInfo))) (found : ModuleUID → DHTRecord PeerID) :
    Prop :=
  ∃ entries, fetchHealthState modelIndex found = .ok entries ∧
    Credited found (listedModels modelIndex) entries ∧
    (prepareDataForSigning solidityKeccak entries).contributions =
      entries.map (fun entry => (entry.throughput : Int) * entry.layers) ∧
    (∀ contribution ∈ (prepareDataForSigning solidityKeccak entries).contributions,
      0 ≤ contribution) ∧
    (prepareDataForSigning solidityKeccak entries).total =
      (prepareDataForSigning solidityKeccak entries).contributions.sum

theorem healthStateCredited_iff (solidityKeccak : PeerID → String)
    (modelIndex : Option (Dict String (Option ModelInfo))) (found : ModuleUID → DHTRecord PeerID) :
    HealthStateCredited solidityKeccak modelIndex found ↔ SoundAnnouncements modelIndex found := by
  constructor
  · rintro ⟨entries, hfetch, hcredited, -⟩
    exact hcredited.sound hfetch
  · intro hsound
    obtain ⟨entries, hfetch, hcredited⟩ := hsound.credited
    refine ⟨entries, hfetch, hcredited, rfl, ?_, prepareDataForSigning_total _ _⟩
    intro contribution hmem
    obtain ⟨entry, hentry, rfl⟩ := List.mem_map.mp hmem
    obtain ⟨-, -, -, -, -, -, -, hlayers, -⟩ := hcredited.covered entry hentry
    exact mul_nonneg (Int.natCast_nonneg _) hlayers

/-- A model of one block, and a server that announces the blocks up to the tenth. -/
def oneBlockIndex : Option (Dict String (Option ModelInfo)) :=
  some ⟨[("m", some ⟨1, Nat.le_refl 1, some "https://huggingface.co/m"⟩)], by decide⟩

def oversizedAnnouncement : ModuleUID → DHTRecord Nat := fun uid =>
  if uid = ⟨"m", 0⟩ then
    ⟨[(7, some
      { state := .online, throughput := (3 : Nat), startBlock := some 0, endBlock := some 10 })],
      by decide⟩
  else Dict.empty

/-- The server of the one block is credited for ten layers. -/
theorem healthState_oversized :
    fetchHealthState oneBlockIndex oversizedAnnouncement = .ok [⟨7, 3, 10⟩] ∧
    ¬ HealthStateCredited (fun _ => "") oneBlockIndex oversizedAnnouncement := by
  have hfetch : fetchHealthState oneBlockIndex oversizedAnnouncement = .ok [⟨7, 3, 10⟩] := by
    decide +kernel
  have hmodels : ∀ model ∈ listedModels oneBlockIndex, model.numBlocks = 1 := by
    decide +kernel
  refine ⟨hfetch, ?_⟩
  rintro ⟨entries, hentries, hcredited, -⟩
  cases Except.ok.inj (hfetch.symm.trans hentries)
  obtain ⟨model, -, ⟨before, after, hsplit, -⟩, -, -, -, -, -, hle⟩ :=
    hcredited.covered _ List.mem_cons_self
  rw [hmodels model (hsplit ▸ by simp)] at hle
  exact absurd hle (by decide)

end Peerz.Validator
