import Mathlib.Data.List.Induction
import Peerz.Utils.Dht

/-! The spans of servers that announce the same at all their blocks: the two ways in which a span
gets its bounds, from the announcement and block by block, agree. -/
namespace Peerz.Utils.Dht
open Library

variable {PeerID : Type}

def Window (moduleInfos : List (RemoteModuleInfo PeerID)) (offset : Nat) : Prop :=
  ∀ blockIdx moduleInfo, moduleInfos[blockIdx]? = some moduleInfo →
    moduleInfo.uid.index = offset + blockIdx

theorem Window.blockOffset {moduleInfos : List (RemoteModuleInfo PeerID)} {offset : Nat}
    (h : Window moduleInfos offset) (hnonempty : moduleInfos ≠ []) :
    blockOffset moduleInfos = offset := by
  obtain ⟨first, rest, rfl⟩ := List.exists_cons_of_ne_nil hnonempty
  exact h 0 first rfl

variable [LinearOrder PeerID]

/-- A server has this entry at the blocks with the numbers from `low` to `high`, and none at the
others. -/
def ListedFrom (moduleInfos : List (RemoteModuleInfo PeerID)) (peerId : PeerID)
    (serverInfo : ServerInfo) (low high : Nat) : Prop :=
  ∀ moduleInfo ∈ moduleInfos, moduleInfo.servers.get? peerId =
    if low ≤ moduleInfo.uid.index ∧ moduleInfo.uid.index < high then some serverInfo else none

/-- The run is the announced one, where the server announces one. -/
def AnnouncesRun (moduleInfos : List (RemoteModuleInfo PeerID)) (peerId : PeerID)
    (serverInfo : ServerInfo) : Prop :=
  match serverInfo.startBlock, serverInfo.endBlock with
  | some startBlock, some endBlock =>
      ListedFrom moduleInfos peerId serverInfo startBlock endBlock
  | _, _ => ∃ low high, ListedFrom moduleInfos peerId serverInfo low high

/-- Every entry of a server is that of its run. -/
def AnnounceRuns (moduleInfos : List (RemoteModuleInfo PeerID)) : Prop :=
  ∀ moduleInfo ∈ moduleInfos, ∀ peerId serverInfo,
    moduleInfo.servers.get? peerId = some serverInfo → AnnouncesRun moduleInfos peerId serverInfo

/-- The span is that of its server's present blocks, by their places in the window. -/
structure Hosts (moduleInfos : List (RemoteModuleInfo PeerID)) (offset : Nat)
    (span : RemoteSpanInfo PeerID) : Prop where
  low : 0 ≤ span.start
  nonempty : span.start < span.stop
  high : span.stop ≤ moduleInfos.length
  entries : ∀ moduleInfo ∈ moduleInfos, moduleInfo.servers.get? span.peerId =
    if span.Covers (moduleInfo.uid.index - offset) then some span.serverInfo else none

theorem foldl_visitOwnEntry_run {minState : ServerState} {blockOffset numBlocks : Int}
    {peerId : PeerID} {serverInfo : ServerInfo} {low high : Nat} {opened : Int}
    (hstate : minState.value ≤ serverInfo.state.value) (hrun : low < high)
    (hopen : openSpan blockOffset numBlocks low peerId serverInfo =
      ⟨peerId, low, opened, serverInfo⟩)
    (hopened : low < opened) (moduleInfos : List (RemoteModuleInfo PeerID))
    (hentries : ∀ blockIdx moduleInfo, moduleInfos[blockIdx]? = some moduleInfo →
      moduleInfo.servers.get? peerId =
        if low ≤ blockIdx ∧ blockIdx < high then some serverInfo else none) :
    moduleInfos.zipIdx.foldl (visitOwnEntry minState blockOffset numBlocks peerId) none =
      if moduleInfos.length ≤ low then none
      else some ⟨peerId, low, max opened (min moduleInfos.length high), serverInfo⟩ := by
  induction moduleInfos using List.reverseRecOn with
  | nil => rfl
  | append_singleton moduleInfos last ih =>
      have hbefore := ih fun blockIdx moduleInfo h => hentries blockIdx moduleInfo
        (List.getElem?_append_left (List.getElem?_eq_some_iff.mp h).1 ▸ h)
      have hlast := hentries moduleInfos.length last List.getElem?_concat_length
      rw [List.zipIdx_append, List.foldl_append, hbefore, List.zipIdx_singleton, Nat.zero_add,
        List.foldl_cons, List.foldl_nil, visitOwnEntry]
      dsimp only
      rw [hlast, List.length_append, List.length_singleton]
      rcases Nat.lt_trichotomy moduleInfos.length low with hlt | heq | hgt
      · rw [if_neg (by omega), if_pos (by omega), if_pos (by omega)]
      · rw [if_pos (by omega), if_pos (by omega), if_neg (by omega)]
        simp only [visitEntry, if_neg (Nat.not_lt.mpr hstate), heq, hopen, Option.some.injEq,
          RemoteSpanInfo.mk.injEq, true_and, and_true]
        omega
      · by_cases hinside : moduleInfos.length < high
        · rw [if_pos (by omega), if_neg (by omega), if_neg (by omega)]
          simp only [visitEntry, if_neg (Nat.not_lt.mpr hstate), RemoteSpanInfo.state,
            Nat.lt_irrefl, if_false, if_true, extendSpan, Option.some.injEq,
            RemoteSpanInfo.mk.injEq, true_and, and_true]
          omega
        · rw [if_neg (by omega), if_neg (by omega), if_neg (by omega)]
          simp only [Option.some.injEq, RemoteSpanInfo.mk.injEq, true_and, and_true]
          omega

section window
variable {moduleInfos : List (RemoteModuleInfo PeerID)} {offset : Nat}

theorem AnnouncesRun.places {peerId : PeerID} {serverInfo : ServerInfo} {place : Nat}
    {moduleInfo : RemoteModuleInfo PeerID} (h : AnnouncesRun moduleInfos peerId serverInfo)
    (hwindow : Window moduleInfos offset) (hplace : moduleInfos[place]? = some moduleInfo)
    (hentry : moduleInfo.servers.get? peerId = some serverInfo) :
    ∃ low high : Nat, ∃ opened : Int, low < high ∧ high ≤ moduleInfos.length ∧
      openSpan offset moduleInfos.length low peerId serverInfo =
        ⟨peerId, low, opened, serverInfo⟩ ∧ low < opened ∧ opened ≤ high ∧
      ∀ blockIdx moduleInfo, moduleInfos[blockIdx]? = some moduleInfo →
        moduleInfo.servers.get? peerId =
          if low ≤ blockIdx ∧ blockIdx < high then some serverInfo else none := by
  have hlength : place < moduleInfos.length := (List.getElem?_eq_some_iff.mp hplace).1
  have hnumber := hwindow place moduleInfo hplace
  have hplaces : ∀ first last, ListedFrom moduleInfos peerId serverInfo first last →
      (first ≤ offset + place ∧ offset + place < last) ∧
      ∀ blockIdx moduleInfo, moduleInfos[blockIdx]? = some moduleInfo →
        moduleInfo.servers.get? peerId =
          if first - offset ≤ blockIdx ∧ blockIdx < min (last - offset) moduleInfos.length then
            some serverInfo else none := by
    intro first last hlisted
    constructor
    · by_contra hnot
      have hnone := hlisted moduleInfo (List.mem_of_getElem? hplace)
      rw [hnumber, if_neg hnot, hentry] at hnone
      cases hnone
    · intro blockIdx other hother
      rw [hlisted other (List.mem_of_getElem? hother), hwindow blockIdx other hother]
      have hlt := (List.getElem?_eq_some_iff.mp hother).1
      apply if_congr _ rfl rfl
      omega
  unfold AnnouncesRun at h
  split at h
  · rename_i startBlock endBlock hstart hend
    obtain ⟨hinside, hentries⟩ := hplaces startBlock endBlock h
    refine ⟨startBlock - offset, min (endBlock - offset) moduleInfos.length,
      (min (endBlock - offset) moduleInfos.length : Nat), by omega, by omega, ?_, by omega,
      le_refl _, hentries⟩
    simp only [openSpan, hstart, hend, RemoteSpanInfo.mk.injEq, true_and, and_true]
    omega
  · rename_i hmissing
    obtain ⟨first, last, hlisted⟩ := h
    obtain ⟨hinside, hentries⟩ := hplaces first last hlisted
    refine ⟨first - offset, min (last - offset) moduleInfos.length,
      ((first - offset : Nat) : Int) + 1, by omega, by omega, ?_, by omega, by omega, hentries⟩
    unfold openSpan
    split
    · rename_i startBlock endBlock hstart hend
      exact absurd hend (hmissing startBlock endBlock hstart)
    · rfl

theorem computeSpans_hosts {minState : ServerState} {peerId : PeerID} {serverInfo : ServerInfo}
    {moduleInfo : RemoteModuleInfo PeerID} (hwindow : Window moduleInfos offset)
    (hrun : AnnouncesRun moduleInfos peerId serverInfo) (hmem : moduleInfo ∈ moduleInfos)
    (hentry : moduleInfo.servers.get? peerId = some serverInfo)
    (hstate : minState.value ≤ serverInfo.state.value) :
    ∃ span, (computeSpans moduleInfos minState).get? peerId = some span ∧
      span.peerId = peerId ∧ span.serverInfo = serverInfo ∧ Hosts moduleInfos offset span := by
  obtain ⟨place, hplace⟩ := List.mem_iff_getElem?.mp hmem
  obtain ⟨low, high, opened, hlt, hhigh, hopen, hopened, hbound, hentries⟩ :=
    hrun.places hwindow hplace hentry
  have hnonempty : moduleInfos ≠ [] := List.ne_nil_of_mem hmem
  refine ⟨⟨peerId, low, high, serverInfo⟩, ?_, rfl, rfl, ?_⟩
  · rw [computeSpans_get?, hwindow.blockOffset hnonempty,
      foldl_visitOwnEntry_run hstate hlt hopen hopened moduleInfos hentries,
      if_neg (by omega)]
    simp only [Option.some.injEq, RemoteSpanInfo.mk.injEq, true_and, and_true]
    omega
  · refine ⟨Int.natCast_nonneg low, Int.ofNat_lt.mpr hlt, Int.ofNat_le.mpr hhigh, ?_⟩
    intro other hother
    obtain ⟨blockIdx, hblockIdx⟩ := List.mem_iff_getElem?.mp hother
    rw [hentries blockIdx other hblockIdx, hwindow blockIdx other hblockIdx]
    apply if_congr _ rfl rfl
    simp only [RemoteSpanInfo.Covers]
    omega

theorem exists_entry_of_computeSpans {minState : ServerState} {peerId : PeerID}
    {span : RemoteSpanInfo PeerID}
    (h : (computeSpans moduleInfos minState).get? peerId = some span) :
    ∃ moduleInfo ∈ moduleInfos, ∃ serverInfo,
      moduleInfo.servers.get? peerId = some serverInfo ∧
        minState.value ≤ serverInfo.state.value := by
  refine computeSpans_induction (fun _ => ∃ moduleInfo ∈ moduleInfos, ∃ serverInfo,
    moduleInfo.servers.get? peerId = some serverInfo ∧
      minState.value ≤ serverInfo.state.value) ?_ (fun _ _ _ h => h) h
  intro blockIdx moduleInfo serverInfo hblock hentry hstate
  exact ⟨moduleInfo, List.mem_of_getElem? hblock, serverInfo, hentry, hstate⟩

namespace Hosts

theorem exists_entry {span : RemoteSpanInfo PeerID} (h : Hosts moduleInfos offset span)
    (hwindow : Window moduleInfos offset) {place : Int} (hcovers : span.Covers place) :
    ∃ moduleInfo ∈ moduleInfos, (moduleInfo.uid.index : Int) = offset + place ∧
      moduleInfo.servers.get? span.peerId = some span.serverInfo := by
  have hlow := h.low
  have hhigh := h.high
  obtain ⟨index, rfl⟩ := Int.eq_ofNat_of_zero_le (hlow.trans hcovers.1)
  have hlt : index < moduleInfos.length := by
    have := hcovers.2
    omega
  have hget : moduleInfos[index]? = some moduleInfos[index] := List.getElem?_eq_getElem hlt
  have hnumber := hwindow index _ hget
  refine ⟨moduleInfos[index], List.getElem_mem hlt, by omega, ?_⟩
  rw [h.entries _ (List.getElem_mem hlt), hnumber, if_pos]
  rwa [Nat.cast_add, add_sub_cancel_left]

theorem covers_of_hosts {left right : RemoteSpanInfo PeerID} (hleft : Hosts moduleInfos offset left)
    (hright : Hosts moduleInfos offset right) (hwindow : Window moduleInfos offset)
    (hpeer : left.peerId = right.peerId) {place : Int} (hcovers : left.Covers place) :
    right.Covers place ∧ left.serverInfo = right.serverInfo := by
  obtain ⟨moduleInfo, hmem, hnumber, hentry⟩ := hleft.exists_entry hwindow hcovers
  have hother := hright.entries moduleInfo hmem
  have hplace : (moduleInfo.uid.index : Int) - offset = place := by omega
  rw [← hpeer, hentry, hplace] at hother
  split at hother
  · rename_i hright
    exact ⟨hright, Option.some.inj hother⟩
  · cases hother

theorem unique {left right : RemoteSpanInfo PeerID} (hleft : Hosts moduleInfos offset left)
    (hright : Hosts moduleInfos offset right) (hwindow : Window moduleInfos offset)
    (hpeer : left.peerId = right.peerId) : left = right := by
  have hforward (place : Int) := @covers_of_hosts _ _ _ _ _ _ hleft hright hwindow hpeer place
  have hbackward (place : Int) :=
    @covers_of_hosts _ _ _ _ _ _ hright hleft hwindow hpeer.symm place
  have hleftNonempty := hleft.nonempty
  have hrightNonempty := hright.nonempty
  have hleftLow := (hforward left.start ⟨le_refl _, hleftNonempty⟩)
  have hleftHigh := (hforward (left.stop - 1) ⟨by omega, by omega⟩).1
  have hrightLow := (hbackward right.start ⟨le_refl _, hrightNonempty⟩).1
  have hrightHigh := (hbackward (right.stop - 1) ⟨by omega, by omega⟩).1
  obtain ⟨leftPeer, leftStart, leftStop, leftInfo⟩ := left
  obtain ⟨rightPeer, rightStart, rightStop, rightInfo⟩ := right
  simp only [RemoteSpanInfo.Covers] at hleftLow hleftHigh hrightLow hrightHigh hpeer
  simp only [RemoteSpanInfo.mk.injEq]
  exact ⟨hpeer, by omega, by omega, hleftLow.2⟩

end Hosts

/-- The spans are those of the servers with an entry that counts, each of its present blocks. -/
theorem computeSpans_exact (hwindow : Window moduleInfos offset)
    (hruns : AnnounceRuns moduleInfos) (minState : ServerState) (peerId : PeerID)
    (span : RemoteSpanInfo PeerID) :
    (computeSpans moduleInfos minState).get? peerId = some span ↔
      span.peerId = peerId ∧ minState.value ≤ span.state.value ∧
        Hosts moduleInfos offset span := by
  constructor
  · intro h
    obtain ⟨moduleInfo, hmem, serverInfo, hentry, hstate⟩ := exists_entry_of_computeSpans h
    obtain ⟨other, hother, hpeer, hinfo, hhosts⟩ := computeSpans_hosts hwindow
      (hruns moduleInfo hmem peerId serverInfo hentry) hmem hentry hstate
    obtain rfl := Option.some.inj (h.symm.trans hother)
    exact ⟨hpeer, computeSpans_state h, hhosts⟩
  · rintro ⟨rfl, hstate, hhosts⟩
    obtain ⟨moduleInfo, hmem, -, hentry⟩ :=
      hhosts.exists_entry hwindow ⟨le_refl _, hhosts.nonempty⟩
    obtain ⟨other, hother, hpeer, -, hotherHosts⟩ := computeSpans_hosts hwindow
      (hruns moduleInfo hmem _ _ hentry) hmem hentry hstate
    rw [hother, hotherHosts.unique hhosts hwindow hpeer]

end window

def countedEntries (minState : ServerState) (moduleInfo : RemoteModuleInfo PeerID) :
    RemoteModuleInfo PeerID :=
  { moduleInfo with
    servers := moduleInfo.servers.filter fun _ serverInfo =>
      minState.value ≤ serverInfo.state.value }

theorem visitOwnEntry_counted (minState : ServerState) (blockOffset numBlocks : Int)
    (peerId : PeerID) (current : Option (RemoteSpanInfo PeerID))
    (block : RemoteModuleInfo PeerID × Nat) :
    visitOwnEntry minState blockOffset numBlocks peerId current
        (countedEntries minState block.1, block.2) =
      visitOwnEntry minState blockOffset numBlocks peerId current block := by
  unfold visitOwnEntry
  cases hentry : block.1.servers.get? peerId with
  | none =>
      have hnone : (countedEntries minState block.1).servers.get? peerId = none := by
        refine Option.eq_none_iff_forall_ne_some.mpr fun serverInfo h => ?_
        rw [(Dict.get?_filter.mp h).1] at hentry
        cases hentry
      rw [hnone]
  | some serverInfo =>
      by_cases hstate : minState.value ≤ serverInfo.state.value
      · have hsome : (countedEntries minState block.1).servers.get? peerId = some serverInfo :=
          Dict.get?_filter.mpr ⟨hentry, by simpa using hstate⟩
        rw [hsome]
      · have hnone : (countedEntries minState block.1).servers.get? peerId = none := by
          refine Option.eq_none_iff_forall_ne_some.mpr fun other h => ?_
          obtain ⟨hother, hcounts⟩ := Dict.get?_filter.mp h
          obtain rfl := Option.some.inj (hentry.symm.trans hother)
          exact hstate (by simpa using hcounts)
        rw [hnone]
        simp only [visitEntry, if_pos (Nat.lt_of_not_le hstate)]

/-- A server whose entries count in a run of places, and which announces these places, has them
for its span, whatever is left of it elsewhere. -/
theorem computeSpans_announced {moduleInfos : List (RemoteModuleInfo PeerID)}
    {minState : ServerState} {peerId : PeerID} {serverInfo : ServerInfo} {low high : Nat}
    (hoffset : blockOffset moduleInfos = 0) (hstart : serverInfo.startBlock = some low)
    (hend : serverInfo.endBlock = some high) (hrun : low < high) (hhigh : high ≤ moduleInfos.length)
    (hstate : minState.value ≤ serverInfo.state.value)
    (hentries : ∀ blockIdx moduleInfo, moduleInfos[blockIdx]? = some moduleInfo →
      if low ≤ blockIdx ∧ blockIdx < high then moduleInfo.servers.get? peerId = some serverInfo
      else ∀ other ∈ moduleInfo.servers.get? peerId, other.state.value < minState.value) :
    (computeSpans moduleInfos minState).get? peerId = some ⟨peerId, low, high, serverInfo⟩ := by
  have hcounted : (moduleInfos.map (countedEntries minState)).zipIdx.foldl
      (visitOwnEntry minState 0 moduleInfos.length peerId) none =
      moduleInfos.zipIdx.foldl (visitOwnEntry minState 0 moduleInfos.length peerId) none := by
    rw [List.zipIdx_map, List.foldl_map]
    congr 1
    funext current block
    exact visitOwnEntry_counted minState 0 moduleInfos.length peerId current block
  have hopen : openSpan 0 moduleInfos.length low peerId serverInfo =
      ⟨peerId, low, high, serverInfo⟩ := by
    simp only [openSpan, hstart, hend, RemoteSpanInfo.mk.injEq, true_and, and_true]
    omega
  rw [computeSpans_get?, hoffset, Nat.cast_zero, ← hcounted,
    foldl_visitOwnEntry_run hstate hrun hopen (by omega), List.length_map, if_neg (by omega)]
  · simp only [Option.some.injEq, RemoteSpanInfo.mk.injEq, true_and, and_true]
    omega
  · intro blockIdx counted hcounted
    obtain ⟨moduleInfo, hmoduleInfo, rfl⟩ := Option.map_eq_some_iff.mp
      ((List.getElem?_map ..).symm.trans hcounted)
    have hentry := hentries blockIdx moduleInfo hmoduleInfo
    split at hentry
    · rename_i hinside
      rw [if_pos hinside]
      exact Dict.get?_filter.mpr ⟨hentry, by simpa using hstate⟩
    · rename_i houtside
      rw [if_neg houtside]
      refine Option.eq_none_iff_forall_ne_some.mpr fun other h => ?_
      obtain ⟨hother, hcounts⟩ := Dict.get?_filter.mp h
      have hlow := hentry other hother
      have hhigh : minState.value ≤ other.state.value := by simpa using hcounts
      omega

end Peerz.Utils.Dht
