import Peerz.Library.PySequence
import Peerz.Utils.Dht

/-! The client's routing table: the records of its blocks, and the span lists derived
from them. The two are kept side by side, and a caller may change the records without
deriving the lists again. -/
namespace Peerz.Client.Routing
open Library Utils.Dht

structure SpanLists (PeerID : Type) where
  spansByPriority : List (RemoteSpanInfo PeerID)
  spansContainingBlock : List (List (RemoteSpanInfo PeerID))

variable {PeerID : Type}

/-- One pass of the outer loop of `_sort_spans`; `none` is an `IndexError`. -/
def appendToBlocks (table : List (List (RemoteSpanInfo PeerID))) (span : RemoteSpanInfo PeerID) :
    Option (List (List (RemoteSpanInfo PeerID))) :=
  (Int.range span.start span.stop).foldlM
    (fun table blockIndex => pyModify? table blockIndex fun spans => spans ++ [span]) table

structure SpanLists.WellSorted (spans : SpanLists PeerID) (numBlocks : Nat) : Prop where
  distinctPeers : (spans.spansByPriority.map RemoteSpanInfo.peerId).Nodup
  inBounds : ∀ span ∈ spans.spansByPriority, 0 ≤ span.start ∧ span.stop ≤ numBlocks
  online : ∀ span ∈ spans.spansByPriority, span.state = .online
  containing : spans.spansContainingBlock = (List.range numBlocks).map fun (block : Nat) =>
    spans.spansByPriority.filter fun span => span.Covers block

theorem SpanLists.WellSorted.length_containing {spans : SpanLists PeerID} {numBlocks : Nat}
    (h : spans.WellSorted numBlocks) : spans.spansContainingBlock.length = numBlocks := by
  rw [h.containing]
  simp

theorem SpanLists.WellSorted.listedAt {spans : SpanLists PeerID} {numBlocks : Nat}
    (h : spans.WellSorted numBlocks) {block : Int} (hlow : 0 ≤ block) (hhigh : block < numBlocks) :
    pyGet? spans.spansContainingBlock block =
      some (spans.spansByPriority.filter fun span => span.Covers block) := by
  obtain ⟨index, rfl⟩ := Int.eq_ofNat_of_zero_le hlow
  rw [pyGet?_natCast, h.containing]
  have hlt : index < numBlocks := by omega
  simp [hlt]

theorem SpanLists.WellSorted.eq_of_peerId {spans : SpanLists PeerID} {numBlocks : Nat}
    (h : spans.WellSorted numBlocks) {left right : RemoteSpanInfo PeerID}
    (hl : left ∈ spans.spansByPriority) (hr : right ∈ spans.spansByPriority)
    (hpeer : left.peerId = right.peerId) : left = right :=
  List.inj_on_of_nodup_map h.distinctPeers hl hr hpeer

section appending

private theorem modify_range_map {β : Type} (numBlocks position : Nat) (f : Nat → List β)
    (item : β) :
    ((List.range numBlocks).map f).modify position (fun items => items ++ [item]) =
      (List.range numBlocks).map fun (block : Nat) =>
        if block = position then f block ++ [item] else f block := by
  apply List.ext_getElem (by simp)
  intro index hleft hright
  simp only [List.getElem_modify, List.getElem_map, List.getElem_range, eq_comm]

private theorem foldlM_append {numBlocks : Nat} (span : RemoteSpanInfo PeerID) (count : Nat)
    (first : Nat) (hbound : first + count ≤ numBlocks) (f : Nat → List (RemoteSpanInfo PeerID)) :
    ((List.range count).map fun (offset : Nat) => ((first : Int) + offset)).foldlM
        (fun table blockIndex => pyModify? table blockIndex fun spans => spans ++ [span])
        ((List.range numBlocks).map f) =
      some ((List.range numBlocks).map fun (block : Nat) =>
        if first ≤ block ∧ block < first + count then f block ++ [span] else f block) := by
  induction count with
  | zero =>
      simp
  | succ count ih =>
      rw [List.range_succ, List.map_append, List.foldlM_append, ih (by omega)]
      have hposition : pyPosition numBlocks ((first : Int) + count) = some (first + count) := by
        rw [pyPosition_eq_some (by omega) (by omega)]
        congr 1
      simp only [List.map_cons, List.map_nil, Option.bind_eq_bind, Option.bind_some,
        List.foldlM_cons, List.foldlM_nil, pyModify?, List.length_map, List.length_range,
        hposition, Option.map_some, modify_range_map]
      congr 1
      apply List.map_congr_left
      intro block _
      by_cases hblock : block = first + count
      · subst hblock
        simp
      · have hiff : (first ≤ block ∧ block < first + (count + 1)) ↔
            (first ≤ block ∧ block < first + count) := by omega
        simp [hblock, hiff]

theorem appendToBlocks_eq {numBlocks : Nat} (span : RemoteSpanInfo PeerID)
    (hlow : 0 ≤ span.start) (hhigh : span.stop ≤ numBlocks)
    (f : Nat → List (RemoteSpanInfo PeerID)) :
    appendToBlocks ((List.range numBlocks).map f) span =
      some ((List.range numBlocks).map fun (block : Nat) =>
        if span.Covers block then f block ++ [span] else f block) := by
  obtain ⟨first, hfirst⟩ := Int.eq_ofNat_of_zero_le hlow
  unfold appendToBlocks Int.range
  rw [hfirst]
  by_cases hempty : span.stop ≤ first
  · have hzero : (span.stop - first).toNat = 0 := by omega
    have hnone (block : Nat) : ¬ span.Covers block := by
      intro hcovers
      have := hcovers.1
      have := hcovers.2
      omega
    simp [hzero, hnone]
  · rw [foldlM_append span _ first (by omega) f]
    congr 1
    apply List.map_congr_left
    intro block _
    have hiff : (first ≤ block ∧ block < first + (span.stop - first).toNat) ↔
        span.Covers block := by
      unfold RemoteSpanInfo.Covers
      omega
    simp only [hiff]

theorem foldlM_appendToBlocks {numBlocks : Nat} (spans : List (RemoteSpanInfo PeerID))
    (hbounds : ∀ span ∈ spans, 0 ≤ span.start ∧ span.stop ≤ numBlocks)
    (f : Nat → List (RemoteSpanInfo PeerID)) :
    spans.foldlM appendToBlocks ((List.range numBlocks).map f) =
      some ((List.range numBlocks).map fun (block : Nat) =>
        f block ++ spans.filter fun span => span.Covers block) := by
  induction spans generalizing f with
  | nil => simp
  | cons span rest ih =>
      obtain ⟨hlow, hhigh⟩ := hbounds span List.mem_cons_self
      rw [List.foldlM_cons, appendToBlocks_eq span hlow hhigh]
      simp only [Option.bind_eq_bind, Option.bind_some]
      rw [ih fun other h => hbounds other (List.mem_cons_of_mem _ h)]
      congr 1
      apply List.map_congr_left
      intro block _
      by_cases hcovers : span.Covers block <;> simp [hcovers]

end appending

variable [LinearOrder PeerID]

def sortSpans (blockInfos : List (RemoteModuleInfo PeerID)) : Option (SpanLists PeerID) :=
  let spansByPriority := (computeSpans blockInfos .online).values.insertionSort
    fun left right => right.length ≤ left.length
  (spansByPriority.foldlM appendToBlocks (List.replicate blockInfos.length [])).map
    fun spansContainingBlock => ⟨spansByPriority, spansContainingBlock⟩

theorem mem_spansByPriority_of_perm {blockInfos : List (RemoteModuleInfo PeerID)}
    {spansByPriority : List (RemoteSpanInfo PeerID)}
    (hperm : spansByPriority.Perm (computeSpans blockInfos .online).values)
    {span : RemoteSpanInfo PeerID} (h : span ∈ spansByPriority) :
    (computeSpans blockInfos .online).get? span.peerId = some span := by
  obtain ⟨peerId, hget⟩ := Dict.mem_values_iff.mp (hperm.mem_iff.mp h)
  rw [computeSpans_peerId hget, hget]

/-- Sorting succeeds for every content of the records, and lists a span at exactly the
blocks it covers. -/
theorem sortSpans_eq_some (blockInfos : List (RemoteModuleInfo PeerID)) :
    ∃ spans, sortSpans blockInfos = some spans ∧ spans.WellSorted blockInfos.length ∧
      ∀ span, span ∈ spans.spansByPriority ↔
        (computeSpans blockInfos .online).get? span.peerId = some span := by
  let spansByPriority := (computeSpans blockInfos .online).values.insertionSort
    fun left right => right.length ≤ left.length
  have hperm : spansByPriority.Perm (computeSpans blockInfos .online).values :=
    List.perm_insertionSort _ _
  have hget {span : RemoteSpanInfo PeerID} (h : span ∈ spansByPriority) :=
    mem_spansByPriority_of_perm hperm h
  have hbounds : ∀ span ∈ spansByPriority, 0 ≤ span.start ∧ span.stop ≤ blockInfos.length :=
    fun span h => computeSpans_bounds (hget h)
  refine ⟨⟨spansByPriority, (List.range blockInfos.length).map fun (block : Nat) =>
    spansByPriority.filter fun span => span.Covers block⟩, ?_, ⟨?_, hbounds, ?_, rfl⟩, ?_⟩
  · have hempty : List.replicate blockInfos.length ([] : List (RemoteSpanInfo PeerID)) =
        (List.range blockInfos.length).map fun _ => [] := by
      simp [List.map_const']
    unfold sortSpans
    dsimp only
    rw [hempty, foldlM_appendToBlocks _ hbounds]
    rfl
  · -- one span a server: the values of the dictionary carry its keys as peer ids
    have hpeers : (computeSpans blockInfos .online).values.map RemoteSpanInfo.peerId =
        (computeSpans blockInfos .online).keys := by
      unfold Dict.values Dict.keys
      rw [List.map_map]
      apply List.map_congr_left
      intro entry hentry
      exact computeSpans_peerId (Dict.get?_eq_some_iff.mpr hentry)
    rw [((hperm.map RemoteSpanInfo.peerId).nodup_iff), hpeers]
    exact (computeSpans blockInfos .online).nodupKeys
  · intro span h
    have hstate := computeSpans_state (hget h)
    cases hspan : span.state with
    | online => rfl
    | joining => simp [hspan, ServerState.value] at hstate
    | offline => simp [hspan, ServerState.value] at hstate
  · intro span
    exact ⟨hget, fun h => hperm.mem_iff.mpr (Dict.mem_values_iff.mpr ⟨_, h⟩)⟩

theorem sortSpans_wellSorted {blockInfos : List (RemoteModuleInfo PeerID)}
    {spans : SpanLists PeerID} (h : sortSpans blockInfos = some spans) :
    spans.WellSorted blockInfos.length := by
  obtain ⟨other, hother, hsorted, -⟩ := sortSpans_eq_some blockInfos
  cases h.symm.trans hother
  exact hsorted

theorem mem_spansByPriority_iff {blockInfos : List (RemoteModuleInfo PeerID)}
    {spans : SpanLists PeerID} (h : sortSpans blockInfos = some spans)
    {span : RemoteSpanInfo PeerID} :
    span ∈ spans.spansByPriority ↔
      (computeSpans blockInfos .online).get? span.peerId = some span := by
  obtain ⟨other, hother, -, hmem⟩ := sortSpans_eq_some blockInfos
  cases h.symm.trans hother
  exact hmem span

/-- The records and the span lists of one client. The lists were sorted from some records
of these blocks, though not always from the records that stand beside them now. -/
structure RemoteSequenceInfo (PeerID : Type) where
  blockUids : List ModuleUID
  blockInfos : List (RemoteModuleInfo PeerID)
  spans : SpanLists PeerID
  sameLength : blockInfos.length = blockUids.length
  wellSorted : spans.WellSorted blockUids.length

namespace RemoteSequenceInfo

omit [LinearOrder PeerID] in
private theorem wellSorted_empty (numBlocks : Nat) :
    (⟨[], List.replicate numBlocks []⟩ : SpanLists PeerID).WellSorted numBlocks where
  distinctPeers := List.nodup_nil
  inBounds := by simp
  online := by simp
  containing := by simp [List.map_const']

omit [LinearOrder PeerID] in
def makeEmpty (blockUids : List ModuleUID) : RemoteSequenceInfo PeerID where
  blockUids := blockUids
  blockInfos := blockUids.map fun uid => ⟨uid, Dict.empty⟩
  spans := ⟨[], List.replicate blockUids.length []⟩
  sameLength := by simp
  wellSorted := wellSorted_empty _

def replaceServers (blockUids : List ModuleUID) (newBlockInfos : List (RemoteModuleInfo PeerID)) :
    List (RemoteModuleInfo PeerID) :=
  List.zipWith (fun uid info => ⟨uid, info.servers⟩) blockUids newBlockInfos

/-- `update_`; `none` is one of its assertions. -/
def update (info : RemoteSequenceInfo PeerID) (newBlockInfos : List (RemoteModuleInfo PeerID)) :
    Option (RemoteSequenceInfo PeerID) :=
  if hlength : newBlockInfos.length = info.blockUids.length then
    if newBlockInfos.map RemoteModuleInfo.uid = info.blockUids then
      let blockInfos := replaceServers info.blockUids newBlockInfos
      have hsame : blockInfos.length = info.blockUids.length := by
        simp [blockInfos, replaceServers, hlength]
      match hsort : sortSpans blockInfos with
      | none => none
      | some spans => some
          { blockUids := info.blockUids
            blockInfos := blockInfos
            spans := spans
            sameLength := hsame
            wellSorted := hsame ▸ sortSpans_wellSorted hsort }
    else none
  else none

theorem update_eq_some (info : RemoteSequenceInfo PeerID)
    (newBlockInfos : List (RemoteModuleInfo PeerID))
    (huids : newBlockInfos.map RemoteModuleInfo.uid = info.blockUids) :
    ∃ updated, info.update newBlockInfos = some updated ∧
      updated.blockUids = info.blockUids ∧ updated.blockInfos = newBlockInfos ∧
      sortSpans newBlockInfos = some updated.spans := by
  have hlength : newBlockInfos.length = info.blockUids.length := by
    rw [← huids, List.length_map]
  have hreplace : replaceServers info.blockUids newBlockInfos = newBlockInfos := by
    unfold replaceServers
    rw [← huids, List.zipWith_map_left, List.zipWith_self]
    simp
  obtain ⟨spans, hspans, -⟩ := sortSpans_eq_some newBlockInfos
  unfold update
  rw [dif_pos hlength, if_pos huids]
  dsimp only
  split
  · rename_i hsort
    rw [hreplace, hspans] at hsort
    cases hsort
  · rename_i other hsort
    rw [hreplace] at hsort
    exact ⟨_, rfl, rfl, hreplace, hsort⟩

theorem update_spec {info updated : RemoteSequenceInfo PeerID}
    {newBlockInfos : List (RemoteModuleInfo PeerID)} (h : info.update newBlockInfos = some updated) :
    updated.blockInfos = newBlockInfos ∧ sortSpans newBlockInfos = some updated.spans := by
  by_cases huids : newBlockInfos.map RemoteModuleInfo.uid = info.blockUids
  · obtain ⟨other, hother, -, hinfos, hspans⟩ := update_eq_some info newBlockInfos huids
    cases h.symm.trans hother
    exact ⟨hinfos, hspans⟩
  · unfold update at h
    simp [huids] at h

/-- `info[start:stop]`; `none` is an `IndexError` of `_sort_spans`. -/
def getItem (info : RemoteSequenceInfo PeerID) (start stop : Int) :
    Option (RemoteSequenceInfo PeerID) :=
  let blockUids := pySlice info.blockUids start stop
  let blockInfos := pySlice info.blockInfos start stop
  have hsame : blockInfos.length = blockUids.length := by
    rw [pySlice_length, pySlice_length, info.sameLength]
  match hsort : sortSpans blockInfos with
  | none => none
  | some spans => some
      { blockUids := blockUids
        blockInfos := blockInfos
        spans := spans
        sameLength := hsame
        wellSorted := hsame ▸ sortSpans_wellSorted hsort }

theorem getItem_eq_some (info : RemoteSequenceInfo PeerID) (start stop : Int) :
    ∃ sliced, info.getItem start stop = some sliced ∧
      sliced.blockUids = pySlice info.blockUids start stop ∧
      sliced.blockInfos = pySlice info.blockInfos start stop ∧
      sortSpans sliced.blockInfos = some sliced.spans := by
  obtain ⟨spans, hspans, -⟩ := sortSpans_eq_some (pySlice info.blockInfos start stop)
  unfold getItem
  dsimp only
  split
  · rename_i hsort
    rw [hspans] at hsort
    cases hsort
  · rename_i other hsort
    exact ⟨_, rfl, rfl, rfl, hsort⟩

end RemoteSequenceInfo
end Peerz.Client.Routing
