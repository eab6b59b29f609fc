import Mathlib.Data.NNRat.Lemmas
import Peerz.Client.Routing.SequenceInfo
import Peerz.Utils.ExactSpans

/-! Slices of a routing table have the spans of the whole table, clipped to their blocks. -/
namespace Peerz.Client.Routing
open Library Utils.Dht

variable {PeerID : Type}

/-- What a span has of the places from `low` to `high`, counted from `low`. -/
def clipSpan (low high : Int) (span : RemoteSpanInfo PeerID) : Option (RemoteSpanInfo PeerID) :=
  if max span.start low < min span.stop high then
    some { span with start := max span.start low - low, stop := min span.stop high - low }
  else none

theorem clipSpan_eq_some_iff {low high : Int} {span clipped : RemoteSpanInfo PeerID} :
    clipSpan low high span = some clipped ↔
      max span.start low < min span.stop high ∧ clipped.peerId = span.peerId ∧
        clipped.serverInfo = span.serverInfo ∧ clipped.start = max span.start low - low ∧
        clipped.stop = min span.stop high - low := by
  obtain ⟨peerId, start, stop, serverInfo⟩ := clipped
  unfold clipSpan
  split
  · rename_i hoverlap
    simp only [Option.some.injEq, RemoteSpanInfo.mk.injEq, hoverlap, true_and]
    constructor
    · rintro ⟨hpeer, hstart, hstop, hinfo⟩
      exact ⟨hpeer.symm, hinfo.symm, hstart.symm, hstop.symm⟩
    · rintro ⟨hpeer, hinfo, hstart, hstop⟩
      exact ⟨hpeer.symm, hstart.symm, hstop.symm, hinfo.symm⟩
  · rename_i hdisjoint
    exact iff_of_false (fun h => by cases h) fun h => hdisjoint h.1

theorem covers_of_clipSpan {low high : Int} {span clipped : RemoteSpanInfo PeerID}
    (h : clipSpan low high span = some clipped) {place : Int} (hlow : low ≤ place)
    (hhigh : place < high) : clipped.Covers (place - low) ↔ span.Covers place := by
  obtain ⟨-, -, -, hstart, hstop⟩ := clipSpan_eq_some_iff.mp h
  unfold RemoteSpanInfo.Covers
  rw [hstart, hstop]
  omega

section slices
variable {moduleInfos : List (RemoteModuleInfo PeerID)} {offset : Nat}

theorem getElem?_pySlice {α : Type} {values : List α} {start stop : Int} {index : Nat}
    {value : α} (h : (pySlice values start stop)[index]? = some value) :
    values[pyClamp values.length start + index]? = some value ∧
      pyClamp values.length start + index < pyClamp values.length stop := by
  have hlt := (List.getElem?_eq_some_iff.mp h).1
  rw [pySlice_length] at hlt
  have hinside : pyClamp values.length start + index < pyClamp values.length stop := by omega
  rw [pySlice, List.getElem?_drop, List.getElem?_take_of_lt hinside] at h
  exact ⟨h, hinside⟩

theorem window_pySlice (h : Window moduleInfos offset) (start stop : Int) :
    Window (pySlice moduleInfos start stop) (offset + pyClamp moduleInfos.length start) := by
  intro blockIdx moduleInfo hblock
  rw [h _ moduleInfo (getElem?_pySlice hblock).1, Nat.add_assoc]

theorem mem_of_mem_pySlice {α : Type} {values : List α} {start stop : Int} {value : α}
    (h : value ∈ pySlice values start stop) : value ∈ values :=
  List.mem_of_mem_take (List.mem_of_mem_drop h)

variable [LinearOrder PeerID]

theorem announcesRun_pySlice {peerId : PeerID} {serverInfo : ServerInfo}
    (h : AnnouncesRun moduleInfos peerId serverInfo) (start stop : Int) :
    AnnouncesRun (pySlice moduleInfos start stop) peerId serverInfo := by
  unfold AnnouncesRun at h ⊢
  split at h
  · exact fun moduleInfo hmem => h moduleInfo (mem_of_mem_pySlice hmem)
  · obtain ⟨low, high, hlisted⟩ := h
    exact ⟨low, high, fun moduleInfo hmem => hlisted moduleInfo (mem_of_mem_pySlice hmem)⟩

theorem announceRuns_pySlice (h : AnnounceRuns moduleInfos) (start stop : Int) :
    AnnounceRuns (pySlice moduleInfos start stop) := by
  intro moduleInfo hmem peerId serverInfo hentry
  exact announcesRun_pySlice (h moduleInfo (mem_of_mem_pySlice hmem) peerId serverInfo hentry)
    start stop

theorem mem_sortSpans_iff (hwindow : Window moduleInfos offset)
    (hruns : AnnounceRuns moduleInfos) {spans : SpanLists PeerID}
    (h : sortSpans moduleInfos = some spans) {span : RemoteSpanInfo PeerID} :
    span ∈ spans.spansByPriority ↔
      ServerState.online.value ≤ span.state.value ∧ Hosts moduleInfos offset span := by
  rw [mem_spansByPriority_iff h, computeSpans_exact hwindow hruns]
  exact and_iff_right rfl

theorem hosts_of_clipSpan (hwindow : Window moduleInfos offset) {start stop : Int}
    {span clipped : RemoteSpanInfo PeerID} (hhosts : Hosts moduleInfos offset span)
    (hclip : clipSpan (pyClamp moduleInfos.length start) (pyClamp moduleInfos.length stop) span =
      some clipped) :
    Hosts (pySlice moduleInfos start stop) (offset + pyClamp moduleInfos.length start)
      clipped := by
  obtain ⟨hoverlap, hpeer, hinfo, hstart, hstop⟩ := clipSpan_eq_some_iff.mp hclip
  refine ⟨by omega, by omega, ?_, ?_⟩
  · rw [pySlice_length]
    omega
  · intro moduleInfo hmem
    obtain ⟨index, hindex⟩ := List.mem_iff_getElem?.mp hmem
    obtain ⟨hwhole, hinside⟩ := getElem?_pySlice hindex
    have hnumber := hwindow _ moduleInfo hwhole
    have hcovers := @covers_of_clipSpan _ _ _ _ _ hclip
      ((moduleInfo.uid.index : Int) - offset) (by omega) (by omega)
    rw [hpeer, hinfo, hhosts.entries moduleInfo (mem_of_mem_pySlice hmem), Nat.cast_add,
      ← sub_sub]
    exact (if_congr hcovers rfl rfl).symm

theorem exists_clipSpan (hwindow : Window moduleInfos offset) (hruns : AnnounceRuns moduleInfos)
    {start stop : Int} {clipped : RemoteSpanInfo PeerID}
    (hhosts : Hosts (pySlice moduleInfos start stop)
      (offset + pyClamp moduleInfos.length start) clipped) :
    ∃ span, Hosts moduleInfos offset span ∧ span.state = clipped.state ∧
      clipSpan (pyClamp moduleInfos.length start) (pyClamp moduleInfos.length stop) span =
        some clipped := by
  have hslice := window_pySlice hwindow start stop
  obtain ⟨moduleInfo, hmem, hnumber, hentry⟩ :=
    hhosts.exists_entry hslice ⟨le_refl _, hhosts.nonempty⟩
  have hwhole := mem_of_mem_pySlice hmem
  obtain ⟨span, -, hpeer, hinfo, hspan⟩ := @computeSpans_hosts _ _ _ _ .offline _ _ _ hwindow
    (hruns moduleInfo hwhole _ _ hentry) hwhole hentry (Nat.zero_le _)
  -- both cover the first block of the slice's span
  have hcovers : span.Covers ((moduleInfo.uid.index : Int) - offset) := by
    by_contra hnot
    have hnone := hspan.entries moduleInfo hwhole
    rw [if_neg hnot, hpeer, hentry] at hnone
    cases hnone
  have hhigh := hhosts.high
  have hlow := hhosts.low
  have hnonempty := hhosts.nonempty
  rw [pySlice_length] at hhigh
  have hoverlap : max span.start (pyClamp moduleInfos.length start) <
      min span.stop (pyClamp moduleInfos.length stop) := by
    obtain ⟨hfirst, hlast⟩ := hcovers
    omega
  obtain ⟨other, hother⟩ : ∃ other, clipSpan (pyClamp moduleInfos.length start)
      (pyClamp moduleInfos.length stop) span = some other := ⟨_, if_pos hoverlap⟩
  have hotherHosts := hosts_of_clipSpan hwindow hspan hother
  have hotherPeer := (clipSpan_eq_some_iff.mp hother).2.1
  obtain rfl := hotherHosts.unique hhosts hslice (hotherPeer.trans hpeer)
  exact ⟨span, hspan, congrArg ServerInfo.state hinfo, hother⟩

omit [LinearOrder PeerID] in
theorem nodup_spans {spans : SpanLists PeerID} {numBlocks : Nat}
    (h : spans.WellSorted numBlocks) (low high : Int) :
    spans.spansByPriority.Nodup ∧ (spans.spansByPriority.filterMap (clipSpan low high)).Nodup := by
  have hdistinct := List.pairwise_map.mp h.distinctPeers
  constructor
  · exact hdistinct.imp fun hpeers heq => hpeers (congrArg RemoteSpanInfo.peerId heq)
  · apply hdistinct.filterMap
    intro left right hpeers clippedLeft hleft clippedRight hright heq
    apply hpeers
    rw [← (clipSpan_eq_some_iff.mp hleft).2.1, ← (clipSpan_eq_some_iff.mp hright).2.1, heq]

/-- Over blocks numbered in a row, with one announcement of each server at exactly the blocks of
its run, the spans are those of the servers that count, each of its present blocks; so the spans of
a slice are those of the whole table, clipped and counted from the slice's first block. -/
theorem spans_exact (hwindow : Window moduleInfos offset) (hruns : AnnounceRuns moduleInfos) :
    (∀ minState peerId span, (computeSpans moduleInfos minState).get? peerId = some span ↔
      span.peerId = peerId ∧ minState.value ≤ span.state.value ∧
        Hosts moduleInfos offset span) ∧
    ∀ info : RemoteSequenceInfo PeerID, info.blockInfos = moduleInfos →
      ∀ whole, sortSpans moduleInfos = some whole → ∀ start stop, ∃ sliced,
        info.getItem start stop = some sliced ∧
        sliced.blockInfos = pySlice moduleInfos start stop ∧
        sliced.spans.spansByPriority.Perm (whole.spansByPriority.filterMap
          (clipSpan (pyClamp moduleInfos.length start) (pyClamp moduleInfos.length stop))) := by
  refine ⟨computeSpans_exact hwindow hruns, ?_⟩
  rintro info rfl whole hwhole start stop
  obtain ⟨sliced, hsliced, -, hinfos, hspans⟩ := info.getItem_eq_some start stop
  refine ⟨sliced, hsliced, hinfos, ?_⟩
  rw [hinfos] at hspans
  have hslice := window_pySlice hwindow start stop
  have hsliceRuns := announceRuns_pySlice hruns start stop
  apply (List.perm_ext_iff_of_nodup (nodup_spans sliced.wellSorted 0 0).1
    (nodup_spans (sortSpans_wellSorted hwhole) _ _).2).mpr
  intro clipped
  rw [mem_sortSpans_iff hslice hsliceRuns hspans, List.mem_filterMap]
  constructor
  · rintro ⟨hstate, hhosts⟩
    obtain ⟨span, hspan, hsame, hclip⟩ := exists_clipSpan hwindow hruns hhosts
    refine ⟨span, (mem_sortSpans_iff hwindow hruns hwhole).mpr ⟨?_, hspan⟩, hclip⟩
    rwa [hsame]
  · rintro ⟨span, hmem, hclip⟩
    obtain ⟨hstate, hhosts⟩ := (mem_sortSpans_iff hwindow hruns hwhole).mp hmem
    refine ⟨?_, hosts_of_clipSpan hwindow hhosts hclip⟩
    rwa [RemoteSpanInfo.state, (clipSpan_eq_some_iff.mp hclip).2.2.1]

end slices

def earlyServer : ServerInfo where
  state := .online
  throughput := 1
  startBlock := some 0
  endBlock := some 3

def laterBlocks : List (RemoteModuleInfo Nat) :=
  [⟨⟨"m", 1⟩, Dict.empty.insert 7 earlyServer⟩, ⟨⟨"m", 2⟩, Dict.empty.insert 7 earlyServer⟩,
    ⟨⟨"m", 3⟩, Dict.empty⟩]

theorem spans_exact_laterBlocks :
    (computeSpans laterBlocks .online).get? 7 = some ⟨7, 0, 2, earlyServer⟩ ∧
      ∃ info sliced : RemoteSequenceInfo Nat, info.getItem 1 3 = some sliced ∧
        sliced.spans.spansByPriority = [⟨7, 0, 1, earlyServer⟩] := by
  have hwindow : Window laterBlocks 1 := by
    intro blockIdx moduleInfo hblock
    match blockIdx with
    | 0 | 1 | 2 =>
        cases hblock
        rfl
    | blockIdx + 3 => cases hblock
  have hlisted : ListedFrom laterBlocks 7 earlyServer 0 3 := by
    simp [ListedFrom, laterBlocks, Dict.get?_insert]
  have hruns : AnnounceRuns laterBlocks := by
    intro moduleInfo hmem peerId serverInfo hentry
    obtain ⟨rfl, rfl⟩ : peerId = 7 ∧ earlyServer = serverInfo := by
      simp only [laterBlocks, List.mem_cons, List.not_mem_nil, or_false] at hmem
      obtain rfl | rfl | rfl := hmem <;> simp_all [Dict.get?_insert]
    exact hlisted
  have hexact := spans_exact hwindow hruns
  have hwhole : sortSpans laterBlocks = some ⟨[⟨7, 0, 2, earlyServer⟩],
      [[⟨7, 0, 2, earlyServer⟩], [⟨7, 0, 2, earlyServer⟩], []]⟩ := rfl
  obtain ⟨info, -, -, hinfo, -⟩ := RemoteSequenceInfo.update_eq_some
    (.makeEmpty (laterBlocks.map RemoteModuleInfo.uid)) laterBlocks rfl
  obtain ⟨sliced, hsliced, -, hperm⟩ := hexact.2 info hinfo _ hwhole 1 3
  refine ⟨rfl, info, sliced, hsliced, ?_⟩
  exact List.perm_singleton.mp hperm

end Peerz.Client.Routing
