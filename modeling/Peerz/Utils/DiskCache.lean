import Mathlib.Data.List.Dedup
import Mathlib.Data.List.Sort
import Mathlib.Algebra.Order.Ring.Rat
import Peerz.Library.GreedyPrefix

/-! Making room in the cache of model files. A file of a revision is a link to a blob, and several
revisions may link to the same one; where links are not supported, the file is the blob. -/
namespace Peerz.Utils.DiskCache
open Library

variable {Path : Type}

/-- One file of one revision, with the size and the access time of its blob. -/
structure CachedFileInfo (Path : Type) where
  filePath : Path
  blobPath : Path
  sizeOnDisk : Nat
  blobLastAccessed : ℚ
deriving DecidableEq

structure CachedRevisionInfo (Path : Type) where
  files : List (CachedFileInfo Path)

structure CachedRepoInfo (Path : Type) where
  revisions : List (CachedRevisionInfo Path)

def allFiles (repos : List (CachedRepoInfo Path)) : List (CachedFileInfo Path) :=
  repos.flatMap fun repo => repo.revisions.flatMap CachedRevisionInfo.files

/-- What `scan_cache_dir` reports, its sets in the order of their iteration. Blob paths are
resolved, so a blob is never a link. -/
structure HFCacheInfo (Path : Type) where
  repos : List (CachedRepoInfo Path)
  sizeOnDisk : Nat
  distinctFiles : ((allFiles repos).map CachedFileInfo.filePath).Nodup
  sameBlob : ∀ file ∈ allFiles repos, ∀ other ∈ allFiles repos, file.blobPath = other.blobPath →
    file.sizeOnDisk = other.sizeOnDisk ∧ file.blobLastAccessed = other.blobLastAccessed
  resolved : ∀ file ∈ allFiles repos, ∀ other ∈ allFiles repos, file.filePath = other.blobPath →
    file.blobPath = file.filePath

structure Removal (Path : Type) where
  removedPaths : List Path
  removedFiles : List (CachedFileInfo Path)
  freedSpace : Nat

inductive Outcome (Path : Type) where
  | returned
  /-- `RuntimeError`, with the bytes that are missing -/
  | insufficientSpace (missing : Int)
  | fileNotFound (path : Path)
deriving DecidableEq

/-- The sizes that a call compares: the free space of the disk, what is left of it to the system,
and the limit of the server. -/
structure Limits where
  free : Int
  osQuota : Int := 1024 ^ 3
  maxDiskSpace : Option Int

def Limits.availableSpace (limits : Limits) (sizeOnDisk : Nat) : Int :=
  let availableSpace := limits.free - limits.osQuota
  match limits.maxDiskSpace with
  | none => availableSpace
  | some maxDiskSpace => min availableSpace (maxDiskSpace - sizeOnDisk)

/-- `sorted` is stable. -/
def lruOrder (files : List (CachedFileInfo Path)) : List (CachedFileInfo Path) :=
  files.insertionSort fun file other => file.blobLastAccessed ≤ other.blobLastAccessed

variable [DecidableEq Path]

/-- `os.remove` of a path of the report; `none` is a `FileNotFoundError`. -/
def osRemove (removedPaths : List Path) (path : Path) : Option (List Path) :=
  if path ∈ removedPaths then none else some (path :: removedPaths)

/-- The loop over the sorted files, with the path of the error that leaves it, if there is one. -/
def removeFiles (extraSpaceNeeded : Int) :
    List (CachedFileInfo Path) → Removal Path → Removal Path × Option Path
  | [], removal => (removal, none)
  | file :: rest, removal =>
      match osRemove removal.removedPaths file.filePath with
      | none => (removal, some file.filePath)
      | some removedPaths =>
          match osRemove removedPaths file.blobPath with
          | none => ({ removal with removedPaths }, some file.blobPath)
          | some removedPaths =>
              let removal : Removal Path :=
                { removedPaths
                  removedFiles := removal.removedFiles ++ [file]
                  freedSpace := removal.freedSpace + file.sizeOnDisk }
              if extraSpaceNeeded ≤ removal.freedSpace then (removal, none)
              else removeFiles extraSpaceNeeded rest removal

/-- The outcome of a call and what it has removed. -/
def freeDiskSpaceFor (size : Int) (cacheInfo : HFCacheInfo Path) (limits : Limits) :
    Outcome Path × Removal Path :=
  let availableSpace := limits.availableSpace cacheInfo.sizeOnDisk
  if size ≤ availableSpace then (.returned, ⟨[], [], 0⟩)
  else
    let extraSpaceNeeded := size - availableSpace
    match removeFiles extraSpaceNeeded (lruOrder (allFiles cacheInfo.repos)) ⟨[], [], 0⟩ with
    | (removal, some path) => (.fileNotFound path, removal)
    | (removal, none) =>
        if removal.freedSpace < extraSpaceNeeded then
          (.insufficientSpace (extraSpaceNeeded - removal.freedSpace), removal)
        else (.returned, removal)

/-- The bytes of the blobs of some files, each blob counted once. -/
def blobBytes (files : List (CachedFileInfo Path)) : Nat :=
  ((files.map fun file => (file.blobPath, file.sizeOnDisk)).dedup.map Prod.snd).sum

/-- A call frees the missing space or reports that the cache has not enough of it, removes no more
of the least recently used files than it takes, and leaves no file without its blob. -/
structure Frees (size : Int) (cacheInfo : HFCacheInfo Path) (limits : Limits)
    (outcome : Outcome Path) (removedFiles : List (CachedFileInfo Path)) : Prop where
  enough :
    (outcome = .returned ∧
      size - limits.availableSpace cacheInfo.sizeOnDisk ≤ blobBytes removedFiles) ∨
    ((∃ missing, outcome = .insufficientSpace missing) ∧
      blobBytes (allFiles cacheInfo.repos) <
        size - limits.availableSpace cacheInfo.sizeOnDisk)
  leastRecent : ∃ count ≤ (allFiles cacheInfo.repos).length,
    removedFiles = (lruOrder (allFiles cacheInfo.repos)).take count ∧
    ∀ fewer < count, blobBytes ((lruOrder (allFiles cacheInfo.repos)).take fewer) <
      size - limits.availableSpace cacheInfo.sizeOnDisk
  noDangling : ∀ file ∈ allFiles cacheInfo.repos, file ∉ removedFiles →
    ∀ removed ∈ removedFiles, file.blobPath ≠ removed.blobPath

/-- The least recently used files whose sizes add up to what is missing. -/
def neededFiles (size : Int) (cacheInfo : HFCacheInfo Path) (limits : Limits) :
    List (CachedFileInfo Path) :=
  let order := lruOrder (allFiles cacheInfo.repos)
  order.take (enoughCount CachedFileInfo.sizeOnDisk
    (size - limits.availableSpace cacheInfo.sizeOnDisk) order)

omit [DecidableEq Path] in
theorem lruOrder_sorted (files : List (CachedFileInfo Path)) :
    (lruOrder files).Perm files ∧
      (lruOrder files).Pairwise fun file other => file.blobLastAccessed ≤ other.blobLastAccessed :=
  have : Std.Total fun file other : CachedFileInfo Path =>
      file.blobLastAccessed ≤ other.blobLastAccessed := ⟨fun _ _ => le_total _ _⟩
  have : IsTrans (CachedFileInfo Path) fun file other =>
      file.blobLastAccessed ≤ other.blobLastAccessed := ⟨fun _ _ _ => le_trans⟩
  ⟨List.perm_insertionSort _ _, List.pairwise_insertionSort _ _⟩

/-- The paths that removing some files takes, each file's link before its blob. -/
def pathsOf (files : List (CachedFileInfo Path)) : List Path :=
  files.flatMap fun file => [file.filePath, file.blobPath]

omit [DecidableEq Path] in
private theorem nodup_disjoint_cons {link blob : Path} {others gone : List Path}
    (hlink : link ∉ gone) (hblob : blob ∉ link :: gone) :
    ((link :: blob :: others).Nodup ∧ ∀ path ∈ link :: blob :: others, path ∉ gone) ↔
      others.Nodup ∧ ∀ path ∈ others, path ∉ blob :: link :: gone := by
  simp only [List.nodup_cons, List.mem_cons, not_or] at hblob ⊢
  constructor
  · rintro ⟨⟨⟨-, hlinkOthers⟩, hblobOthers, hnodup⟩, hgone⟩
    refine ⟨hnodup, fun path hpath => ⟨?_, ?_, hgone path (.inr (.inr hpath))⟩⟩
    · rintro rfl
      exact hblobOthers hpath
    · rintro rfl
      exact hlinkOthers hpath
  · rintro ⟨hnodup, hgone⟩
    refine ⟨⟨⟨Ne.symm hblob.1, fun hmem => (hgone link hmem).2.1 rfl⟩,
      fun hmem => (hgone blob hmem).1 rfl, hnodup⟩, ?_⟩
    rintro path (rfl | rfl | hpath)
    · exact hlink
    · exact hblob.2
    · exact (hgone path hpath).2.2

private theorem removeFiles_cons {extraSpaceNeeded : Int} {file : CachedFileInfo Path}
    {rest : List (CachedFileInfo Path)} {removal : Removal Path}
    (hlink : file.filePath ∉ removal.removedPaths)
    (hblob : file.blobPath ∉ file.filePath :: removal.removedPaths) :
    removeFiles extraSpaceNeeded (file :: rest) removal =
      let next : Removal Path :=
        { removedPaths := file.blobPath :: file.filePath :: removal.removedPaths
          removedFiles := removal.removedFiles ++ [file]
          freedSpace := removal.freedSpace + file.sizeOnDisk }
      if extraSpaceNeeded - removal.freedSpace ≤ file.sizeOnDisk then (next, none)
      else removeFiles extraSpaceNeeded rest next := by
  have hiff : extraSpaceNeeded ≤ ((removal.freedSpace + file.sizeOnDisk : Nat) : Int) ↔
      extraSpaceNeeded - removal.freedSpace ≤ file.sizeOnDisk := by omega
  simp only [removeFiles, osRemove, if_neg hlink, if_neg hblob, hiff]

theorem removeFiles_spec (extraSpaceNeeded : Int) (files : List (CachedFileInfo Path))
    (removal : Removal Path) :
    let removed := files.take (enoughCount CachedFileInfo.sizeOnDisk
      (extraSpaceNeeded - removal.freedSpace) files)
    let result := removeFiles extraSpaceNeeded files removal
    (result.2 = none ↔
      (pathsOf removed).Nodup ∧ ∀ path ∈ pathsOf removed, path ∉ removal.removedPaths) ∧
    (result.2 = none →
      result.1.removedFiles = removal.removedFiles ++ removed ∧
      result.1.freedSpace = removal.freedSpace + totalWeight CachedFileInfo.sizeOnDisk removed) := by
  induction files generalizing removal with
  | nil => simp [removeFiles, pathsOf, enoughCount]
  | cons file rest ih =>
      intro removed result
      have hremoved : removed = file :: rest.take (if extraSpaceNeeded - removal.freedSpace ≤
          file.sizeOnDisk then 0 else enoughCount CachedFileInfo.sizeOnDisk
            (extraSpaceNeeded - removal.freedSpace - file.sizeOnDisk) rest) := by
        simp only [removed, enoughCount, Nat.add_comm 1, List.take_succ_cons]
      by_cases hlink : file.filePath ∈ removal.removedPaths
      · have hresult : result.2 = some file.filePath := by
          simp [result, removeFiles, osRemove, hlink]
        rw [hresult, hremoved]
        simp [pathsOf, hlink]
      by_cases hblob : file.blobPath ∈ file.filePath :: removal.removedPaths
      · have hresult : result.2 = some file.blobPath := by
          simp only [result, removeFiles, osRemove, if_neg hlink, if_pos hblob]
        rw [hresult, hremoved]
        rcases List.mem_cons.mp hblob with hsame | hgone
        · simp [pathsOf, hsame]
        · simp [pathsOf, hgone]
      have hstep : result = _ := removeFiles_cons hlink hblob
      have hpaths (others : List Path) :=
        @nodup_disjoint_cons Path file.filePath file.blobPath others _ hlink hblob
      by_cases henough : extraSpaceNeeded - removal.freedSpace ≤ file.sizeOnDisk
      · have hdisjoint := (hpaths []).mpr ⟨List.nodup_nil, by simp⟩
        rw [hstep, hremoved, if_pos henough]
        simp only [if_pos henough, List.take_zero, true_iff, forall_const]
        exact ⟨hdisjoint, trivial, rfl⟩
      · let next : Removal Path :=
          { removedPaths := file.blobPath :: file.filePath :: removal.removedPaths
            removedFiles := removal.removedFiles ++ [file]
            freedSpace := removal.freedSpace + file.sizeOnDisk }
        have hneeded : extraSpaceNeeded - removal.freedSpace - file.sizeOnDisk =
            extraSpaceNeeded - next.freedSpace := by
          change _ = extraSpaceNeeded - ((removal.freedSpace + file.sizeOnDisk : Nat) : Int)
          omega
        obtain ⟨hnone, hresult⟩ := ih next
        rw [hstep, hremoved, if_neg henough, hneeded]
        simp only [if_neg henough]
        refine ⟨hnone.trans (hpaths _).symm, fun h => ?_⟩
        obtain ⟨hfiles, hfreed⟩ := hresult h
        rw [hfiles, hfreed, totalWeight_cons]
        exact ⟨List.append_assoc _ _ _, Nat.add_assoc _ _ _⟩

theorem blobBytes_eq {files : List (CachedFileInfo Path)}
    (hnodup : (files.map CachedFileInfo.blobPath).Nodup) :
    blobBytes files = totalWeight CachedFileInfo.sizeOnDisk files := by
  have hpairs : (files.map fun file => (file.blobPath, file.sizeOnDisk)).Nodup := by
    refine List.Nodup.of_map Prod.fst ?_
    rwa [List.map_map]
  unfold blobBytes totalWeight
  rw [hpairs.dedup, List.map_map]
  rfl

theorem blobBytes_perm {files others : List (CachedFileInfo Path)} (h : files.Perm others) :
    blobBytes files = blobBytes others :=
  (((h.map _).dedup).map _).sum_eq

section report
variable {cacheInfo : HFCacheInfo Path}

omit [DecidableEq Path] in
theorem pathsOf_nodup_iff {files : List (CachedFileInfo Path)}
    (hsubset : ∀ file ∈ files, file ∈ allFiles cacheInfo.repos)
    (hdistinct : (files.map CachedFileInfo.filePath).Nodup) :
    (pathsOf files).Nodup ↔
      (∀ file ∈ files, file.filePath ≠ file.blobPath) ∧
        (files.map CachedFileInfo.blobPath).Nodup := by
  unfold pathsOf
  rw [List.nodup_flatMap]
  constructor
  · rintro ⟨hown, hpairwise⟩
    refine ⟨fun file hfile => by simpa using hown file hfile, List.pairwise_map.mpr ?_⟩
    refine hpairwise.imp fun {file other} hdisjoint hsame => ?_
    have hblob : file.blobPath ∈ [file.filePath, file.blobPath] := by simp
    exact hdisjoint hblob (by simp [hsame])
  · rintro ⟨hown, hblobs⟩
    refine ⟨fun file hfile => by simpa using hown file hfile, ?_⟩
    -- a path that is a link of one file and the blob of another would be both for one of them
    have hlinkBlob : ∀ file ∈ files, ∀ other ∈ files, file.filePath ≠ other.blobPath := by
      intro file hfile other hother hsame
      exact hown file hfile
        (cacheInfo.resolved file (hsubset file hfile) other (hsubset other hother) hsame).symm
    have hboth := (List.pairwise_map.mp hdistinct).and (List.pairwise_map.mp hblobs)
    refine hboth.imp_of_mem fun {file other} hfile hother h path hpath hother' => ?_
    simp only [List.mem_cons, List.not_mem_nil, or_false] at hpath hother'
    rcases hpath with rfl | rfl
    · rcases hother' with hsame | hsame
      · exact h.1 hsame
      · exact hlinkBlob _ hfile _ hother hsame
    · rcases hother' with hsame | hsame
      · exact hlinkBlob _ hother _ hfile hsame.symm
      · exact h.2 hsame

variable (size : Int) (limits : Limits)

omit [DecidableEq Path] in
theorem mem_of_mem_neededFiles {file : CachedFileInfo Path}
    (h : file ∈ neededFiles size cacheInfo limits) : file ∈ allFiles cacheInfo.repos :=
  (lruOrder_sorted _).1.mem_iff.mp (List.mem_of_mem_take h)

omit [DecidableEq Path] in
theorem neededFiles_distinct :
    ((neededFiles size cacheInfo limits).map CachedFileInfo.filePath).Nodup :=
  (((lruOrder_sorted _).1.map _).nodup_iff.mpr cacheInfo.distinctFiles).sublist
    ((List.take_sublist _ _).map _)

section needed
variable {size limits}
variable (hneeded : ¬ size ≤ limits.availableSpace cacheInfo.sizeOnDisk)
  (hblobs : ((neededFiles size cacheInfo limits).map CachedFileInfo.blobPath).Nodup)
include hneeded hblobs

/-- Without shared blobs among them, the needed files are a prefix that no shorter one replaces. -/
private theorem neededFiles_least :
    ∃ count ≤ (allFiles cacheInfo.repos).length,
      neededFiles size cacheInfo limits = (lruOrder (allFiles cacheInfo.repos)).take count ∧
      ∀ fewer < count, blobBytes ((lruOrder (allFiles cacheInfo.repos)).take fewer) <
        size - limits.availableSpace cacheInfo.sizeOnDisk := by
  refine ⟨_, ?_, rfl, fun fewer hfewer => ?_⟩
  · rw [← (lruOrder_sorted (allFiles cacheInfo.repos)).1.length_eq]
    exact enoughCount_le _ _ _
  · have htaken : (lruOrder (allFiles cacheInfo.repos)).take fewer =
        (neededFiles size cacheInfo limits).take fewer := by
      unfold neededFiles
      rw [List.take_take, Nat.min_eq_left hfewer.le]
    have hfewerBlobs : ((lruOrder (allFiles cacheInfo.repos)).take fewer |>.map
        CachedFileInfo.blobPath).Nodup := by
      rw [htaken]
      exact hblobs.sublist ((List.take_sublist _ _).map _)
    rw [blobBytes_eq hfewerBlobs]
    exact not_enough_before _ (by omega) hfewer

omit hneeded in
private theorem allFiles_bytes
    (hmissing : totalWeight CachedFileInfo.sizeOnDisk (neededFiles size cacheInfo limits) <
      size - limits.availableSpace cacheInfo.sizeOnDisk) :
    blobBytes (allFiles cacheInfo.repos) =
      totalWeight CachedFileInfo.sizeOnDisk (neededFiles size cacheInfo limits) := by
  have hall := (enough_or_all CachedFileInfo.sizeOnDisk
    (size - limits.availableSpace cacheInfo.sizeOnDisk)
    (lruOrder (allFiles cacheInfo.repos))).resolve_left (not_le.mpr hmissing)
  have horder : neededFiles size cacheInfo limits = lruOrder (allFiles cacheInfo.repos) := by
    unfold neededFiles
    dsimp only
    rw [hall, List.take_length]
  rw [← blobBytes_eq hblobs, horder]
  exact (blobBytes_perm (lruOrder_sorted _).1).symm

end needed

/-- A call that has to remove files meets no missing path exactly when the files it needs have
links and blobs of their own, and then it removes these files. -/
theorem freeDiskSpaceFor_spec (hneeded : ¬ size ≤ limits.availableSpace cacheInfo.sizeOnDisk) :
    let result := freeDiskSpaceFor size cacheInfo limits
    let needed := neededFiles size cacheInfo limits
    let bytes := totalWeight CachedFileInfo.sizeOnDisk needed
    let missing := size - limits.availableSpace cacheInfo.sizeOnDisk - bytes
    (((∀ file ∈ needed, file.filePath ≠ file.blobPath) ∧
        (needed.map CachedFileInfo.blobPath).Nodup) ∧
      result.2.removedFiles = needed ∧
      result.1 = if 0 < missing then .insufficientSpace missing else .returned) ∨
    (¬ ((∀ file ∈ needed, file.filePath ≠ file.blobPath) ∧
        (needed.map CachedFileInfo.blobPath).Nodup) ∧
      ∃ path, result.1 = .fileNotFound path) := by
  intro result needed bytes missing
  have hcached : ∀ file ∈ needed, file ∈ allFiles cacheInfo.repos :=
    fun _ => mem_of_mem_neededFiles size limits
  have hpaths := pathsOf_nodup_iff hcached (neededFiles_distinct size limits)
  have hspec := removeFiles_spec (size - limits.availableSpace cacheInfo.sizeOnDisk)
    (lruOrder (allFiles cacheInfo.repos)) ⟨[], [], 0⟩
  simp only [Nat.cast_zero, sub_zero, List.not_mem_nil, not_false_eq_true, implies_true,
    and_true, List.nil_append, Nat.zero_add] at hspec
  obtain ⟨hnone, hresult⟩ := hspec
  have hdef : result = _ := if_neg hneeded
  cases hrun : removeFiles (size - limits.availableSpace cacheInfo.sizeOnDisk)
    (lruOrder (allFiles cacheInfo.repos)) ⟨[], [], 0⟩ with
  | mk removal error =>
      rw [hrun] at hnone hresult hdef
      rw [← hpaths]
      cases error with
      | some path =>
          refine .inr ⟨fun hnodup => ?_, path, congrArg Prod.fst hdef⟩
          cases hnone.mpr hnodup
      | none =>
          obtain ⟨hfiles, hfreed⟩ := hresult rfl
          have hbytes : removal.freedSpace = bytes := hfreed
          refine .inl ⟨hnone.mp rfl, ?_⟩
          by_cases hmissing : 0 < missing
          · have hlt : (removal.freedSpace : Int) <
                size - limits.availableSpace cacheInfo.sizeOnDisk := by omega
            have hresult : result = (.insufficientSpace _, removal) := hdef.trans (if_pos hlt)
            rw [hresult, if_pos hmissing]
            exact ⟨hfiles, by rw [hbytes]⟩
          · have hge : ¬ (removal.freedSpace : Int) <
                size - limits.availableSpace cacheInfo.sizeOnDisk := by omega
            have hresult : result = (.returned, removal) := hdef.trans (if_neg hge)
            rw [hresult, if_neg hmissing]
            exact ⟨hfiles, rfl⟩

/-- Shared blobs are counted, and removed, once for each file. A call frees what it should and
leaves no file without its blob exactly when nothing has to go, or when each file that has to go
has a link of its own and a blob that no other file of the cache has. -/
theorem freeDiskSpaceFor_frees_iff :
    Frees size cacheInfo limits (freeDiskSpaceFor size cacheInfo limits).1
        (freeDiskSpaceFor size cacheInfo limits).2.removedFiles ↔
      size ≤ limits.availableSpace cacheInfo.sizeOnDisk ∨
        ∀ file ∈ neededFiles size cacheInfo limits, file.filePath ≠ file.blobPath ∧
          ∀ other ∈ allFiles cacheInfo.repos, other.blobPath = file.blobPath → other = file := by
  by_cases hneeded : size ≤ limits.availableSpace cacheInfo.sizeOnDisk
  · have hresult : freeDiskSpaceFor size cacheInfo limits = (.returned, ⟨[], [], 0⟩) :=
      if_pos hneeded
    rw [hresult]
    refine iff_of_true ⟨.inl ⟨rfl, ?_⟩, ⟨0, Nat.zero_le _, rfl, by simp⟩, by simp⟩ (.inl hneeded)
    exact (sub_nonpos.mpr hneeded).trans (Int.natCast_nonneg _)
  · rw [or_iff_right hneeded]
    have hspec := freeDiskSpaceFor_spec size limits hneeded
    constructor
    · rintro ⟨henough, -, hdangling⟩
      rcases hspec with ⟨⟨hown, hblobs⟩, hremoved, -⟩ | ⟨-, path, houtcome⟩
      · rw [hremoved] at hdangling
        refine fun file hfile => ⟨hown file hfile, fun other hother hsame => ?_⟩
        by_contra hne
        have hother' : other ∉ neededFiles size cacheInfo limits := fun hmem =>
          hne (List.inj_on_of_nodup_map hblobs hmem hfile hsame)
        exact hdangling other hother hother' file hfile hsame
      · rw [houtcome] at henough
        rcases henough with ⟨h, -⟩ | ⟨⟨_, h⟩, -⟩ <;> cases h
    · intro hown
      have hnodup : (neededFiles size cacheInfo limits).Nodup :=
        List.Nodup.of_map _ (neededFiles_distinct size limits)
      have hblobs : ((neededFiles size cacheInfo limits).map CachedFileInfo.blobPath).Nodup :=
        hnodup.map_on fun other hother file hfile hsame =>
          (hown file hfile).2 other (mem_of_mem_neededFiles size limits hother) hsame
      rcases hspec with ⟨-, hremoved, houtcome⟩ | ⟨hnot, -⟩
      · rw [hremoved, houtcome]
        refine ⟨?_, neededFiles_least hneeded hblobs, fun file hfile hkept removed hmem hsame =>
          hkept ((hown removed hmem).2 file hfile hsame ▸ hmem)⟩
        rw [blobBytes_eq hblobs]
        split
        · rename_i hmissing
          refine .inr ⟨⟨_, rfl⟩, ?_⟩
          rw [allFiles_bytes hblobs (by omega)]
          omega
        · exact .inl ⟨rfl, by omega⟩
      · exact absurd ⟨fun file hfile => (hown file hfile).1, hblobs⟩ hnot

end report

/-! Two revisions of a model with the same weights. -/

private def sharedBlob : HFCacheInfo String where
  repos := [⟨[⟨[⟨"snapshots/1/model.bin", "blobs/weights", 10, 0⟩]⟩,
    ⟨[⟨"snapshots/2/model.bin", "blobs/weights", 10, 0⟩]⟩]⟩]
  sizeOnDisk := 10
  distinctFiles := by decide
  sameBlob := by decide
  resolved := by decide

/-- A small request leaves a link without its blob, a larger one fails on the second link. -/
theorem freeDiskSpaceFor_sharedBlob :
    (¬ ∀ (size : Int) (cacheInfo : HFCacheInfo String) (limits : Limits),
      Frees size cacheInfo limits (freeDiskSpaceFor size cacheInfo limits).1
        (freeDiskSpaceFor size cacheInfo limits).2.removedFiles) ∧
    (freeDiskSpaceFor 15 sharedBlob ⟨1024 ^ 3, 1024 ^ 3, none⟩).1 = .fileNotFound "blobs/weights" := by
  refine ⟨fun hclaim => ?_, by decide +kernel⟩
  have hfrees := hclaim 5 sharedBlob ⟨1024 ^ 3, 1024 ^ 3, none⟩
  have hremoved : (freeDiskSpaceFor 5 sharedBlob ⟨1024 ^ 3, 1024 ^ 3, none⟩).2.removedFiles =
      [⟨"snapshots/1/model.bin", "blobs/weights", 10, 0⟩] := by decide +kernel
  rw [hremoved] at hfrees
  exact hfrees.noDangling ⟨"snapshots/2/model.bin", "blobs/weights", 10, 0⟩ (by decide +kernel)
    (by decide +kernel) _ List.mem_cons_self rfl

end Peerz.Utils.DiskCache
