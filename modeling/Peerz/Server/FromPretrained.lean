import Mathlib.Data.List.Dedup
import Peerz.Library.Checked
import Peerz.Library.Dict

/-! The weights of a block, from whichever files of a repository they are in, or from local copies
of these. The index that names the files is the one of the default revision, also where another
revision is loaded, and a copy that can be read is taken for the file. -/
namespace Peerz.Server
open Library

inductive RepoFile (Tensor : Type) where
  /-- a file of parameter names and the files that have them -/
  | index (weightMap : Dict String String)
  | weights (parameters : Dict String Tensor)

inductive CachedFile (Tensor : Type) where
  | corrupted
  /-- which need not be what the repository has by now -/
  | intact (file : RepoFile Tensor)

/-- A repository and its local copies, where no revision stands for the default one. -/
structure WeightRepo (Revision Tensor : Type) where
  files : Option Revision → String → Option (RepoFile Tensor)
  cached : Option Revision → String → Option (CachedFile Tensor)
  /-- whether the repository can be reached while its index is looked for -/
  online : Bool

/-- The parameters of a block and its persistent buffers, with their shapes. -/
structure BlockModule where
  parameters : List (String × List Nat)
  buffers : List (String × List Nat)

inductive LoadError where
  | unreachable
  | noWeights
  | noIndex
  | blockNotFound
  | sizeMismatch
  | missingKeys
deriving DecidableEq

variable {Revision Tensor : Type}

def CachedFile.read? : CachedFile Tensor → Option (RepoFile Tensor)
  | .corrupted => none
  | .intact file => some file

/-- `name[len(prefix):]`, for a name that starts with the prefix. -/
def stripPrefix? (blockPrefix name : String) : Option String :=
  if blockPrefix.toList.isPrefixOf name.toList then
    some (String.ofList (name.toList.drop blockPrefix.toList.length))
  else none

theorem stripPrefix?_eq_some_iff {blockPrefix name rest : String} :
    stripPrefix? blockPrefix name = some rest ↔ name = blockPrefix ++ rest := by
  unfold stripPrefix?
  rw [Option.ite_none_right_eq_some, List.isPrefixOf_iff_prefix, Option.some_inj]
  constructor
  · rintro ⟨⟨later, hlater⟩, rfl⟩
    apply String.toList_injective
    rw [← hlater, List.drop_left, String.toList_append, String.toList_ofList, hlater]
  · rintro rfl
    rw [String.toList_append, List.drop_left, String.ofList_toList]
    exact ⟨List.prefix_append _ _, rfl⟩

/-- The parameters of a block among those of a file, under their names in the block. -/
def ownParameters (blockPrefix : String) (parameters : Dict String Tensor) : Dict String Tensor where
  entries := parameters.entries.filterMap fun entry =>
    (stripPrefix? blockPrefix entry.1).map fun name => (name, entry.2)
  nodupKeys := by
    have hkeys : ((parameters.entries.filterMap fun entry =>
        (stripPrefix? blockPrefix entry.1).map fun name => (name, entry.2)).map Prod.fst) =
          parameters.keys.filterMap (stripPrefix? blockPrefix) := by
      unfold Dict.keys
      rw [List.map_filterMap, List.filterMap_map]
      apply List.filterMap_congr
      intro entry _
      simp [Function.comp_def]
    rw [hkeys]
    refine parameters.nodupKeys.filterMap fun left right rest hleft hright => ?_
    rw [stripPrefix?_eq_some_iff.mp hleft, stripPrefix?_eq_some_iff.mp hright]

theorem get?_ownParameters {blockPrefix : String} {parameters : Dict String Tensor} {name : String}
    {param : Tensor} : (ownParameters blockPrefix parameters).get? name = some param ↔
      parameters.get? (blockPrefix ++ name) = some param := by
  rw [Dict.get?_eq_some_iff, Dict.get?_eq_some_iff]
  unfold ownParameters
  simp only [List.mem_filterMap, Option.map_eq_some_iff, stripPrefix?_eq_some_iff, Prod.mk.injEq]
  constructor
  · rintro ⟨⟨full, stored⟩, hmem, rest, rfl, rfl, rfl⟩
    exact hmem
  · intro hmem
    exact ⟨_, hmem, name, rfl, rfl, rfl⟩

def endsWith (name ending : String) : Bool := ending.toList.isSuffixOf name.toList

/-- Pickled files are read as a whole, of the others only the parameters of the block. -/
def loadStateDictFromLocalFile (path blockPrefix : String) :
    RepoFile Tensor → Option (Dict String Tensor)
  | .weights parameters =>
      if endsWith path ".bin" then some parameters
      else if endsWith path ".safetensors" then
        some (parameters.filter fun name _ => (stripPrefix? blockPrefix name).isSome)
      else none
  | .index _ => none

def indexFiles : List String :=
  ["model.safetensors.index.json", "model.safetensors", "pytorch_model.bin.index.json",
    "pytorch_model.bin"]

section loading
variable (repo : WeightRepo Revision Tensor) (revision : Option Revision)

def localCopy (filename : String) : Option (RepoFile Tensor) :=
  (repo.cached revision filename).bind CachedFile.read?

/-- The first one that is cached, else the first one there is. -/
def findIndexFile : Except LoadError String :=
  match indexFiles.find? fun filename => (repo.cached revision filename).isSome with
  | some filename => .ok filename
  | none =>
      if repo.online then
        match indexFiles.find? fun filename => (repo.files revision filename).isSome with
        | some filename => .ok filename
        | none => .error .noWeights
      else .error .unreachable

/-- `get_file_from_repo` for the file with the index, without the revision. Where the repository
cannot be reached it finds the local copy. -/
def fetchIndex (indexFile : String) : Option (RepoFile Tensor) :=
  if repo.online then repo.files none indexFile else localCopy repo none indexFile

def blockFilenames (indexFile blockPrefix : String) : Except LoadError (List String) :=
  if endsWith indexFile ".index.json" then
    match fetchIndex repo indexFile with
    | some (.index weightMap) =>
        let filenames := ((weightMap.filter fun name _ =>
          (stripPrefix? blockPrefix name).isSome).values).dedup
        if filenames = [] then .error .blockNotFound else .ok filenames
    | _ => .error .noIndex
  else .ok [indexFile]

/-- A local copy that cannot be read is downloaded. The download is tried until it succeeds;
`attempts` are those so far, and `none` is a load that is still trying. -/
def loadStateDictFromRepoFile (filename blockPrefix : String) (attempts : List Bool) :
    Option (Dict String Tensor) :=
  match (localCopy repo revision filename).bind
      (loadStateDictFromLocalFile filename blockPrefix) with
  | some stateDict => some stateDict
  | none =>
      if true ∈ attempts then
        (repo.files revision filename).bind (loadStateDictFromLocalFile filename blockPrefix)
      else none

/-- The files are loaded in the order in which a set of names is iterated. -/
def loadStateDictFromRepo (blockPrefix : String) (iterated : List String → List String)
    (attempts : String → List Bool) : Except LoadError (Option (Dict String Tensor)) := do
  let indexFile ← findIndexFile repo revision
  let filenames ← blockFilenames repo indexFile blockPrefix
  let shards := (iterated filenames).mapM fun filename =>
    loadStateDictFromRepoFile repo revision filename blockPrefix (attempts filename)
  return shards.map fun shards =>
    shards.foldl (fun stateDict shard => stateDict.update (ownParameters blockPrefix shard)) .empty

/-- The parameters that the block gets, cast by `toDtype` (integers stay what they are). What else
is in the state dict is left. -/
def loadPretrainedBlock (blockModule : BlockModule) (shape : Tensor → List Nat)
    (toDtype : Tensor → Tensor) (blockPrefix : String) (iterated : List String → List String)
    (attempts : String → List Bool) : Except LoadError (Option (List (String × Tensor))) := do
  let loaded ← loadStateDictFromRepo repo revision blockPrefix iterated attempts
  match loaded with
  | none => .ok none
  | some stateDict =>
      let fits := fun entry : String × List Nat =>
        (stateDict.get? entry.1).all fun param => shape param = entry.2
      -- `load_state_dict` raises where shapes differ, also with `strict=False`
      if (blockModule.parameters ++ blockModule.buffers).all fits = false then .error .sizeMismatch
      else if blockModule.buffers.all fun entry => (stateDict.get? entry.1).isSome then
        match blockModule.parameters.mapM fun entry =>
            (stateDict.get? entry.1).map fun param => (entry.1, toDtype param) with
        | none => .error .missingKeys
        | some block => .ok (some block)
      else .error .missingKeys

end loading

section spec
variable {repo : WeightRepo Revision Tensor} {revision : Option Revision} {blockPrefix : String}
  {filename : String} {stateDict : Dict String Tensor}

def HoldsParam (file : Option (RepoFile Tensor)) (name : String) (param : Tensor) : Prop :=
  ∃ parameters, file = some (.weights parameters) ∧ parameters.get? name = some param

theorem HoldsParam.unique {file : Option (RepoFile Tensor)} {name : String} {left right : Tensor}
    (hleft : HoldsParam file name left) (hright : HoldsParam file name right) : left = right := by
  obtain ⟨parameters, hfile, hparam⟩ := hleft
  obtain ⟨others, hother, hvalue⟩ := hright
  cases hfile.symm.trans hother
  exact Option.some_injective _ (hparam.symm.trans hvalue)

/-- What is read for a file: its local copy, of whatever state of the revision that is, or the file
itself. -/
def readFile (repo : WeightRepo Revision Tensor) (revision : Option Revision)
    (blockPrefix filename : String) : Option (RepoFile Tensor) :=
  ((localCopy repo revision filename).filter fun file =>
    (loadStateDictFromLocalFile filename blockPrefix file).isSome).or (repo.files revision filename)

/-- The local copies that can be read are those of the revision as it is. -/
def Fresh (repo : WeightRepo Revision Tensor) (revision : Option Revision) : Prop :=
  ∀ filename file, localCopy repo revision filename = some file →
    repo.files revision filename = some file

theorem Fresh.readFile_eq (h : Fresh repo revision) (blockPrefix filename : String) :
    readFile repo revision blockPrefix filename = repo.files revision filename := by
  unfold readFile
  cases hcopy : localCopy repo revision filename with
  | none => rfl
  | some file =>
      rw [h filename file hcopy, Option.filter_some]
      split <;> rfl

theorem loadStateDictFromRepoFile_own {attempts : List Bool}
    (h : loadStateDictFromRepoFile repo revision filename blockPrefix attempts = some stateDict)
    (name : String) (param : Tensor) :
    (ownParameters blockPrefix stateDict).get? name = some param ↔
      HoldsParam (readFile repo revision blockPrefix filename) (blockPrefix ++ name) param := by
  have hloaded : (readFile repo revision blockPrefix filename).bind
      (loadStateDictFromLocalFile filename blockPrefix) = some stateDict := by
    unfold loadStateDictFromRepoFile at h
    unfold readFile
    cases hcopy : localCopy repo revision filename with
    | none =>
        rw [hcopy] at h
        exact (Option.ite_none_right_eq_some.mp h).2
    | some file =>
        rw [hcopy, Option.bind_some] at h
        rw [Option.filter_some]
        cases hread : loadStateDictFromLocalFile filename blockPrefix file with
        | some found =>
            rw [hread] at h
            exact hread.trans h
        | none =>
            rw [hread] at h
            exact (Option.ite_none_right_eq_some.mp h).2
  obtain ⟨file, hfile, hlocal⟩ := Option.bind_eq_some_iff.mp hloaded
  rw [get?_ownParameters]
  unfold HoldsParam
  rw [hfile]
  cases file with
  | index weightMap => cases hlocal
  | weights parameters =>
      simp only [Option.some.injEq, RepoFile.weights.injEq, exists_eq_left']
      unfold loadStateDictFromLocalFile at hlocal
      dsimp only at hlocal
      split at hlocal
      · cases hlocal
        rfl
      · obtain ⟨-, hfiltered⟩ := Option.ite_none_right_eq_some.mp hlocal
        cases hfiltered
        rw [Dict.get?_filter]
        simp [stripPrefix?_eq_some_iff.mpr rfl]

variable {iterated : List String → List String} {attempts : String → List Bool}

theorem loadStateDictFromRepo_shards (hiterated : ∀ filenames, (iterated filenames).Perm filenames)
    (h : loadStateDictFromRepo repo revision blockPrefix iterated attempts = .ok (some stateDict)) :
    ∃ indexFile filenames, ∃ shards : List (Dict String Tensor),
      findIndexFile repo revision = .ok indexFile ∧
      blockFilenames repo indexFile blockPrefix = .ok filenames ∧
      stateDict = shards.foldl (fun stateDict shard =>
        stateDict.update (ownParameters blockPrefix shard)) .empty ∧
      (∀ shard ∈ shards, ∃ filename ∈ filenames, ∀ name param,
        (ownParameters blockPrefix shard).get? name = some param ↔
          HoldsParam (readFile repo revision blockPrefix filename) (blockPrefix ++ name) param) ∧
      ∀ filename ∈ filenames, ∃ shard ∈ shards, ∀ name param,
        (ownParameters blockPrefix shard).get? name = some param ↔
          HoldsParam (readFile repo revision blockPrefix filename) (blockPrefix ++ name) param := by
  obtain ⟨indexFile, hindex, h⟩ := bind_eq_ok.mp h
  obtain ⟨filenames, hfilenames, h⟩ := bind_eq_ok.mp h
  obtain ⟨shards, hshards, rfl⟩ := Option.map_eq_some_iff.mp (Except.ok.inj h)
  have hloaded := forall₂_of_mapM_eq_some hshards
  refine ⟨indexFile, filenames, shards, hindex, hfilenames, rfl, fun shard hshard => ?_,
    fun filename hfilename => ?_⟩
  · obtain ⟨filename, hfilename, hfile⟩ := exists_of_forall₂_right hloaded hshard
    exact ⟨filename, (hiterated filenames).mem_iff.mp hfilename, loadStateDictFromRepoFile_own hfile⟩
  · obtain ⟨shard, hshard, hfile⟩ := exists_of_forall₂_left hloaded
      ((hiterated filenames).mem_iff.mpr hfilename)
    exact ⟨shard, hshard, loadStateDictFromRepoFile_own hfile⟩

/-- A revision whose index says where the parameters are that are in the files which the index of
the default revision names. -/
structure Checkpoint (repo : WeightRepo Revision Tensor) (revision : Option Revision)
    (indexFile : String) (weightMap : Dict String String) : Prop where
  index : repo.files revision indexFile = some (.index weightMap)
  mapped : ∀ defaultMap, fetchIndex repo indexFile = some (.index defaultMap) →
    ∀ filename ∈ defaultMap.values, ∀ name param,
      HoldsParam (repo.files revision filename) name param →
      weightMap.get? name = some filename

/-- The index that is read names a file for some parameter of the block. -/
def Named (repo : WeightRepo Revision Tensor) (indexFile blockPrefix filename : String) : Prop :=
  ∃ defaultMap name, fetchIndex repo indexFile = some (.index defaultMap) ∧
    defaultMap.get? (blockPrefix ++ name) = some filename

theorem mem_blockFilenames {indexFile : String} {filenames : List String}
    (hsharded : endsWith indexFile ".index.json" = true)
    (h : blockFilenames repo indexFile blockPrefix = .ok filenames) :
    filename ∈ filenames ↔ Named repo indexFile blockPrefix filename := by
  unfold blockFilenames at h
  rw [if_pos hsharded] at h
  unfold Named
  split at h
  · rename_i weightMap hindex
    dsimp only at h
    split at h
    · cases h
    · cases h
      rw [List.mem_dedup, Dict.mem_values_iff]
      simp only [Dict.get?_filter, Option.isSome_iff_exists, stripPrefix?_eq_some_iff]
      constructor
      · rintro ⟨full, hfull, rest, rfl⟩
        exact ⟨weightMap, rest, hindex, hfull⟩
      · rintro ⟨defaultMap, rest, hdefault, hfull⟩
        cases hindex.symm.trans hdefault
        exact ⟨_, hfull, rest, rfl⟩
  · cases h

/-- What is loaded is in a file that the index names, as that file is read. -/
theorem loadStateDictFromRepo_read {indexFile : String}
    (hsharded : endsWith indexFile ".index.json" = true)
    (hiterated : ∀ filenames, (iterated filenames).Perm filenames)
    (hfound : findIndexFile repo revision = .ok indexFile)
    (hloaded : loadStateDictFromRepo repo revision blockPrefix iterated attempts =
      .ok (some stateDict)) {name : String} {param : Tensor}
    (hparam : stateDict.get? name = some param) :
    ∃ filename, Named repo indexFile blockPrefix filename ∧
      HoldsParam (readFile repo revision blockPrefix filename) (blockPrefix ++ name) param := by
  obtain ⟨otherFile, filenames, shards, hindex, hfilenames, rfl, hshards, -⟩ :=
    loadStateDictFromRepo_shards hiterated hloaded
  cases hfound.symm.trans hindex
  obtain ⟨before, shard, after, rfl, hvalue, -⟩ :=
    (Dict.get?_foldl_update shards (ownParameters blockPrefix) name param).mp hparam
  obtain ⟨filename, hfilename, hholds⟩ := hshards shard (by simp)
  exact ⟨filename, (mem_blockFilenames hsharded hfilenames).mp hfilename,
    (hholds name param).mp hvalue⟩

/-- Of fresh copies and files, what is loaded is what the revision has, in files that the index
names. -/
theorem Checkpoint.get?_iff {indexFile : String} {weightMap : Dict String String}
    (hcheckpoint : Checkpoint repo revision indexFile weightMap) (hfresh : Fresh repo revision)
    (hsharded : endsWith indexFile ".index.json" = true)
    (hiterated : ∀ filenames, (iterated filenames).Perm filenames)
    (hfound : findIndexFile repo revision = .ok indexFile)
    (hloaded : loadStateDictFromRepo repo revision blockPrefix iterated attempts =
      .ok (some stateDict)) (name : String) (param : Tensor) :
    stateDict.get? name = some param ↔ ∃ filename,
      weightMap.get? (blockPrefix ++ name) = some filename ∧
        Named repo indexFile blockPrefix filename ∧
          HoldsParam (repo.files revision filename) (blockPrefix ++ name) param := by
  obtain ⟨otherFile, filenames, shards, hindex, hfilenames, rfl, hshards, hfiles⟩ :=
    loadStateDictFromRepo_shards hiterated hloaded
  cases hfound.symm.trans hindex
  simp only [hfresh.readFile_eq] at hshards hfiles
  have hmapped : ∀ filename ∈ filenames, ∀ name param,
      HoldsParam (repo.files revision filename) (blockPrefix ++ name) param →
        weightMap.get? (blockPrefix ++ name) = some filename := by
    intro filename hfilename name param hholds
    obtain ⟨defaultMap, other, hdefault, hother⟩ := (mem_blockFilenames hsharded hfilenames).mp
      hfilename
    exact hcheckpoint.mapped defaultMap hdefault filename
      (Dict.mem_values_iff.mpr ⟨_, hother⟩) _ param hholds
  rw [Dict.get?_foldl_update_of_agree]
  · constructor
    · rintro ⟨shard, hshard, hparam⟩
      obtain ⟨filename, hfilename, hholds⟩ := hshards shard hshard
      have hstored := (hholds name param).mp hparam
      exact ⟨filename, hmapped filename hfilename name param hstored,
        (mem_blockFilenames hsharded hfilenames).mp hfilename, hstored⟩
    · rintro ⟨filename, -, hnamed, hstored⟩
      obtain ⟨shard, hshard, hholds⟩ :=
        hfiles filename ((mem_blockFilenames hsharded hfilenames).mpr hnamed)
      exact ⟨shard, hshard, (hholds name param).mpr hstored⟩
  · intro left hleft right hright value other hvalue hother
    obtain ⟨leftFile, hleftFile, hleftHolds⟩ := hshards left hleft
    obtain ⟨rightFile, hrightFile, hrightHolds⟩ := hshards right hright
    have hleftStored := (hleftHolds name value).mp hvalue
    have hrightStored := (hrightHolds name other).mp hother
    cases (hmapped leftFile hleftFile name value hleftStored).symm.trans
      (hmapped rightFile hrightFile name other hrightStored)
    exact hleftStored.unique hrightStored

variable {shape : Tensor → List Nat} {toDtype : Tensor → Tensor}

def FitsModule (shape : Tensor → List Nat) (blockModule : BlockModule)
    (stateDict : Dict String Tensor) : Prop :=
  ∀ entry ∈ blockModule.parameters ++ blockModule.buffers, ∃ param,
    stateDict.get? entry.1 = some param ∧ shape param = entry.2

theorem loadPretrainedBlock_eq_ok {blockModule : BlockModule} {block : List (String × Tensor)}
    (hloaded : loadStateDictFromRepo repo revision blockPrefix iterated attempts =
      .ok (some stateDict)) :
    loadPretrainedBlock repo revision blockModule shape toDtype blockPrefix iterated attempts =
        .ok (some block) ↔
      FitsModule shape blockModule stateDict ∧ (blockModule.parameters.mapM fun entry =>
        (stateDict.get? entry.1).map fun param => (entry.1, toDtype param)) = some block := by
  have hentry (entry : String × List Nat) :
      ((stateDict.get? entry.1).all (fun param => decide (shape param = entry.2)) = true ∧
          (stateDict.get? entry.1).isSome = true) ↔
        ∃ param, stateDict.get? entry.1 = some param ∧ shape param = entry.2 := by
    cases stateDict.get? entry.1 with
    | none => simp
    | some param => simp
  have hfits : FitsModule shape blockModule stateDict ↔
      (blockModule.parameters ++ blockModule.buffers).all (fun entry =>
          (stateDict.get? entry.1).all fun param => decide (shape param = entry.2)) = true ∧
        (∀ entry ∈ blockModule.parameters, (stateDict.get? entry.1).isSome = true) ∧
        ∀ entry ∈ blockModule.buffers, (stateDict.get? entry.1).isSome = true := by
    unfold FitsModule
    rw [List.all_eq_true, ← List.forall_mem_append, ← forall₂_and]
    exact forall₂_congr fun entry _ => (hentry entry).symm
  have hparams : (∃ block, (blockModule.parameters.mapM fun entry =>
      (stateDict.get? entry.1).map fun param => (entry.1, toDtype param)) = some block) ↔
        ∀ entry ∈ blockModule.parameters, (stateDict.get? entry.1).isSome = true := by
    rw [← Option.isSome_iff_exists, mapM_isSome_iff]
    simp only [Option.isSome_map]
  rw [hfits, ← hparams]
  unfold loadPretrainedBlock
  rw [hloaded]
  simp only [bind, Except.bind]
  split
  · rename_i hmismatch
    exact iff_of_false (fun h => by cases h) fun h => Bool.noConfusion (hmismatch.symm.trans h.1.1)
  · rename_i hshapes
    rw [Bool.not_eq_false] at hshapes
    split
    · rename_i hbuffers
      cases hblock : blockModule.parameters.mapM fun entry =>
          (stateDict.get? entry.1).map fun param => (entry.1, toDtype param) with
      | none => simp
      | some loaded =>
          constructor
          · intro h
            cases h
            exact ⟨⟨hshapes, ⟨block, rfl⟩, List.all_eq_true.mp hbuffers⟩, rfl⟩
          · intro h
            cases h.2
            rfl
    · rename_i hbuffers
      exact iff_of_false (fun h => by cases h) fun h => hbuffers (List.all_eq_true.mpr h.1.2.2)

theorem loadPretrainedBlock_isOk_iff {blockModule : BlockModule}
    (hloaded : loadStateDictFromRepo repo revision blockPrefix iterated attempts =
      .ok (some stateDict)) :
    (∃ block, loadPretrainedBlock repo revision blockModule shape toDtype blockPrefix iterated
        attempts = .ok (some block)) ↔ FitsModule shape blockModule stateDict := by
  constructor
  · rintro ⟨block, hblock⟩
    exact ((loadPretrainedBlock_eq_ok hloaded).mp hblock).1
  · intro hfits
    have hpresent : (blockModule.parameters.mapM fun entry =>
        (stateDict.get? entry.1).map fun param => (entry.1, toDtype param)).isSome = true := by
      refine mapM_isSome_iff.mpr fun entry hentry => ?_
      obtain ⟨param, hparam, -⟩ := hfits entry (List.mem_append_left _ hentry)
      rw [hparam]
      rfl
    obtain ⟨block, hblock⟩ := Option.isSome_iff_exists.mp hpresent
    exact ⟨block, (loadPretrainedBlock_eq_ok hloaded).mpr ⟨hfits, hblock⟩⟩

theorem loadPretrainedBlock_parameters {blockModule : BlockModule} {block : List (String × Tensor)}
    (hloaded : loadStateDictFromRepo repo revision blockPrefix iterated attempts =
      .ok (some stateDict))
    (hblock : loadPretrainedBlock repo revision blockModule shape toDtype blockPrefix iterated
      attempts = .ok (some block)) :
    List.Forall₂ (fun entry parameter => ∃ param, stateDict.get? entry.1 = some param ∧
      shape param = entry.2 ∧ parameter = (entry.1, toDtype param))
        blockModule.parameters block := by
  obtain ⟨hfits, hparams⟩ := (loadPretrainedBlock_eq_ok hloaded).mp hblock
  have hboth := List.forall₂_and_left _ _ |>.mpr
    ⟨(List.forall_mem_append.mp hfits).1, forall₂_of_mapM_eq_some hparams⟩
  refine hboth.imp fun entry parameter hentry => ?_
  obtain ⟨⟨param, hparam, hshape⟩, hcast⟩ := hentry
  rw [hparam] at hcast
  exact ⟨param, hparam, hshape, (Option.some.inj hcast).symm⟩

end spec

section resharded

private def defaultMap : Dict String String where
  entries := [("h.1.a", "x.safetensors"), ("h.10.a", "y.safetensors")]
  nodupKeys := by decide

private def revisionMap : Dict String String where
  entries := [("h.1.a", "x.safetensors"), ("h.1.b", "x.safetensors"), ("h.10.a", "y.safetensors")]
  nodupKeys := by decide

private def revisionShard : Dict String Nat where
  entries := [("h.1.a", 2), ("h.1.b", 3)]
  nodupKeys := by decide

private def lastShard : Dict String Nat := ⟨[("h.10.a", 4)], by decide⟩

private def olderShard : Dict String Nat := ⟨[("h.1.a", 7)], by decide⟩

/-- A revision with a bias, which the default revision does not have. Of the latter an older shard
is cached. -/
private def twoShards : WeightRepo Unit Nat where
  files
    | none, "model.safetensors.index.json" => some (.index defaultMap)
    | some (), "model.safetensors.index.json" => some (.index revisionMap)
    | _, "x.safetensors" => some (.weights revisionShard)
    | some (), "y.safetensors" => some (.weights lastShard)
    | _, _ => none
  cached
    | some (), "model.safetensors.index.json" => some (.intact (.index revisionMap))
    | some (), "x.safetensors" => some .corrupted
    | none, "x.safetensors" => some (.intact (.weights olderShard))
    | _, _ => none
  online := true

private def scalars : BlockModule := ⟨[("a", []), ("b", [])], []⟩

/-- An older copy is taken as it is. -/
example : loadPretrainedBlock twoShards none ⟨[("a", [])], []⟩ (fun _ => []) id "h.1." id
    (fun _ => []) = .ok (some [("a", 7)]) := by rfl

private theorem twoShards_checkpoint :
    Checkpoint twoShards (some ()) "model.safetensors.index.json" revisionMap where
  index := rfl
  mapped map hmap filename hfilename name param hholds := by
    cases hmap
    obtain ⟨parameters, hparameters, hparam⟩ := hholds
    have hentry := Dict.get?_eq_some_iff.mp hparam
    rw [show defaultMap.values = ["x.safetensors", "y.safetensors"] from rfl] at hfilename
    simp only [List.mem_cons, List.not_mem_nil, or_false] at hfilename
    rcases hfilename with rfl | rfl
    · cases hparameters
      simp only [revisionShard, List.mem_cons, Prod.mk.injEq, List.not_mem_nil, or_false] at hentry
      rcases hentry with ⟨rfl, rfl⟩ | ⟨rfl, rfl⟩
      · decide
      · decide
    · cases hparameters
      simp only [lastShard, List.mem_cons, Prod.mk.injEq, List.not_mem_nil, or_false] at hentry
      obtain ⟨rfl, rfl⟩ := hentry
      decide

private theorem twoShards_fresh : Fresh twoShards (some ()) := by
  intro filename file hcopy
  obtain ⟨cached, hcached, hread⟩ := Option.bind_eq_some_iff.mp hcopy
  unfold twoShards at hcached
  dsimp only at hcached
  split at hcached
  · cases hcached
    cases hread
    rfl
  · cases hcached
    cases hread
  · contradiction
  · cases hcached

end resharded
end Peerz.Server
