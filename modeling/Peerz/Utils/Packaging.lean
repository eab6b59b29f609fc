import Peerz.Library.Dict
import Peerz.Library.Nested
import Peerz.Library.PyInt
import Peerz.Library.PySequence

/-! Packing the arguments of a call for its way to a server. The tensors are sent apart from the
structure, which has a byte string for each of them in their place. -/
namespace Peerz.Utils.Packaging
open Library

variable {Tensor Other : Type}

/-- A leaf of the arguments. Tensors are told apart as objects. -/
inductive Leaf (Tensor Other : Type) where
  | tensor (value : Tensor)
  | bytes (item : List UInt8)
  | other (value : Other)
deriving DecidableEq

/-- `b"__T"`. -/
def marker : List UInt8 := [95, 95, 84]

def markMaskedTensor (index : Nat) : List UInt8 := marker ++ decimalBytes index

def isMaskedTensor : Leaf Tensor Other → Bool
  | .bytes item => marker.isPrefixOf item
  | _ => false

/-- `none` is a `ValueError`. -/
def getTensorIndex (item : List UInt8) : Option Int := pyInt? (item.drop 3)

def argsKwargs (args : List (Nested (Leaf Tensor Other)))
    (kwargs : List (String × Nested (Leaf Tensor Other))) : Nested (Leaf Tensor Other) :=
  .node .tuple [.node .tuple args, .node (.dict (kwargs.map Prod.fst)) (kwargs.map Prod.snd)]

structure Masking (Tensor Other : Type) where
  maskedFlatValues : List (Leaf Tensor Other) := []
  flatTensors : List Tensor := []
  tensorToIndex : Dict Tensor Nat := Dict.empty

section packing
variable [DecidableEq Tensor]

def Masking.mask (masking : Masking Tensor Other) : Leaf Tensor Other → Masking Tensor Other
  | .tensor value =>
      let length := masking.flatTensors.length
      -- `setdefault`
      let tensorToIndex := match masking.tensorToIndex.get? value with
        | some _ => masking.tensorToIndex
        | none => masking.tensorToIndex.insert value length
      let tensorIndex := (masking.tensorToIndex.get? value).getD length
      { maskedFlatValues := masking.maskedFlatValues ++ [.bytes (markMaskedTensor tensorIndex)]
        flatTensors :=
          if tensorIndex = length then masking.flatTensors ++ [value] else masking.flatTensors
        tensorToIndex }
  | value => { masking with maskedFlatValues := masking.maskedFlatValues ++ [value] }

variable (codec : NestedCodec (Leaf Tensor Other))

/-- `none` is an error of `nested_pack`. -/
def packArgsKwargs (args : List (Nested (Leaf Tensor Other)))
    (kwargs : List (String × Nested (Leaf Tensor Other))) :
    Option (List Tensor × Nested (Leaf Tensor Other)) :=
  let masking := (codec.flatten (argsKwargs args kwargs)).foldl Masking.mask {}
  (codec.pack masking.maskedFlatValues (argsKwargs args kwargs)).map fun packed =>
    (masking.flatTensors, packed)

end packing

/-- A leaf with its tensor in place; `none` is a `ValueError` or an `IndexError`. -/
def restore (flatTensors : List Tensor) : Leaf Tensor Other → Option (Leaf Tensor Other)
  | .bytes item =>
      if marker.isPrefixOf item then do
        let tensorIndex ← getTensorIndex item
        let value ← pyGet? flatTensors tensorIndex
        pure (.tensor value)
      else some (.bytes item)
  | value => some value

def unpackArgsKwargs (codec : NestedCodec (Leaf Tensor Other)) (flatTensors : List Tensor)
    (argsStructure : Nested (Leaf Tensor Other)) : Option (Nested (Leaf Tensor Other)) := do
  let values ← (codec.flatten argsStructure).mapM (restore flatTensors)
  codec.pack values argsStructure

def tensorsOf (leaves : List (Leaf Tensor Other)) : List Tensor :=
  leaves.filterMap fun
    | .tensor value => some value
    | _ => none

/-- What a leaf is replaced by, with the list in which its tensor is. -/
inductive Masks (flatTensors : List Tensor) : Leaf Tensor Other → Leaf Tensor Other → Prop
  | tensor {value : Tensor} {index : Nat} (h : flatTensors[index]? = some value) :
      Masks flatTensors (.tensor value) (.bytes (markMaskedTensor index))
  | bytes (item : List UInt8) : Masks flatTensors (.bytes item) (.bytes item)
  | other (value : Other) : Masks flatTensors (.other value) (.other value)

theorem Masks.append {flatTensors : List Tensor} {value masked : Leaf Tensor Other}
    (h : Masks flatTensors value masked) (more : List Tensor) :
    Masks (flatTensors ++ more) value masked := by
  cases h with
  | tensor h =>
      have hlt := (List.getElem?_eq_some_iff.mp h).1
      exact .tensor (by rw [List.getElem?_append_left hlt, h])
  | bytes item => exact .bytes item
  | other value => exact .other value

theorem Masks.restore_iff {flatTensors : List Tensor} {value masked : Leaf Tensor Other}
    (h : Masks flatTensors value masked) :
    restore flatTensors masked = some value ↔ isMaskedTensor value = false := by
  cases h with
  | @tensor value index h =>
      have hindex : getTensorIndex (markMaskedTensor index) = some (index : Int) :=
        pyInt?_decimalBytes index
      have hmarked : marker.isPrefixOf (markMaskedTensor index) = true :=
        List.isPrefixOf_iff_prefix.mpr (List.prefix_append _ _)
      refine iff_of_true ?_ rfl
      simp only [restore, hmarked, if_true, hindex, Option.bind_eq_bind, Option.bind_some,
        pyGet?_natCast, h]
      rfl
  | bytes item =>
      unfold restore isMaskedTensor
      by_cases hmarked : marker.isPrefixOf item = true
      · refine iff_of_false ?_ (by simp [hmarked])
        -- what stands for the leaf is a tensor or an error
        dsimp only
        rw [if_pos hmarked]
        intro hrestored
        obtain ⟨tensorIndex, -, hrestored⟩ := Option.bind_eq_some_iff.mp hrestored
        obtain ⟨value, -, hrestored⟩ := Option.bind_eq_some_iff.mp hrestored
        cases hrestored
      · simp [hmarked]
  | other value => exact iff_of_true rfl rfl

theorem mapM_restore_iff {flatTensors : List Tensor} {values masked : List (Leaf Tensor Other)}
    (h : List.Forall₂ (Masks flatTensors) values masked) :
    masked.mapM (restore flatTensors) = some values ↔
      ∀ value ∈ values, isMaskedTensor value = false := by
  induction h with
  | nil => simp
  | @cons value masked values rest hvalue _ ih =>
      rw [List.mapM_cons, List.forall_mem_cons, ← hvalue.restore_iff, ← ih]
      constructor
      · intro hmapM
        obtain ⟨restored, hrestored, hmapM⟩ := Option.bind_eq_some_iff.mp hmapM
        obtain ⟨others, hothers, hmapM⟩ := Option.bind_eq_some_iff.mp hmapM
        cases hmapM
        exact ⟨hrestored, hothers⟩
      · rintro ⟨hrestored, hothers⟩
        rw [hrestored, hothers]
        rfl

private theorem length_mapM {f : Leaf Tensor Other → Option (Leaf Tensor Other)}
    {leaves values : List (Leaf Tensor Other)} (h : leaves.mapM f = some values) :
    values.length = leaves.length := by
  induction leaves generalizing values with
  | nil =>
      cases h
      rfl
  | cons leaf rest ih =>
      rw [List.mapM_cons] at h
      obtain ⟨value, -, h⟩ := Option.bind_eq_some_iff.mp h
      obtain ⟨others, hothers, h⟩ := Option.bind_eq_some_iff.mp h
      cases h
      rw [List.length_cons, List.length_cons, ih hothers]

section masking
variable [DecidableEq Tensor]

structure Masking.Consistent (masking : Masking Tensor Other)
    (processed : List (Leaf Tensor Other)) : Prop where
  tensors : masking.flatTensors = (tensorsOf processed).eraseDups
  indices : ∀ value index,
    masking.tensorToIndex.get? value = some index ↔ masking.flatTensors[index]? = some value
  masked : List.Forall₂ (Masks masking.flatTensors) processed masking.maskedFlatValues

private theorem eraseDups_concat (values : List Tensor) (value : Tensor) :
    (values ++ [value]).eraseDups =
      if value ∈ values then values.eraseDups else values.eraseDups ++ [value] := by
  rw [List.eraseDups_append]
  by_cases hmem : value ∈ values <;> simp [List.removeAll, hmem, List.eraseDups_cons]

private theorem getElem?_concat_iff {values : List Tensor} {value other : Tensor} {index : Nat}
    (hnew : value ∉ values) :
    (values ++ [value])[index]? = some other ↔
      (if other = value then some values.length = some index else values[index]? = some other) := by
  rcases lt_trichotomy index values.length with hlt | rfl | hgt
  · rw [List.getElem?_append_left hlt]
    split
    · rename_i hother
      refine iff_of_false (fun h => hnew (hother ▸ List.mem_of_getElem? h)) ?_
      simp only [Option.some.injEq]
      omega
    · rfl
  · simp [eq_comm]
  · have hnone : values[index]? = none := List.getElem?_eq_none hgt.le
    have hout : (values ++ [value])[index]? = none :=
      List.getElem?_eq_none (by simp only [List.length_append, List.length_singleton]; omega)
    rw [hnone, hout]
    split
    · simp only [reduceCtorEq, Option.some.injEq, false_iff]
      omega
    · rfl

theorem Masking.Consistent.mask {masking : Masking Tensor Other}
    {processed : List (Leaf Tensor Other)} (h : masking.Consistent processed)
    (value : Leaf Tensor Other) : (masking.mask value).Consistent (processed ++ [value]) := by
  have hmember (value : Tensor) : value ∈ masking.flatTensors ↔ value ∈ tensorsOf processed := by
    rw [h.tensors, List.mem_eraseDups]
  have hothers {value : Leaf Tensor Other} (htensor : tensorsOf [value] = [])
      (hmasked : Masks masking.flatTensors value value) :
      ({ masking with maskedFlatValues := masking.maskedFlatValues ++ [value] } :
        Masking Tensor Other).Consistent (processed ++ [value]) := by
    refine ⟨?_, h.indices, List.rel_append h.masked (.cons hmasked .nil)⟩
    unfold tensorsOf at htensor ⊢
    rw [List.filterMap_append, htensor, List.append_nil]
    exact h.tensors
  cases value with
  | bytes item => exact hothers rfl (.bytes item)
  | other value => exact hothers rfl (.other value)
  | tensor value =>
      have htensors : tensorsOf (processed ++ [.tensor value]) = tensorsOf processed ++ [value] :=
        List.filterMap_append
      cases hget : masking.tensorToIndex.get? value with
      | some index =>
          have hindex := (h.indices value index).mp hget
          have hlt := (List.getElem?_eq_some_iff.mp hindex).1
          have hold : value ∈ tensorsOf processed := (hmember value).mp (List.mem_of_getElem? hindex)
          have hmask : masking.mask (.tensor value) =
              { masking with maskedFlatValues := masking.maskedFlatValues ++
                [.bytes (markMaskedTensor index)] } := by
            simp only [Masking.mask, hget, Option.getD_some, if_neg hlt.ne]
          rw [hmask]
          refine ⟨?_, h.indices, List.rel_append h.masked (.cons (.tensor hindex) .nil)⟩
          rw [htensors, eraseDups_concat, if_pos hold]
          exact h.tensors
      | none =>
          have hnew : value ∉ masking.flatTensors := by
            intro hmem
            obtain ⟨index, hindex⟩ := List.getElem?_of_mem hmem
            rw [(h.indices value index).mpr hindex] at hget
            cases hget
          have hmask : masking.mask (.tensor value) =
              { maskedFlatValues := masking.maskedFlatValues ++
                  [.bytes (markMaskedTensor masking.flatTensors.length)]
                flatTensors := masking.flatTensors ++ [value]
                tensorToIndex :=
                  masking.tensorToIndex.insert value masking.flatTensors.length } := by
            simp only [Masking.mask, hget, Option.getD_none, if_true]
          rw [hmask]
          refine ⟨?_, fun other index => ?_, ?_⟩
          · rw [htensors, eraseDups_concat, if_neg (mt (hmember value).mpr hnew), h.tensors]
          · rw [Dict.get?_insert, getElem?_concat_iff hnew]
            split
            · rfl
            · exact h.indices other index
          · have hmasked := h.masked.imp fun _ _ hmasks => hmasks.append [value]
            exact List.rel_append hmasked (.cons (.tensor List.getElem?_concat_length) .nil)

theorem Masking.consistent (leaves : List (Leaf Tensor Other)) :
    (leaves.foldl Masking.mask {}).Consistent leaves := by
  induction leaves using List.reverseRecOn with
  | nil => exact ⟨rfl, by simp, .nil⟩
  | append_singleton leaves leaf ih =>
      rw [List.foldl_append]
      exact ih.mask leaf

variable (codec : NestedCodec (Leaf Tensor Other)) (args : List (Nested (Leaf Tensor Other)))
  (kwargs : List (String × Nested (Leaf Tensor Other)))

theorem exists_packArgsKwargs :
    ∃ flatTensors argsStructure,
      packArgsKwargs codec args kwargs = some (flatTensors, argsStructure) ∧
      flatTensors = (tensorsOf (codec.flatten (argsKwargs args kwargs))).eraseDups ∧
      argsStructure.shape = (argsKwargs args kwargs).shape ∧
      List.Forall₂ (Masks flatTensors) (codec.flatten (argsKwargs args kwargs))
        (codec.flatten argsStructure) := by
  have hconsistent := Masking.consistent (codec.flatten (argsKwargs args kwargs))
  obtain ⟨argsStructure, hpacked, hshape, hflat⟩ :=
    codec.exists_pack _ (argsKwargs args kwargs) hconsistent.masked.length_eq.symm
  refine ⟨_, argsStructure, ?_, hconsistent.tensors, hshape, hflat ▸ hconsistent.masked⟩
  unfold packArgsKwargs
  dsimp only
  rw [hpacked]
  rfl

/-- The marks of the tensors share the byte strings with the other leaves. Unpacking restores the
arguments, from each tensor once in the order of first occurrence, exactly when no leaf looks like
a mark. -/
theorem unpackArgsKwargs_packArgsKwargs_iff :
    (∃ flatTensors argsStructure,
      packArgsKwargs codec args kwargs = some (flatTensors, argsStructure) ∧
      unpackArgsKwargs codec flatTensors argsStructure = some (argsKwargs args kwargs) ∧
      flatTensors = (tensorsOf (codec.flatten (argsKwargs args kwargs))).eraseDups) ↔
    ∀ leaf ∈ codec.flatten (argsKwargs args kwargs), isMaskedTensor leaf = false := by
  obtain ⟨flatTensors, argsStructure, hpack, htensors, hshape, hmasked⟩ :=
    exists_packArgsKwargs codec args kwargs
  rw [← mapM_restore_iff hmasked]
  constructor
  · rintro ⟨otherTensors, otherStructure, hother, hunpack, -⟩
    obtain ⟨rfl, rfl⟩ := Prod.mk.inj (Option.some.inj (hother.symm.trans hpack))
    obtain ⟨values, hvalues, hrepacked⟩ := Option.bind_eq_some_iff.mp hunpack
    -- packing keeps the restored leaves, so these are the leaves of the arguments
    have hlength : values.length = (codec.flatten otherStructure).length :=
      length_mapM hvalues
    obtain ⟨restored, hrestored, -, hflat⟩ := codec.exists_pack values otherStructure hlength
    obtain rfl := Option.some.inj (hrestored.symm.trans hrepacked)
    rw [hflat, hvalues]
  · intro hvalues
    refine ⟨flatTensors, argsStructure, hpack, ?_, htensors⟩
    unfold unpackArgsKwargs
    rw [hvalues]
    exact codec.pack_flatten _ _ hshape.symm

end masking

/-! A byte string that looks like the mark of the first tensor is replaced by this tensor. -/

private def markedArgs : List (Nested (Leaf Nat Unit)) :=
  [.leaf (.tensor 7), .leaf (.bytes (markMaskedTensor 0))]

theorem unpackArgsKwargs_marked :
    ¬ ∀ (args : List (Nested (Leaf Nat Unit))) (kwargs : List (String × Nested (Leaf Nat Unit))),
      ∃ flatTensors argsStructure,
        packArgsKwargs (.inOrder _) args kwargs = some (flatTensors, argsStructure) ∧
        unpackArgsKwargs (.inOrder _) flatTensors argsStructure = some (argsKwargs args kwargs) ∧
        flatTensors =
          (tensorsOf (Nested.flatten (argsKwargs args kwargs))).eraseDups := by
  intro hclaim
  obtain ⟨flatTensors, argsStructure, hpack, hunpack, -⟩ := hclaim markedArgs []
  have hpacked : packArgsKwargs (.inOrder _) markedArgs [] = some ([7], argsKwargs
      [.leaf (.bytes (markMaskedTensor 0)), .leaf (.bytes (markMaskedTensor 0))] []) := by rfl
  obtain ⟨rfl, rfl⟩ := Prod.mk.inj (Option.some.inj (hpacked.symm.trans hpack))
  have hrestored : unpackArgsKwargs (.inOrder (Leaf Nat Unit)) [7] (argsKwargs
      [.leaf (.bytes (markMaskedTensor 0)), .leaf (.bytes (markMaskedTensor 0))] []) =
        some (argsKwargs [.leaf (.tensor 7), .leaf (.tensor 7)] []) := by rfl
  rw [hrestored] at hunpack
  simp [argsKwargs, markedArgs] at hunpack

end Peerz.Utils.Packaging
