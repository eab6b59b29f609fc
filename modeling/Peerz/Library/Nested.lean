import Mathlib.Data.List.Basic

/-! Values nested from lists, tuples and dictionaries. Flattening lists the leaves in order, and
packing puts other leaves into the same structure. -/
namespace Peerz.Library

/-- A dictionary has an item for each of its keys, in the order of the keys: the order in which
its entries were added is no part of the value. -/
inductive Container where
  | list
  | tuple
  | dict (keys : List String)
deriving DecidableEq

inductive Nested (α : Type) where
  | leaf (value : α)
  | node (container : Container) (items : List (Nested α))

namespace Nested
variable {α β : Type}

mutual

def shape : Nested α → Nested Unit
  | leaf _ => leaf ()
  | node container items => node container (shapes items)

def shapes : List (Nested α) → List (Nested Unit)
  | [] => []
  | item :: rest => shape item :: shapes rest

end

mutual

def flatten : Nested α → List α
  | leaf value => [value]
  | node _ items => flattenItems items

def flattenItems : List (Nested α) → List α
  | [] => []
  | item :: rest => flatten item ++ flattenItems rest

end

mutual

/-- The leaves that a structure takes from the front of a list, and the rest of it; `none` if
there are too few. -/
def packFrom : Nested α → List β → Option (Nested β × List β)
  | leaf _, [] => none
  | leaf _, value :: rest => some (leaf value, rest)
  | node container items, flat =>
      (packItems items flat).map fun packed => (node container packed.1, packed.2)

def packItems : List (Nested α) → List β → Option (List (Nested β) × List β)
  | [], flat => some ([], flat)
  | item :: rest, flat =>
      (packFrom item flat).bind fun packed =>
        (packItems rest packed.2).map fun others => (packed.1 :: others.1, others.2)

end

def pack (flat : List β) (value : Nested α) : Option (Nested β) :=
  (packFrom value flat).map Prod.fst

mutual

theorem length_flatten_shape : ∀ value : Nested α,
    value.shape.flatten.length = value.flatten.length
  | leaf _ => rfl
  | node _ items => length_flattenItems_shapes items

theorem length_flattenItems_shapes : ∀ items : List (Nested α),
    (flattenItems (shapes items)).length = (flattenItems items).length
  | [] => rfl
  | item :: rest => by
      simp only [shapes, flattenItems, List.length_append, length_flatten_shape item,
        length_flattenItems_shapes rest]

end

mutual

theorem packFrom_flatten : ∀ (value : Nested α) (other : Nested β) (rest : List α),
    value.shape = other.shape → packFrom other (value.flatten ++ rest) = some (value, rest)
  | leaf value, leaf _, rest, _ => by simp [flatten, packFrom]
  | leaf _, node _ _, _, h => by simp [shape] at h
  | node _ _, leaf _, _, h => by simp [shape] at h
  | node container items, node container' items', rest, h => by
      simp only [shape, node.injEq] at h
      have hitems := packItems_flatten items items' rest h.2
      simp only [flatten, packFrom, hitems, Option.map_some, h.1]

theorem packItems_flatten : ∀ (items : List (Nested α)) (others : List (Nested β)) (rest : List α),
    shapes items = shapes others →
      packItems others (flattenItems items ++ rest) = some (items, rest)
  | [], [], rest, _ => by simp [flattenItems, packItems]
  | [], _ :: _, _, h => by simp [shapes] at h
  | _ :: _, [], _, h => by simp [shapes] at h
  | item :: items, other :: others, rest, h => by
      simp only [shapes, List.cons.injEq] at h
      have hitem := packFrom_flatten item other (flattenItems items ++ rest) h.1
      have hitems := packItems_flatten items others rest h.2
      simp only [flattenItems, List.append_assoc, packItems, hitem, hitems, Option.bind_some,
        Option.map_some]

end

mutual

theorem exists_packFrom : ∀ (other : Nested α) (flat : List β),
    other.flatten.length ≤ flat.length → ∃ value rest, packFrom other flat = some (value, rest) ∧
      value.shape = other.shape ∧ value.flatten ++ rest = flat
  | leaf _, [], h => by simp [flatten] at h
  | leaf _, value :: rest, _ => ⟨leaf value, rest, rfl, rfl, rfl⟩
  | node container items, flat, h => by
      obtain ⟨packed, rest, hpacked, hshapes, hflat⟩ := exists_packItems items flat h
      refine ⟨node container packed, rest, ?_, ?_, hflat⟩
      · rw [packFrom, hpacked]
        rfl
      · rw [shape, shape, hshapes]

theorem exists_packItems : ∀ (others : List (Nested α)) (flat : List β),
    (flattenItems others).length ≤ flat.length →
      ∃ items rest, packItems others flat = some (items, rest) ∧
        shapes items = shapes others ∧ flattenItems items ++ rest = flat
  | [], flat, _ => ⟨[], flat, rfl, rfl, rfl⟩
  | other :: others, flat, h => by
      simp only [flattenItems, List.length_append] at h
      obtain ⟨item, rest, hitem, hshape, hflat⟩ := exists_packFrom other flat (by omega)
      have hlength : other.flatten.length = item.flatten.length := by
        rw [← length_flatten_shape, ← hshape, length_flatten_shape]
      obtain ⟨items, rest', hitems, hshapes, hflat'⟩ := exists_packItems others rest (by
        have := congrArg List.length hflat
        rw [List.length_append] at this
        omega)
      refine ⟨item :: items, rest', ?_, ?_, ?_⟩
      · simp only [packItems, hitem, hitems, Option.bind_some, Option.map_some]
      · simp only [shapes, hshape, hshapes]
      · simp only [flattenItems, List.append_assoc, hflat', hflat]

end

end Nested

/-- A pair of functions that are inverse to each other on each shape. -/
structure NestedCodec (α : Type) where
  flatten : Nested α → List α
  pack : List α → Nested α → Option (Nested α)
  pack_flatten : ∀ value other, value.shape = other.shape →
    pack (flatten value) other = some value
  exists_pack : ∀ flat other, flat.length = (flatten other).length →
    ∃ value, pack flat other = some value ∧ value.shape = other.shape ∧ flatten value = flat

def NestedCodec.inOrder (α : Type) : NestedCodec α where
  flatten := Nested.flatten
  pack := Nested.pack
  pack_flatten := by
    intro value other hshape
    have hpacked := Nested.packFrom_flatten value other [] hshape
    rw [List.append_nil] at hpacked
    rw [Nested.pack, hpacked]
    rfl
  exists_pack := by
    intro flat other hlength
    obtain ⟨value, rest, hpacked, hshape, hflat⟩ :=
      Nested.exists_packFrom other flat (Nat.le_of_eq hlength.symm)
    have hsame : value.flatten.length = other.flatten.length := by
      rw [← Nested.length_flatten_shape, hshape, Nested.length_flatten_shape]
    have hrest : rest = [] := by
      have hcount := congrArg List.length hflat
      rw [List.length_append] at hcount
      exact List.eq_nil_of_length_eq_zero (by omega)
    refine ⟨value, ?_, hshape, ?_⟩
    · rw [Nested.pack, hpacked]
      rfl
    · rwa [hrest, List.append_nil] at hflat

end Peerz.Library
