import Peerz.Validator.Health

/-! The data a validator signs. -/
namespace Peerz.Utils.Signature
open Validator

variable {PeerID : Type}

structure SigningData where
  peerIds : List String
  contributions : List Int
  total : Int

/-- `solidityKeccak` is the hash of a peer id's text, as a hexadecimal string. -/
def prepareDataForSigning (solidityKeccak : PeerID → String) (state : List (HealthEntry PeerID)) :
    SigningData :=
  let contributions := state.map fun item => (item.throughput : Int) * item.layers
  { peerIds := state.map fun item => solidityKeccak item.peerId
    contributions := contributions
    total := ((List.range contributions.length).map fun i => contributions.getD i 0).sum }

theorem prepareDataForSigning_total (solidityKeccak : PeerID → String)
    (state : List (HealthEntry PeerID)) :
    (prepareDataForSigning solidityKeccak state).total =
      (prepareDataForSigning solidityKeccak state).contributions.sum := by
  unfold prepareDataForSigning
  dsimp only
  congr 1
  apply List.ext_getElem
  · rw [List.length_map, List.length_range]
  · intro i hleft hright
    rw [List.getElem_map, List.getElem_range, List.getD_eq_getElem _ _ hright]

end Peerz.Utils.Signature
