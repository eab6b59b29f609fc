import Mathlib.Data.List.ModifyLast
import Peerz.DataStructures
import Peerz.Library.Tiling

/-! Routes over a range of blocks, of which the last span may go past its end. -/
namespace Peerz.Client
open Library

variable {PeerID : Type}

def truncateLast (spans : List (RemoteSpanInfo PeerID)) (updateEnd : Int) :
    List (RemoteSpanInfo PeerID) :=
  spans.modifyLast fun span => { span with stop := min span.stop updateEnd }

/-- The spans lead from one block to another one, and only the last one goes past it. -/
def Covers (spans : List (RemoteSpanInfo PeerID)) (first last : Int) : Prop :=
  ∃ front final, spans = front ++ [final] ∧
    Tiles RemoteSpanInfo.start RemoteSpanInfo.stop first front final.start ∧
    final.start < last ∧ last ≤ final.stop

theorem truncateLast_tiles {spans : List (RemoteSpanInfo PeerID)} {first last : Int}
    (h : Covers spans first last) :
    Tiles RemoteSpanInfo.start RemoteSpanInfo.stop first (truncateLast spans last) last := by
  obtain ⟨front, final, rfl, htiles, hlt, hle⟩ := h
  unfold truncateLast
  rw [List.modifyLast_concat, tiles_concat]
  exact ⟨htiles, by dsimp only; omega, by dsimp only; omega⟩

end Peerz.Client
