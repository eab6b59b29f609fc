import Mathlib.Algebra.BigOperators.Fin
import Mathlib.Algebra.Field.Defs

/-! The linear layers of a model. -/
namespace Peerz.Models

inductive Device where
  | cpu
  | cuda
deriving DecidableEq

/-- `nn.Linear`. -/
structure Linear (F : Type) (inFeatures outFeatures : Nat) where
  weight : Fin outFeatures → Fin inFeatures → F
  bias : Fin outFeatures → F

variable {F : Type} [Field F] {inFeatures outFeatures : Nat}

/-- `F.linear`. -/
def linear (weight : Fin outFeatures → Fin inFeatures → F) (input : Fin inFeatures → F) :
    Fin outFeatures → F :=
  fun row => ∑ column, input column * weight row column

def Linear.forward (layer : Linear F inFeatures outFeatures) (input : Fin inFeatures → F) :
    Fin outFeatures → F :=
  fun row => linear layer.weight input row + layer.bias row

end Peerz.Models
