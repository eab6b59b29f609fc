import Mathlib.Analysis.Calculus.FDeriv.Add
import Mathlib.Analysis.Calculus.FDeriv.Comp
import Mathlib.Analysis.InnerProductSpace.Basic

/-! Reverse-mode differentiation of a chain of layers, each of which shifts its input by a function
of the parameters before it maps it. One sweep from the last layer to the first gives the
gradients of the inputs, and from those the gradient of the parameters. -/
namespace Peerz.Library
open scoped InnerProductSpace

section product
variable {Input Output : Type*} [NormedAddCommGroup Input] [InnerProductSpace ℝ Input]
  [NormedAddCommGroup Output] [InnerProductSpace ℝ Output]

/-- The vector-Jacobian product: the gradient of `⟪grad, f x⟫` at `x`. -/
def HasVjpAt (f : Input → Output) (grad : Output) (product x : Input) : Prop :=
  ∃ derivative : Input →L[ℝ] Output, HasFDerivAt f derivative x ∧
    ∀ direction, ⟪product, direction⟫_ℝ = ⟪grad, derivative direction⟫_ℝ

/-- A linear map has its transpose as the vector-Jacobian product. -/
theorem hasVjpAt_linear (f : Input →L[ℝ] Output) {grad : Output} {product : Input}
    (h : ∀ direction, ⟪product, direction⟫_ℝ = ⟪grad, f direction⟫_ℝ) (x : Input) :
    HasVjpAt f grad product x :=
  ⟨f, f.hasFDerivAt, h⟩

end product

structure Layer (Parameters Hidden : Type*) where
  shift : Parameters → Hidden
  map : Hidden → Hidden
  /-- the vector-Jacobian products of the shift, and of the map at an input -/
  pullShift : Parameters → Hidden → Parameters
  pullMap : Hidden → Hidden → Hidden

section chain
variable {Parameters Hidden : Type*}

def runLayers [Add Hidden] : List (Layer Parameters Hidden) → Parameters → Hidden → Hidden
  | [], _, x => x
  | layer :: rest, parameters, x =>
      runLayers rest parameters (layer.map (x + layer.shift parameters))

/-- The reverse sweep: the gradients of the shifted inputs of the layers, the first one first. -/
def layerGradients [Add Hidden] :
    List (Layer Parameters Hidden) → Parameters → Hidden → Hidden → List Hidden
  | [], _, _, _ => []
  | layer :: rest, parameters, x, grad =>
      let input := x + layer.shift parameters
      let later := layerGradients rest parameters (layer.map input) grad
      layer.pullMap input (later.headD grad) :: later

def parameterGradient [Add Hidden] [AddMonoid Parameters] (layers : List (Layer Parameters Hidden))
    (parameters : Parameters) (x grad : Hidden) : Parameters :=
  (List.zipWith (fun layer => layer.pullShift parameters) layers
    (layerGradients layers parameters x grad)).sum

theorem length_layerGradients [Add Hidden] (layers : List (Layer Parameters Hidden))
    (parameters : Parameters) (x grad : Hidden) :
    (layerGradients layers parameters x grad).length = layers.length := by
  induction layers generalizing x with
  | nil => rfl
  | cons layer rest ih => rw [layerGradients, List.length_cons, List.length_cons, ih]

variable [NormedAddCommGroup Hidden] [InnerProductSpace ℝ Hidden]
  [NormedAddCommGroup Parameters] [InnerProductSpace ℝ Parameters]

/-- The layers are given with their vector-Jacobian products, at the inputs that they meet. -/
def Differentiates : List (Layer Parameters Hidden) → Parameters → Hidden → Prop
  | [], _, _ => True
  | layer :: rest, parameters, x =>
      (∀ grad, HasVjpAt layer.shift grad (layer.pullShift parameters grad) parameters) ∧
      (∀ grad, HasVjpAt layer.map grad (layer.pullMap (x + layer.shift parameters) grad)
        (x + layer.shift parameters)) ∧
      Differentiates rest parameters (layer.map (x + layer.shift parameters))

/-- The derivative of the chain, for inputs and parameters that depend on one variable, is paired
with the gradient of the outputs as those of the inputs and of the parameters are with the
gradients of the sweep. -/
theorem runLayers_hasFDerivAt {Variable : Type*} [NormedAddCommGroup Variable]
    [NormedSpace ℝ Variable] {layers : List (Layer Parameters Hidden)}
    {inputs : Variable → Hidden} {parameters : Variable → Parameters} {v : Variable}
    {inputs' : Variable →L[ℝ] Hidden} {parameters' : Variable →L[ℝ] Parameters}
    (hinputs : HasFDerivAt inputs inputs' v) (hparameters : HasFDerivAt parameters parameters' v)
    (h : Differentiates layers (parameters v) (inputs v)) (grad : Hidden) :
    ∃ derivative : Variable →L[ℝ] Hidden,
      HasFDerivAt (fun v => runLayers layers (parameters v) (inputs v)) derivative v ∧
      ∀ direction, ⟪grad, derivative direction⟫_ℝ =
        ⟪(layerGradients layers (parameters v) (inputs v) grad).headD grad,
          inputs' direction⟫_ℝ +
        ⟪parameterGradient layers (parameters v) (inputs v) grad, parameters' direction⟫_ℝ := by
  induction layers generalizing inputs inputs' with
  | nil =>
      refine ⟨inputs', hinputs, fun direction => ?_⟩
      rw [parameterGradient, List.zipWith_nil_left, List.sum_nil, inner_zero_left, add_zero]
      rfl
  | cons layer rest ih =>
      obtain ⟨hshift, hmap, hrest⟩ := h
      set input := inputs v + layer.shift (parameters v)
      set later := layerGradients rest (parameters v) (layer.map input) grad
      obtain ⟨shift', hshift', hpullShift⟩ := hshift (layer.pullMap input (later.headD grad))
      obtain ⟨map', hmap', hpullMap⟩ := hmap (later.headD grad)
      have hshifted : HasFDerivAt (fun v => layer.map (inputs v + layer.shift (parameters v)))
          (map' ∘L (inputs' + shift' ∘L parameters')) v :=
        hmap'.comp v (hinputs.add (hshift'.comp v hparameters))
      obtain ⟨derivative, hderivative, hpairing⟩ := ih hshifted hrest
      refine ⟨derivative, hderivative, fun direction => ?_⟩
      calc ⟪grad, derivative direction⟫_ℝ
          = ⟪later.headD grad, map' (inputs' direction + shift' (parameters' direction))⟫_ℝ +
              ⟪parameterGradient rest (parameters v) (layer.map input) grad,
                parameters' direction⟫_ℝ := hpairing direction
        _ = ⟪layer.pullMap input (later.headD grad),
                inputs' direction + shift' (parameters' direction)⟫_ℝ +
              ⟪parameterGradient rest (parameters v) (layer.map input) grad,
                parameters' direction⟫_ℝ := by rw [hpullMap]
        _ = ⟪layer.pullMap input (later.headD grad), inputs' direction⟫_ℝ +
              ⟪layer.pullShift (parameters v) (layer.pullMap input (later.headD grad)) +
                parameterGradient rest (parameters v) (layer.map input) grad,
                parameters' direction⟫_ℝ := by
            rw [inner_add_right, inner_add_left, hpullShift, add_assoc]

variable {layers : List (Layer Parameters Hidden)} {parameters : Parameters} {x : Hidden}

/-- The sweep ends with the gradient of the inputs. -/
theorem hasVjpAt_inputs (h : Differentiates layers parameters x) (grad : Hidden) :
    HasVjpAt (runLayers layers parameters) grad
      ((layerGradients layers parameters x grad).headD grad) x := by
  obtain ⟨derivative, hderivative, hpairing⟩ :=
    runLayers_hasFDerivAt (hasFDerivAt_id x) (hasFDerivAt_const parameters x) h grad
  refine ⟨derivative, hderivative, fun direction => ?_⟩
  rw [hpairing, zero_apply, inner_zero_right, add_zero]
  rfl

theorem hasVjpAt_parameters (h : Differentiates layers parameters x) (grad : Hidden) :
    HasVjpAt (fun parameters => runLayers layers parameters x) grad
      (parameterGradient layers parameters x grad) parameters := by
  obtain ⟨derivative, hderivative, hpairing⟩ :=
    runLayers_hasFDerivAt (hasFDerivAt_const x parameters) (hasFDerivAt_id parameters) h grad
  refine ⟨derivative, hderivative, fun direction => ?_⟩
  rw [hpairing, zero_apply, inner_zero_right, zero_add]
  rfl

end chain

end Peerz.Library
