import Mathlib.Analysis.InnerProductSpace.PiL2
import Mathlib.Data.List.FinRange
import Peerz.Library.ReverseMode
import Peerz.Server.BackwardChain

/-! Over the reals, `rpc_backward` is reverse-mode differentiation of the prompted blocks: its two
loops are the reverse sweep of the chain. The tokens are vectors, of the whole batch at one
position. -/
namespace Peerz.Server
open Library
open scoped InnerProductSpace

variable {Token : Type} [NormedAddCommGroup Token] [InnerProductSpace ℝ Token]

abbrev Sequence (Token : Type) (length : Nat) : Type := PiLp 2 fun _ : Fin length => Token

abbrev Prompts (Token : Type) {layers : Nat} (lengths : Fin layers → Nat) : Type :=
  PiLp 2 fun layer => Sequence Token (lengths layer)

def tokens {length : Nat} (x : Sequence Token length) : List Token := List.ofFn fun i => x i

def sequenceOf (length : Nat) (xs : List Token) : Sequence Token length :=
  WithLp.toLp 2 fun i => xs.getD i 0

def promptLists {layers : Nat} {lengths : Fin layers → Nat} (prompts : Prompts Token lengths) :
    List (List Token) :=
  List.ofFn fun layer => tokens (prompts layer)

omit [NormedAddCommGroup Token] [InnerProductSpace ℝ Token] in
@[simp] theorem length_tokens {length : Nat} (x : Sequence Token length) :
    (tokens x).length = length :=
  List.length_ofFn

omit [NormedAddCommGroup Token] [InnerProductSpace ℝ Token] in
theorem getElem_tokens {length : Nat} (x : Sequence Token length) {i : Nat}
    (h : i < (tokens x).length) : (tokens x)[i] = x ⟨i, length_tokens x ▸ h⟩ :=
  List.getElem_ofFn h

omit [InnerProductSpace ℝ Token] in
theorem tokens_sequenceOf {length : Nat} {xs : List Token} (h : xs.length = length) :
    tokens (sequenceOf length xs) = xs := by
  subst h
  refine List.ext_getElem (length_tokens _) fun i hleft hright => ?_
  rw [getElem_tokens]
  exact (List.getElem_eq_getD (0 : Token)).symm

/-- A prompt with zeros after it; a longer sequence is cut. -/
noncomputable def pad {length : Nat} (other : Nat) :
    Sequence Token length →L[ℝ] Sequence Token other :=
  (PiLp.continuousLinearEquiv 2 ℝ fun _ : Fin other => Token).symm.toContinuousLinearMap ∘L
    ContinuousLinearMap.pi fun i =>
      if h : i.1 < length then PiLp.proj 2 (fun _ : Fin length => Token) ⟨i, h⟩ else 0

theorem pad_apply {length other : Nat} (x : Sequence Token length) (i : Fin other) :
    pad other x i = if h : i.1 < length then x ⟨i, h⟩ else 0 := by
  change (if h : i.1 < length then PiLp.proj 2 (fun _ : Fin length => Token) ⟨i, h⟩
    else (0 : Sequence Token length →L[ℝ] Token)) x = _
  split
  · rfl
  · rfl

theorem tokens_pad {length other : Nat} (h : other ≤ length) (x : Sequence Token length) :
    tokens (pad other x) = (tokens x).take other := by
  refine List.ext_getElem (by simp [h]) fun i hleft hright => ?_
  rw [length_tokens] at hleft
  rw [List.getElem_take, getElem_tokens, getElem_tokens, pad_apply, dif_pos (by omega)]

theorem addPrompt_tokens {length other : Nat} (h : length ≤ other) (prompt : Sequence Token length)
    (x : Sequence Token other) :
    addPrompt (tokens prompt) (tokens x) = tokens (x + pad other prompt) := by
  unfold addPrompt
  refine List.ext_getElem (by simp; omega) fun i hleft hright => ?_
  rw [length_tokens] at hright
  rw [getElem_tokens, PiLp.add_apply, pad_apply]
  by_cases hi : i < length
  · rw [dif_pos hi, List.getElem_append_left (by simp; omega), List.getElem_zipWith,
      List.getElem_take, getElem_tokens, getElem_tokens]
  · rw [dif_neg hi, add_zero, List.getElem_append_right (by simp; omega), List.getElem_drop,
      getElem_tokens]
    exact congrArg x.ofLp (Fin.ext (by simp; omega))

theorem inner_pad {length other : Nat} (h : length ≤ other) (x : Sequence Token other)
    (prompt : Sequence Token length) : ⟪pad length x, prompt⟫_ℝ = ⟪x, pad other prompt⟫_ℝ := by
  let product (i : Nat) : ℝ := if h : i < length then ⟪x ⟨i, by omega⟩, prompt ⟨i, h⟩⟫_ℝ else 0
  have hwithin (i : Nat) (hi : i < length) :
      product i = ⟪x ⟨i, by omega⟩, prompt ⟨i, hi⟩⟫_ℝ := dif_pos hi
  have hbeyond (i : Nat) (hi : ¬ i < length) : product i = 0 := dif_neg hi
  have hleft : ⟪pad length x, prompt⟫_ℝ = ∑ i : Fin length, product i := by
    rw [PiLp.inner_apply]
    refine Finset.sum_congr rfl fun i _ => ?_
    rw [pad_apply, dif_pos (by omega), hwithin i i.isLt]
  have hright : ⟪x, pad other prompt⟫_ℝ = ∑ i : Fin other, product i := by
    rw [PiLp.inner_apply]
    refine Finset.sum_congr rfl fun i _ => ?_
    rw [pad_apply]
    by_cases hi : i.1 < length
    · rw [dif_pos hi, hwithin i hi]
    · rw [dif_neg hi, inner_zero_right, hbeyond i hi]
  rw [hleft, hright, Fin.sum_univ_eq_sum_range product, Fin.sum_univ_eq_sum_range product]
  refine Finset.sum_subset (Finset.range_subset_range.mpr h) fun i _ hi => ?_
  exact hbeyond i fun hlt => hi (Finset.mem_range.mpr hlt)

/-! The blocks as maps of sequences of one length. -/

section block
variable {length : Nat} (backend : TransformerBackend Token)

def TransformerBackend.map (x : Sequence Token length) : Sequence Token length :=
  sequenceOf length (backend.forward (tokens x))

def TransformerBackend.pull (x grad : Sequence Token length) : Sequence Token length :=
  sequenceOf length (backend.backward (tokens x) (tokens grad))

/-- The backward pass gives the vector-Jacobian products of the forward pass at the inputs. -/
def TransformerBackend.HasVjp (x : Sequence Token length) : Prop :=
  ∀ grad, HasVjpAt backend.map grad (backend.pull x grad) x

omit [InnerProductSpace ℝ Token] in
theorem tokens_map (x : Sequence Token length) :
    tokens (backend.map x) = backend.forward (tokens x) :=
  tokens_sequenceOf (by rw [backend.length_forward, length_tokens])

omit [InnerProductSpace ℝ Token] in
theorem tokens_pull (x grad : Sequence Token length) :
    tokens (backend.pull x grad) = backend.backward (tokens x) (tokens grad) :=
  tokens_sequenceOf (by rw [backend.length_backward, length_tokens])

end block

section chain
variable (backends : List (TransformerBackend Token)) {length : Nat}
  {lengths : Fin backends.length → Nat}

noncomputable def chainStep (prompts : Prompts Token lengths) (x : Sequence Token length)
    (i : Fin backends.length) : Sequence Token length :=
  (backends.get i).map (x + pad length (prompts i))

noncomputable def chainInputs (inputs : Sequence Token length) (prompts : Prompts Token lengths)
    (i : Nat) : Sequence Token length :=
  ((List.finRange backends.length).take i).foldl (chainStep backends prompts) inputs

noncomputable def promptedChain (inputs : Sequence Token length)
    (prompts : Prompts Token lengths) : Sequence Token length :=
  (List.finRange backends.length).foldl (chainStep backends prompts) inputs

noncomputable def promptedLayer (i : Fin backends.length) :
    Layer (Prompts Token lengths) (Sequence Token length) where
  shift prompts := pad length (prompts i)
  map := (backends.get i).map
  pullShift _ grad := PiLp.single 2 i (pad (lengths i) grad)
  pullMap := (backends.get i).pull

variable {backends}

theorem runLayers_promptedLayer (order : List (Fin backends.length))
    (prompts : Prompts Token lengths) (x : Sequence Token length) :
    runLayers (order.map (promptedLayer backends)) prompts x =
      order.foldl (chainStep backends prompts) x := by
  induction order generalizing x with
  | nil => rfl
  | cons i rest ih => exact ih _

theorem hasVjpAt_shift {i : Fin backends.length} (h : lengths i ≤ length)
    (prompts : Prompts Token lengths) (grad : Sequence Token length) :
    HasVjpAt (promptedLayer backends i).shift grad
      ((promptedLayer backends i).pullShift prompts grad) prompts := by
  refine hasVjpAt_linear
    (pad length ∘L PiLp.proj 2 (fun layer => Sequence Token (lengths layer)) i)
    (fun direction => ?_) prompts
  change ⟪PiLp.single 2 i (pad (lengths i) grad), direction⟫_ℝ = ⟪grad, pad length (direction i)⟫_ℝ
  rw [← inner_pad h, PiLp.inner_apply, Finset.sum_eq_single i]
  · rw [PiLp.single_eq_same]
  · intro other _ hother
    rw [PiLp.single_eq_of_ne _ hother, inner_zero_left]
  · exact fun hi => absurd (Finset.mem_univ i) hi

theorem differentiates_promptedLayer {order : List (Fin backends.length)}
    (hlengths : ∀ i, lengths i ≤ length) {prompts : Prompts Token lengths}
    {x : Sequence Token length}
    (h : ∀ done i rest, order = done ++ i :: rest → (backends.get i).HasVjp
      (done.foldl (chainStep backends prompts) x + pad length (prompts i))) :
    Differentiates (order.map (promptedLayer backends)) prompts x := by
  induction order generalizing x with
  | nil => trivial
  | cons i rest ih =>
      refine ⟨hasVjpAt_shift (hlengths i) prompts, h [] i rest rfl, ih ?_⟩
      intro done j later hrest
      exact h (i :: done) j later (by rw [hrest, List.cons_append])

/-- The blocks are given with their vector-Jacobian products, at the inputs that they meet. -/
def ChainHasVjps (backends : List (TransformerBackend Token)) {lengths : Fin backends.length → Nat}
    (inputs : Sequence Token length) (prompts : Prompts Token lengths) : Prop :=
  ∀ i, (backends.get i).HasVjp (chainInputs backends inputs prompts i + pad length (prompts i))

theorem ChainHasVjps.differentiates (hlengths : ∀ i, lengths i ≤ length)
    {inputs : Sequence Token length} {prompts : Prompts Token lengths}
    (h : ChainHasVjps backends inputs prompts) :
    Differentiates ((List.finRange backends.length).map (promptedLayer backends)) prompts
      inputs := by
  refine differentiates_promptedLayer hlengths fun done i rest horder => ?_
  have hdone : done.length = i.1 := by
    have hlookup := congrArg (·[done.length]?) horder
    rw [List.getElem?_append_right (Nat.le_refl _), Nat.sub_self,
      List.getElem?_cons_zero] at hlookup
    obtain ⟨hlt, hvalue⟩ := List.getElem?_eq_some_iff.mp hlookup
    rw [List.getElem_finRange] at hvalue
    exact congrArg Fin.val hvalue
  have hinputs := h i
  rwa [chainInputs, horder, ← hdone, List.take_left] at hinputs

theorem ChainHasVjps.hasVjpAt_promptedChain_inputs (hlengths : ∀ i, lengths i ≤ length)
    {inputs : Sequence Token length} {prompts : Prompts Token lengths}
    (h : ChainHasVjps backends inputs prompts) (gradOutputs : Sequence Token length) :
    HasVjpAt (fun inputs => promptedChain backends inputs prompts) gradOutputs
      ((layerGradients ((List.finRange backends.length).map (promptedLayer backends)) prompts inputs
        gradOutputs).headD gradOutputs) inputs := by
  have hinputs := hasVjpAt_inputs (h.differentiates hlengths) gradOutputs
  rwa [show runLayers _ prompts = _ from funext (runLayers_promptedLayer _ prompts)] at hinputs

theorem ChainHasVjps.hasVjpAt_promptedChain_prompts (hlengths : ∀ i, lengths i ≤ length)
    {inputs : Sequence Token length} {prompts : Prompts Token lengths}
    (h : ChainHasVjps backends inputs prompts) (gradOutputs : Sequence Token length) :
    HasVjpAt (fun prompts => promptedChain backends inputs prompts) gradOutputs
      (parameterGradient ((List.finRange backends.length).map (promptedLayer backends)) prompts
        inputs gradOutputs) prompts := by
  have hprompts := hasVjpAt_parameters (h.differentiates hlengths) gradOutputs
  simp only [runLayers_promptedLayer] at hprompts
  exact hprompts

theorem addPrompt?_tokens {other : Nat} (h : other ≤ length) (prompt : Sequence Token other)
    (x : Sequence Token length) :
    addPrompt? (tokens prompt) (tokens x) = some (tokens (x + pad length prompt)) := by
  rw [← addPrompt_tokens h]
  refine if_pos ?_
  rw [length_tokens, length_tokens]
  exact h.trans (Nat.le_max_left _ _)

/-- The sweep over the blocks, as `run_rpc_backward` computes it. -/
theorem backwardChain_order (hlengths : ∀ i, lengths i ≤ length) (prompts : Prompts Token lengths)
    (order : List (Fin backends.length)) (x grad : Sequence Token length) :
    backwardChain (order.map fun i => (backends.get i, tokens (prompts i))) (tokens x)
        (tokens grad) =
      some
        (tokens ((layerGradients (order.map (promptedLayer backends)) prompts x grad).headD grad),
          ((order.zip (layerGradients (order.map (promptedLayer backends)) prompts x grad)).filter
            fun block => lengths block.1 ≠ 0).map fun block =>
              tokens (pad (lengths block.1) block.2)) := by
  induction order generalizing x with
  | nil => rfl
  | cons i rest ih =>
      let prompted := x + pad length (prompts i)
      let later := layerGradients (rest.map (promptedLayer backends)) prompts
        ((backends.get i).map prompted) grad
      let gradInputs := (backends.get i).pull prompted (later.headD grad)
      have hgradients : layerGradients ((i :: rest).map (promptedLayer backends)) prompts x grad =
          gradInputs :: later := rfl
      have hfits : addPrompt? (tokens (prompts i)) (tokens x) = some (tokens prompted) :=
        addPrompt?_tokens (hlengths i) (prompts i) x
      have hlater := ih ((backends.get i).map prompted)
      have hdummy : tokens (prompts i) = [] ↔ lengths i = 0 := by
        rw [← List.length_eq_zero_iff, length_tokens]
      rw [hgradients, List.headD_cons, List.zip_cons_cons, List.filter_cons, List.map_cons,
        backwardChain, hfits]
      simp only [Option.bind_eq_bind, Option.bind_some, ← tokens_map, hlater, ← tokens_pull,
        length_tokens, hdummy, ← tokens_pad (hlengths i), decide_eq_true_eq]
      by_cases hzero : lengths i = 0
      · rw [if_pos hzero, if_neg (not_not.mpr hzero)]
        rfl
      · rw [if_neg hzero, if_pos hzero]
        rfl

theorem promptLists_parameterGradient (prompts : Prompts Token lengths)
    (x grad : Sequence Token length) :
    promptLists (parameterGradient ((List.finRange backends.length).map (promptedLayer backends))
        prompts x grad) =
      ((List.finRange backends.length).zip
        (layerGradients ((List.finRange backends.length).map (promptedLayer backends)) prompts
          x grad)).map fun block => tokens (pad (lengths block.1) block.2) := by
  unfold parameterGradient
  generalize hgradients :
    layerGradients ((List.finRange backends.length).map (promptedLayer backends)) prompts x grad =
      gradients
  have hlength : gradients.length = backends.length := by
    rw [← hgradients, length_layerGradients, List.length_map, List.length_finRange]
  have hlists : List.zipWith (fun layer => layer.pullShift prompts)
      ((List.finRange backends.length).map (promptedLayer backends)) gradients =
      List.ofFn fun i : Fin backends.length =>
        PiLp.single 2 i (pad (lengths i) (gradients.get (i.cast hlength.symm))) := by
    refine List.ext_getElem (by simp [hlength]) fun i hleft hright => ?_
    rw [List.getElem_zipWith, List.getElem_map, List.getElem_ofFn, List.getElem_finRange]
    rfl
  rw [hlists, List.sum_ofFn]
  unfold promptLists
  refine List.ext_getElem (by simp [hlength]) fun i hleft hright => ?_
  have hi : i < backends.length := by simpa using hleft
  rw [List.getElem_map, List.getElem_zip, List.getElem_finRange]
  have hcomponent : (∑ j : Fin backends.length,
      PiLp.single 2 j (pad (lengths j) (gradients.get (j.cast hlength.symm))) :
        Prompts Token lengths) ⟨i, hi⟩ = pad (lengths ⟨i, hi⟩) gradients[i] := by
    rw [WithLp.ofLp_sum, Finset.sum_apply, Finset.sum_eq_single ⟨i, hi⟩]
    · exact PiLp.single_eq_same 2 _ _
    · intro other _ hother
      exact PiLp.single_eq_of_ne 2 hother.symm _
    · exact fun hmem => absurd (Finset.mem_univ _) hmem
  rw [List.getElem_ofFn]
  exact congrArg tokens hcomponent

/-! A prompt for each layer, or dummy prompts, which are prompts of no tokens. -/

omit [NormedAddCommGroup Token] [InnerProductSpace ℝ Token] in
theorem splitPrompts_eq_self {prompts : List (List Token)}
    (h : prompts.length = backends.length) : splitPrompts backends prompts = prompts := by
  unfold splitPrompts
  split
  · rename_i hdummy
    refine List.ext_getElem (by simp [h]) fun i hleft hright => ?_
    rw [List.getElem_map]
    exact (List.isEmpty_iff.mp (List.all_eq_true.mp hdummy _ (List.getElem_mem hright))).symm
  · rfl

omit [NormedAddCommGroup Token] [InnerProductSpace ℝ Token] in
theorem all_isEmpty_promptLists {layers : Nat} {lengths : Fin layers → Nat} (hlayers : 0 < layers)
    (hlengths : ∀ i, 0 < lengths i) (prompts : Prompts Token lengths) :
    (promptLists prompts).all List.isEmpty = false := by
  rw [List.all_eq_false]
  refine ⟨tokens (prompts ⟨0, hlayers⟩), List.mem_ofFn.mpr ⟨⟨0, hlayers⟩, rfl⟩, ?_⟩
  rw [List.isEmpty_iff, ← List.length_eq_zero_iff, length_tokens]
  exact (hlengths _).ne'

def noPrompts (backends : List (TransformerBackend Token)) :
    Prompts Token fun _ : Fin backends.length => 0 :=
  WithLp.toLp 2 fun _ => WithLp.toLp 2 fun token => token.elim0

omit [NormedAddCommGroup Token] [InnerProductSpace ℝ Token] in
theorem splitPrompts_dummy {prompts : List (List Token)} (h : prompts.all List.isEmpty = true) :
    splitPrompts backends prompts = promptLists (noPrompts backends) := by
  unfold splitPrompts promptLists
  rw [if_pos h]
  refine List.ext_getElem (by simp) fun i hleft hright => ?_
  rw [List.getElem_map, List.getElem_ofFn]
  rfl

omit [NormedAddCommGroup Token] [InnerProductSpace ℝ Token] in
theorem zip_promptLists {lengths : Fin backends.length → Nat} (prompts : Prompts Token lengths) :
    backends.zip (promptLists prompts) =
      (List.finRange backends.length).map fun i => (backends.get i, tokens (prompts i)) := by
  unfold promptLists
  refine List.ext_getElem (by simp) fun i hleft hright => ?_
  rw [List.getElem_zip, List.getElem_map, List.getElem_ofFn, List.getElem_finRange]
  rfl

theorem runRpcBackward_sweep (hbackends : backends ≠ []) (hlengths : ∀ i, lengths i ≤ length)
    {given : List (List Token)} {prompts : Prompts Token lengths}
    (hgiven : splitPrompts backends given = promptLists prompts)
    (inputs gradOutputs : Sequence Token length) :
    runRpcBackward backends (tokens inputs) (tokens gradOutputs) given =
      let gradients := layerGradients ((List.finRange backends.length).map (promptedLayer backends))
        prompts inputs gradOutputs
      let gradPrompts := (((List.finRange backends.length).zip gradients).filter
        fun block => lengths block.1 ≠ 0).map fun block => tokens (pad (lengths block.1) block.2)
      some (tokens (gradients.headD gradOutputs),
        if gradPrompts.all List.isEmpty then [] else gradPrompts) := by
  rw [runRpcBackward_eq_backwardChain hbackends (by rw [hgiven]; exact List.length_ofFn), hgiven,
    zip_promptLists, backwardChain_order hlengths]
  rfl

theorem runRpcForward_promptedChain (hbackends : backends ≠ []) (hlengths : ∀ i, lengths i ≤ length)
    {given : List (List Token)} {prompts : Prompts Token lengths}
    (hgiven : splitPrompts backends given = promptLists prompts) (inputs : Sequence Token length) :
    runRpcForward backends given (tokens inputs) =
      some (tokens (promptedChain backends inputs prompts)) := by
  have hblocks (order : List (Fin backends.length)) (x : Sequence Token length) :
      (order.map fun i => (backends.get i, tokens (prompts i))).foldlM
          (fun hiddenStates layer => do
            let hiddenStates ← addPrompt? layer.2 hiddenStates
            return layer.1.forward hiddenStates)
          (tokens x) =
        some (tokens (order.foldl (chainStep backends prompts) x)) := by
    induction order generalizing x with
    | nil => rfl
    | cons i rest ih =>
        rw [List.map_cons, List.foldlM_cons, List.foldl_cons, ← ih,
          addPrompt?_tokens (hlengths i)]
        simp only [Option.bind_eq_bind, Option.bind_some, Option.pure_def, chainStep, tokens_map]
  unfold runRpcForward
  rw [if_neg hbackends, hgiven, zip_promptLists, hblocks]
  rfl

theorem runRpcBackward_dummy (hbackends : backends ≠ []) {given : List (List Token)}
    (hdummy : given.all List.isEmpty = true) {inputs : Sequence Token length}
    (h : ChainHasVjps backends inputs (noPrompts backends)) (gradOutputs : Sequence Token length) :
    ∃ gradInputs : Sequence Token length,
      runRpcBackward backends (tokens inputs) (tokens gradOutputs) given =
        some (tokens gradInputs, []) ∧
      HasVjpAt (fun inputs => promptedChain backends inputs (noPrompts backends)) gradOutputs
        gradInputs inputs := by
  have hlengths : ∀ _ : Fin backends.length, 0 ≤ length := fun _ => Nat.zero_le _
  refine ⟨_, ?_, h.hasVjpAt_promptedChain_inputs hlengths gradOutputs⟩
  rw [runRpcBackward_sweep hbackends hlengths (splitPrompts_dummy hdummy)]
  simp

theorem runRpcBackward_prompted (hbackends : backends ≠ [])
    (hlengths : ∀ i, 0 < lengths i ∧ lengths i ≤ length) {prompts : Prompts Token lengths}
    {inputs : Sequence Token length} (h : ChainHasVjps backends inputs prompts)
    (gradOutputs : Sequence Token length) :
    ∃ (gradInputs : Sequence Token length) (gradPrompts : Prompts Token lengths),
      runRpcBackward backends (tokens inputs) (tokens gradOutputs) (promptLists prompts) =
        some (tokens gradInputs, promptLists gradPrompts) ∧
      HasVjpAt (fun inputs => promptedChain backends inputs prompts) gradOutputs gradInputs
        inputs ∧
      HasVjpAt (fun prompts => promptedChain backends inputs prompts) gradOutputs gradPrompts
        prompts := by
  have hfits : ∀ i, lengths i ≤ length := fun i => (hlengths i).2
  refine ⟨_, _, ?_, h.hasVjpAt_promptedChain_inputs hfits gradOutputs,
    h.hasVjpAt_promptedChain_prompts hfits gradOutputs⟩
  rw [runRpcBackward_sweep hbackends hfits (splitPrompts_eq_self List.length_ofFn)]
  dsimp only
  rw [List.filter_eq_self.mpr fun block _ => decide_eq_true (hlengths block.1).1.ne',
    ← promptLists_parameterGradient,
    all_isEmpty_promptLists (List.length_pos_iff.mpr hbackends) fun i => (hlengths i).1]
  rfl

end chain

/-- `run_rpc_backward` returns the vector-Jacobian products of the chain
`xᵢ₊₁ = fᵢ (xᵢ + pad promptᵢ)`, of its inputs and of the stacked prompts, for dummy prompts or one
for each block, and nothing for another number of prompts. -/
theorem runRpcBackward_reverseMode {backends : List (TransformerBackend Token)}
    (hbackends : backends ≠ []) :
    (∀ (length : Nat) (inputs gradOutputs : Sequence Token length) (given : List (List Token)),
      given.all List.isEmpty = true → ChainHasVjps backends inputs (noPrompts backends) →
      ∃ gradInputs : Sequence Token length,
        runRpcBackward backends (tokens inputs) (tokens gradOutputs) given =
          some (tokens gradInputs, []) ∧
        HasVjpAt (fun inputs => promptedChain backends inputs (noPrompts backends)) gradOutputs
          gradInputs inputs) ∧
    (∀ (length : Nat) (lengths : Fin backends.length → Nat)
      (inputs gradOutputs : Sequence Token length) (prompts : Prompts Token lengths),
      (∀ i, 0 < lengths i ∧ lengths i ≤ length) → ChainHasVjps backends inputs prompts →
      ∃ (gradInputs : Sequence Token length) (gradPrompts : Prompts Token lengths),
        runRpcBackward backends (tokens inputs) (tokens gradOutputs) (promptLists prompts) =
          some (tokens gradInputs, promptLists gradPrompts) ∧
        HasVjpAt (fun inputs => promptedChain backends inputs prompts) gradOutputs gradInputs
          inputs ∧
        HasVjpAt (fun prompts => promptedChain backends inputs prompts) gradOutputs gradPrompts
          prompts) ∧
    ∀ inputs gradOutputs : List Token, ∀ given : List (List Token),
      given.all List.isEmpty = false → given.length ≠ backends.length →
      runRpcBackward backends inputs gradOutputs given = none := by
  refine ⟨?_, ?_, ?_⟩
  · intro length inputs gradOutputs given hdummy hvjps
    exact runRpcBackward_dummy hbackends hdummy hvjps gradOutputs
  · intro length lengths inputs gradOutputs prompts hlengths hvjps
    exact runRpcBackward_prompted hbackends hlengths hvjps gradOutputs
  · intro inputs gradOutputs given hprompts hcount
    exact runRpcBackward_eq_none hprompts hcount inputs gradOutputs

noncomputable def scaleBy (factor : ℝ) : TransformerBackend ℝ where
  forward inputs := inputs.map (factor * ·)
  backward inputs gradOutputs :=
    List.ofFn fun i : Fin inputs.length => factor * gradOutputs.getD i 0
  length_forward _ := List.length_map _
  length_backward _ _ := List.length_ofFn

theorem scaleBy_hasVjp (factor : ℝ) {length : Nat} (x : Sequence ℝ length) :
    (scaleBy factor).HasVjp x := by
  intro grad
  have hmap : (scaleBy factor).map =
      (factor • ContinuousLinearMap.id ℝ (Sequence ℝ length) : Sequence ℝ length → _) := by
    funext x
    ext i
    simp [TransformerBackend.map, scaleBy, sequenceOf, tokens]
  have hpull : (scaleBy factor).pull x grad = factor • grad := by
    ext i
    simp [TransformerBackend.pull, scaleBy, sequenceOf, tokens]
  rw [hmap, hpull]
  refine hasVjpAt_linear (factor • ContinuousLinearMap.id ℝ _) (fun direction => ?_) x
  simp [inner_smul_left, inner_smul_right]

/-- Two blocks with a prompt of one token each, over two tokens. -/
theorem runRpcBackward_reverseMode_scaled :
    let prompts : Prompts ℝ fun _ : Fin 2 => 1 := WithLp.toLp 2 fun _ => sequenceOf 1 [5]
    ∃ (gradInputs : Sequence ℝ 2) (gradPrompts : Prompts ℝ fun _ : Fin 2 => 1),
      runRpcBackward [scaleBy 2, scaleBy 3] (tokens (sequenceOf 2 [1, 4]))
          (tokens (sequenceOf 2 [1, 0])) (promptLists prompts) =
        some (tokens gradInputs, promptLists gradPrompts) ∧
      HasVjpAt (fun inputs => promptedChain [scaleBy 2, scaleBy 3] inputs prompts)
        (sequenceOf 2 [1, 0]) gradInputs (sequenceOf 2 [1, 4]) ∧
      HasVjpAt (fun prompts : Prompts ℝ fun _ : Fin 2 => 1 =>
          promptedChain [scaleBy 2, scaleBy 3] (sequenceOf 2 [1, 4]) prompts)
        (sequenceOf 2 [1, 0]) gradPrompts prompts := by
  intro prompts
  have hvjps : ChainHasVjps [scaleBy 2, scaleBy 3] (sequenceOf 2 [1, 4]) prompts := by
    intro i
    match i with
    | ⟨0, _⟩ => exact scaleBy_hasVjp 2 _
    | ⟨1, _⟩ => exact scaleBy_hasVjp 3 _
  exact (runRpcBackward_reverseMode (List.cons_ne_nil (scaleBy 2) [scaleBy 3])).2.1 2 (fun _ => 1)
    (sequenceOf 2 [1, 4]) (sequenceOf 2 [1, 0]) prompts (fun _ => by decide) hvjps

end Peerz.Server
