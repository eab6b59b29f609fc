import Peerz.Library.PySequence
import Peerz.Server.BlockFunctions

/-! The blocks that `rpc_forward` runs. The loop pairs backends and prompts by their places, and
ends with the shorter list. -/
namespace Peerz.Server
open Library

variable {Token : Type} [Add Token]

def promptedForward (prompts : List (List Token)) :
    Nat → List (TransformerBackend Token) → List Token → Option (List Token)
  | _, [], hiddenStates => some hiddenStates
  | layer, backend :: rest, hiddenStates => do
      let hiddenStates ← addPrompt? (prompts.getD layer []) hiddenStates
      promptedForward prompts (layer + 1) rest (backend.forward hiddenStates)

def forwardCalls : List (TransformerBackend Token × List Token) → List Token →
    Option (List Token × List (TransformerBackend Token))
  | [], hiddenStates => some (hiddenStates, [])
  | (backend, prompt) :: rest, hiddenStates => do
      let hiddenStates ← addPrompt? prompt hiddenStates
      let (outputs, calls) ← forwardCalls rest (backend.forward hiddenStates)
      return (outputs, backend :: calls)

def runRpcForwardCalls (backends : List (TransformerBackend Token)) (prompts : List (List Token))
    (hiddenStates : List Token) : Option (List Token × List (TransformerBackend Token)) :=
  if backends = [] then none
  else forwardCalls (backends.zip (splitPrompts backends prompts)) hiddenStates

theorem forwardCalls_fst (blocks : List (TransformerBackend Token × List Token))
    (hiddenStates : List Token) :
    (forwardCalls blocks hiddenStates).map Prod.fst =
      blocks.foldlM
        (fun hiddenStates layer => do
          let hiddenStates ← addPrompt? layer.2 hiddenStates
          return layer.1.forward hiddenStates)
        hiddenStates := by
  induction blocks generalizing hiddenStates with
  | nil => rfl
  | cons block rest ih =>
      obtain ⟨backend, prompt⟩ := block
      rw [forwardCalls, List.foldlM_cons]
      cases addPrompt? prompt hiddenStates with
      | none => rfl
      | some prompted =>
          refine Eq.trans ?_ (ih (backend.forward prompted))
          simp only [Option.bind_eq_bind, Option.bind_some]
          cases forwardCalls rest (backend.forward prompted) with
          | none => rfl
          | some done => rfl

theorem runRpcForwardCalls_fst (backends : List (TransformerBackend Token))
    (prompts : List (List Token)) (hiddenStates : List Token) :
    (runRpcForwardCalls backends prompts hiddenStates).map Prod.fst =
      runRpcForward backends prompts hiddenStates := by
  unfold runRpcForwardCalls runRpcForward
  split
  · rfl
  · exact forwardCalls_fst _ _

/-- A prompt as long as the hidden states fits, and a single token fits none of them. -/
def PromptFits (hiddenStates prompt : List Token) : Prop :=
  prompt.length ≤ max hiddenStates.length 1

instance (hiddenStates : List Token) : DecidablePred (PromptFits hiddenStates) :=
  fun _ => inferInstanceAs (Decidable (_ ≤ _))

omit [Add Token] in
theorem PromptFits.congr {hiddenStates other prompt : List Token}
    (hlength : other.length = hiddenStates.length) :
    PromptFits other prompt ↔ PromptFits hiddenStates prompt := by
  rw [PromptFits, PromptFits, hlength]

theorem addPrompt?_eq (prompt hiddenStates : List Token) :
    addPrompt? prompt hiddenStates =
      if PromptFits hiddenStates prompt then some (addPrompt prompt hiddenStates) else none :=
  rfl

theorem forward_addPrompt_length (backend : TransformerBackend Token)
    (prompt hiddenStates : List Token) :
    (backend.forward (addPrompt prompt hiddenStates)).length = hiddenStates.length := by
  rw [backend.length_forward, addPrompt_length]

theorem forwardCalls_cons {backend : TransformerBackend Token} {prompt : List Token}
    {rest : List (TransformerBackend Token × List Token)} {hiddenStates : List Token} :
    forwardCalls ((backend, prompt) :: rest) hiddenStates =
      if PromptFits hiddenStates prompt then
        (forwardCalls rest (backend.forward (addPrompt prompt hiddenStates))).map fun done =>
          (done.1, backend :: done.2)
      else none := by
  rw [forwardCalls, addPrompt?_eq]
  by_cases hfits : PromptFits hiddenStates prompt
  · rw [if_pos hfits, if_pos hfits]
    simp only [Option.bind_eq_bind, Option.bind_some]
    cases forwardCalls rest (backend.forward (addPrompt prompt hiddenStates)) with
    | none => rfl
    | some done => rfl
  · rw [if_neg hfits, if_neg hfits]
    rfl

theorem forwardCalls_isSome_iff {blocks : List (TransformerBackend Token × List Token)}
    {hiddenStates : List Token} :
    (forwardCalls blocks hiddenStates).isSome = true ↔
      ∀ block ∈ blocks, PromptFits hiddenStates block.2 := by
  induction blocks generalizing hiddenStates with
  | nil => simp [forwardCalls]
  | cons block rest ih =>
      obtain ⟨backend, prompt⟩ := block
      rw [List.forall_mem_cons, forwardCalls_cons]
      split
      · rename_i hfits
        rw [Option.isSome_map, ih, and_iff_right hfits]
        simp only [PromptFits.congr (forward_addPrompt_length backend prompt hiddenStates)]
      · rename_i hlong
        exact iff_of_false Bool.false_ne_true fun h => hlong h.1

theorem forwardCalls_calls {blocks : List (TransformerBackend Token × List Token)}
    {hiddenStates outputs : List Token} {calls : List (TransformerBackend Token)}
    (h : forwardCalls blocks hiddenStates = some (outputs, calls)) :
    calls = blocks.map Prod.fst := by
  induction blocks generalizing hiddenStates calls with
  | nil =>
      cases h
      rfl
  | cons block rest ih =>
      obtain ⟨backend, prompt⟩ := block
      rw [forwardCalls_cons] at h
      split at h
      · obtain ⟨⟨later, laterCalls⟩, hrest, hdone⟩ := Option.map_eq_some_iff.mp h
        cases hdone
        rw [List.map_cons, ih hrest]
      · cases h

theorem forwardCalls_prompted {prompts : List (List Token)} {layer : Nat}
    {blocks : List (TransformerBackend Token × List Token)}
    (h : ∀ index block, blocks[index]? = some block → block.2 = prompts.getD (layer + index) [])
    (hiddenStates : List Token) :
    (forwardCalls blocks hiddenStates).map Prod.fst =
      promptedForward prompts layer (blocks.map Prod.fst) hiddenStates := by
  induction blocks generalizing layer hiddenStates with
  | nil => rfl
  | cons block rest ih =>
      obtain ⟨backend, prompt⟩ := block
      obtain rfl : prompt = prompts.getD layer [] := h 0 _ rfl
      have hrest : ∀ index block, rest[index]? = some block →
          block.2 = prompts.getD (layer + 1 + index) [] := by
        intro index block hblock
        rw [Nat.add_assoc, Nat.add_comm 1 index]
        exact h (index + 1) block hblock
      rw [forwardCalls_cons, List.map_cons, promptedForward, addPrompt?_eq]
      by_cases hfits : PromptFits hiddenStates (prompts.getD layer [])
      · rw [if_pos hfits, if_pos hfits, Option.map_map]
        exact ih hrest _
      · rw [if_neg hfits, if_neg hfits]
        rfl

section calls
variable {backends : List (TransformerBackend Token)} {prompts : List (List Token)}
  {hiddenStates : List Token}

omit [Add Token] in
theorem zip_splitPrompts_fst
    (h : prompts.all List.isEmpty = true ∨ backends.length ≤ prompts.length) :
    (backends.zip (splitPrompts backends prompts)).map Prod.fst = backends := by
  apply List.map_fst_zip
  unfold splitPrompts
  split
  · rw [List.length_map]
  · exact h.resolve_left ‹_›

omit [Add Token] in
theorem zip_splitPrompts_snd {index : Nat} {block : TransformerBackend Token × List Token}
    (h : (backends.zip (splitPrompts backends prompts))[index]? = some block) :
    block.2 = prompts.getD index [] := by
  obtain ⟨-, hprompt⟩ := List.getElem?_zip_eq_some.mp h
  unfold splitPrompts at hprompt
  split at hprompt
  · rename_i hdummy
    rw [List.getElem?_map] at hprompt
    obtain ⟨-, -, hempty⟩ := Option.map_eq_some_iff.mp hprompt
    rw [← hempty, getD_of_all_isEmpty hdummy]
  · rw [List.getD_eq_getElem?_getD, hprompt]
    rfl

end calls

/-- Whatever `run_rpc_forward` returns comes from all the requested backends, each called once and
in order, exactly when the prompts are dummies, or not fewer than the backends, or one of those
the loop meets does not fit the hidden states, so that the request fails. A prompt may only have too
many tokens: batch and hidden size are those of the hidden states, and prompts with others, where
the addition raises or spreads them, are not modelled. -/
theorem runRpcForward_complete_iff (backends : List (TransformerBackend Token))
    (prompts : List (List Token)) (hiddenStates : List Token) :
    (∀ outputs calls, runRpcForwardCalls backends prompts hiddenStates = some (outputs, calls) →
      calls = backends ∧ promptedForward prompts 0 backends hiddenStates = some outputs) ↔
    prompts.all List.isEmpty = true ∨ backends.length ≤ prompts.length ∨
      ∃ prompt ∈ prompts.take backends.length, ¬ PromptFits hiddenStates prompt := by
  constructor
  · intro h
    by_contra hnot
    simp only [not_or, not_exists, not_and, not_not, Nat.not_le] at hnot
    obtain ⟨hprompts, hfewer, hfit⟩ := hnot
    have hsplit : splitPrompts backends prompts = prompts := if_neg hprompts
    have hfits : ∀ block ∈ backends.zip (splitPrompts backends prompts),
        PromptFits hiddenStates block.2 := by
      intro block hblock
      rw [hsplit] at hblock
      apply hfit
      rw [List.take_of_length_le hfewer.le]
      exact (List.of_mem_zip hblock).2
    obtain ⟨⟨outputs, calls⟩, hrun⟩ := Option.isSome_iff_exists.mp
      (forwardCalls_isSome_iff.mpr hfits)
    have hnonempty : backends ≠ [] := List.ne_nil_of_length_pos (Nat.zero_lt_of_lt hfewer)
    obtain ⟨hcalls, -⟩ := h outputs calls (by rw [runRpcForwardCalls, if_neg hnonempty, hrun])
    -- the loop has ended with the prompts
    have hcount := congrArg List.length (forwardCalls_calls hrun)
    rw [hcalls, List.length_map, List.length_zip, hsplit] at hcount
    omega
  · intro hcondition outputs calls hrun
    unfold runRpcForwardCalls at hrun
    split at hrun
    · cases hrun
    · have hfits := forwardCalls_isSome_iff.mp (Option.isSome_iff_exists.mpr ⟨_, hrun⟩)
      have hall : prompts.all List.isEmpty = true ∨ backends.length ≤ prompts.length := by
        obtain hdummy | hcount | ⟨prompt, hprompt, hlong⟩ := hcondition
        · exact .inl hdummy
        · exact .inr hcount
        · by_contra hnot
          rw [not_or] at hnot
          have hsplit : splitPrompts backends prompts = prompts := if_neg hnot.1
          have hmem : prompt ∈ (backends.zip prompts).map Prod.snd := by
            rw [List.map_snd_zip (by omega)]
            exact List.mem_of_mem_take hprompt
          obtain ⟨block, hblock, rfl⟩ := List.mem_map.mp hmem
          exact hlong (hfits block (hsplit.symm ▸ hblock))
      have hbackends := zip_splitPrompts_fst hall
      have hpaired : ∀ index block,
          (backends.zip (splitPrompts backends prompts))[index]? = some block →
          block.2 = prompts.getD (0 + index) [] := by
        intro index block hblock
        rw [Nat.zero_add]
        exact zip_splitPrompts_snd hblock
      have hchain := forwardCalls_prompted hpaired hiddenStates
      rw [hrun, hbackends] at hchain
      exact ⟨(forwardCalls_calls hrun).trans hbackends, hchain.symm⟩

def addOne : TransformerBackend Nat where
  forward inputs := inputs.map (· + 1)
  backward inputs gradOutputs := List.replicate inputs.length (gradOutputs.headD 0)
  length_forward _ := List.length_map _
  length_backward _ _ := List.length_replicate

/-- Two requested blocks and a prompt for one layer: the second block is not called. -/
theorem runRpcForward_skips :
    runRpcForward [addOne, addOne] [[5]] [1] = some [7] ∧
      (runRpcForwardCalls [addOne, addOne] [[5]] [1]).map (fun run => run.2.length) = some 1 ∧
      promptedForward [[5]] 0 [addOne, addOne] [1] = some [8] := by
  decide

end Peerz.Server
