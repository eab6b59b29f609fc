import Mathlib.Algebra.GroupWithZero.Nat
import Peerz.Library.PySequence
import Peerz.Library.Transducer
import Peerz.Server.Inference

/-! A sequence that is cut into steps, against the blocks applied once each to the whole of it. -/
namespace Peerz.Server
open Library

variable {Token Cache : Type} [Add Token]

def addPrompts : List (Nat × List Token) → List Token → List Token
  | [], hiddenStates => hiddenStates
  | (length, prompt) :: rest, hiddenStates =>
      addPrompt prompt (hiddenStates.take length) ++ addPrompts rest (hiddenStates.drop length)

def layerPrompts (steps : List (InferenceTensors Token)) (layer : Nat) : List (Nat × List Token) :=
  steps.map fun step => (step.hiddenStates.length, step.prompts.getD layer [])

def applyOnce (steps : List (InferenceTensors Token)) :
    Nat → List (Block Token Cache × Cache) → List Token → List Token
  | _, [], hiddenStates => hiddenStates
  | layer, (block, cache) :: rest, hiddenStates =>
      applyOnce steps (layer + 1) rest
        (block.forward cache (addPrompts (layerPrompts steps layer) hiddenStates)).1

@[simp] theorem addPrompt_nil (hiddenStates : List Token) :
    addPrompt [] hiddenStates = hiddenStates := by
  simp [addPrompt]

@[simp] theorem addPrompt_of_nil (prompt : List Token) : addPrompt prompt [] = [] := by
  simp [addPrompt]

theorem addPrompts_cons {length : Nat} (prompt : List Token) (rest : List (Nat × List Token))
    {left : List Token} (hleft : left.length = length) (right : List Token) :
    addPrompts ((length, prompt) :: rest) (left ++ right) =
      addPrompt prompt left ++ addPrompts rest right := by
  subst hleft
  rw [addPrompts, List.take_left, List.drop_left]

theorem addPrompts_dummy {steps : List (Nat × List Token)} (h : ∀ step ∈ steps, step.2 = [])
    (hiddenStates : List Token) : addPrompts steps hiddenStates = hiddenStates := by
  induction steps generalizing hiddenStates with
  | nil => rfl
  | cons step rest ih =>
      obtain ⟨length, prompt⟩ := step
      cases h _ List.mem_cons_self
      rw [addPrompts, addPrompt_nil, ih fun other hmem => h other (List.mem_cons_of_mem _ hmem),
        List.take_append_drop]

theorem applyOnce_nil (layer : Nat) {blocks : List (Block Token Cache × Cache)}
    (hresumes : ∀ block ∈ blocks, Resumes block.1.forward) :
    applyOnce [] layer blocks [] = ([] : List Token) := by
  induction blocks generalizing layer with
  | nil => rfl
  | cons block rest ih =>
      have hempty : block.1.forward block.2 (addPrompts (layerPrompts [] layer) []) =
          ([], block.2) := (hresumes block List.mem_cons_self).nil block.2
      rw [applyOnce, hempty]
      exact ih (layer + 1) fun other hmem => hresumes other (List.mem_cons_of_mem _ hmem)

theorem applyOnce_cons_empty {step : InferenceTensors Token} (hempty : step.hiddenStates = [])
    (steps : List (InferenceTensors Token)) (layer : Nat)
    (blocks : List (Block Token Cache × Cache)) (hiddenStates : List Token) :
    applyOnce (step :: steps) layer blocks hiddenStates =
      applyOnce steps layer blocks hiddenStates := by
  induction blocks generalizing layer hiddenStates with
  | nil => rfl
  | cons block rest ih =>
      have hsame : addPrompts (layerPrompts (step :: steps) layer) hiddenStates =
          addPrompts (layerPrompts steps layer) hiddenStates := by
        have hcut := addPrompts_cons (step.prompts.getD layer []) (layerPrompts steps layer)
          (show ([] : List Token).length = 0 from rfl) hiddenStates
        rw [layerPrompts, List.map_cons, hempty]
        exact hcut.trans (by rw [addPrompt_of_nil, List.nil_append])
      rw [applyOnce, hsame, ih, applyOnce]

theorem runBlocks_length {hypoIds : List Nat} {blocks : List (Block Token Cache × Cache × List Token)}
    {hiddenStates outputs : List Token} {caches : List Cache}
    (h : runBlocks hypoIds blocks hiddenStates = some (outputs, caches)) :
    outputs.length = hiddenStates.length ∧ caches.length = blocks.length := by
  induction blocks generalizing hiddenStates outputs caches with
  | nil =>
      cases h
      exact ⟨rfl, rfl⟩
  | cons entry rest ih =>
      obtain ⟨block, cache, prompt⟩ := entry
      rw [runBlocks] at h
      split at h
      · obtain ⟨⟨later, laterCaches⟩, hrest, hresult⟩ := Option.bind_eq_some_iff.mp h
        cases hresult
        obtain ⟨hlength, hcaches⟩ := ih hrest
        exact ⟨hlength.trans (block.inferenceStep_length hypoIds cache prompt hiddenStates),
          congrArg Nat.succ hcaches⟩
      · cases h

/-- The first step, run over the caches, and the later ones, applied once from what it leaves. -/
theorem applyOnce_cons {step : InferenceTensors Token} (steps : List (InferenceTensors Token))
    {blocks : List (Block Token Cache × Cache × List Token)} {layer : Nat}
    (hresumes : ∀ block ∈ blocks, Resumes block.1.forward)
    (hprompts : blocks.map (fun block => block.2.2) =
      (List.range' layer blocks.length).map fun layer => step.prompts.getD layer [])
    {left outputs : List Token} {caches : List Cache}
    (hleft : left.length = step.hiddenStates.length)
    (hrun : runBlocks [] blocks left = some (outputs, caches)) (right : List Token) :
    applyOnce (step :: steps) layer (blocks.map fun block => (block.1, block.2.1)) (left ++ right) =
      outputs ++ applyOnce steps layer ((blocks.map Prod.fst).zip caches) right := by
  induction blocks generalizing layer left outputs caches right with
  | nil =>
      cases hrun
      rfl
  | cons entry rest ih =>
      obtain ⟨block, cache, prompt⟩ := entry
      rw [List.length_cons, List.range'_succ, List.map_cons, List.map_cons] at hprompts
      obtain ⟨hprompt, hrestPrompts⟩ := List.cons.inj hprompts
      rw [runBlocks] at hrun
      split at hrun
      · obtain ⟨⟨later, laterCaches⟩, hrest, hresult⟩ := Option.bind_eq_some_iff.mp hrun
        cases hresult
        have hcut : addPrompts (layerPrompts (step :: steps) layer) (left ++ right) =
            addPrompt prompt left ++ addPrompts (layerPrompts steps layer) right := by
          rw [show prompt = step.prompts.getD layer [] from hprompt]
          exact addPrompts_cons _ _ hleft right
        have hlength : (block.inferenceStep [] cache prompt left).1.length =
            step.hiddenStates.length := (block.inferenceStep_length _ _ _ _).trans hleft
        have hforward := (hresumes _ List.mem_cons_self).append cache (addPrompt prompt left)
          (addPrompts (layerPrompts steps layer) right)
        rw [List.map_cons, applyOnce, hcut, hforward]
        exact ih (fun other hmem => hresumes other (List.mem_cons_of_mem _ hmem)) hrestPrompts
          hlength hrest _
      · cases hrun

namespace ServerSession

/-- The turns of the loop over the given requests; `none` when one of them raises. -/
def processAll (session : ServerSession Token Cache) :
    List (InferenceTensors Token) → Option (List (List Token) × ServerSession Token Cache)
  | [] => some ([], session)
  | tensors :: rest => do
      let (outputs, session) ← session.process tensors
      let (later, session) ← processAll session rest
      return (outputs :: later, session)

theorem processAll_concat (session : ServerSession Token Cache)
    (requests : List (InferenceTensors Token)) (tensors : InferenceTensors Token) :
    session.processAll (requests ++ [tensors]) =
      (session.processAll requests).bind fun done =>
        (done.2.process tensors).map fun last => (done.1 ++ [last.1], last.2) := by
  induction requests generalizing session with
  | nil =>
      cases hprocess : session.process tensors with
      | none => simp [processAll, hprocess]
      | some stepped => simp [processAll, hprocess]
  | cons first rest ih =>
      rw [List.cons_append, processAll, processAll]
      cases session.process first with
      | none => rfl
      | some stepped =>
          simp only [Option.bind_eq_bind, Option.bind_some, ih]
          cases processAll stepped.2 rest with
          | none => rfl
          | some done =>
              cases hprocess : done.2.process tensors with
              | none => simp [hprocess]
              | some last => simp [hprocess]

/-- The number of prompts is that of the blocks, or they are dummies, and none is longer than
the hidden states it is added to. -/
structure Fits (numBlocks : Nat) (tensors : InferenceTensors Token) : Prop where
  count : tensors.prompts.all List.isEmpty = true ∨ tensors.prompts.length = numBlocks
  lengths : tensors.hiddenStates = [] ∨
    ∀ prompt ∈ tensors.prompts, prompt.length ≤ tensors.hiddenStates.length

def blockPrompts (session : ServerSession Token Cache) (tensors : InferenceTensors Token) :
    List (List Token) :=
  if tensors.prompts.all List.isEmpty then session.backends.map fun _ => [] else tensors.prompts

omit [Add Token] in
theorem blockPrompts_eq {session : ServerSession Token Cache} {tensors : InferenceTensors Token}
    (h : session.backends.length = (session.blockPrompts tensors).length) :
    session.blockPrompts tensors =
      (List.range' 0 session.backends.length).map fun layer => tensors.prompts.getD layer [] := by
  unfold blockPrompts at h ⊢
  apply List.ext_getElem
  · rw [← h, List.length_map, List.length_range']
  · intro layer hleft hright
    rw [← h] at hleft
    rw [List.getElem_map, List.getElem_range', Nat.zero_add, Nat.one_mul]
    split at h
    · rename_i hdummy
      simp only [hdummy, if_true, List.getElem_map]
      exact (getD_of_all_isEmpty hdummy layer).symm
    · rename_i hdummy
      simp only [hdummy]
      exact (List.getD_eq_getElem _ _ (h ▸ hleft)).symm

omit [Add Token] in
theorem zip_blockPrompts {session : ServerSession Token Cache} {tensors : InferenceTensors Token}
    (hcaches : session.caches.length = session.backends.length)
    (hprompts : session.backends.length = (session.blockPrompts tensors).length) :
    let blocks := session.backends.zip (session.caches.zip (session.blockPrompts tensors))
    blocks.map Prod.fst = session.backends ∧
      blocks.map (fun block => (block.1, block.2.1)) = session.backends.zip session.caches ∧
      blocks.map (fun block => block.2.2) =
        (List.range' 0 blocks.length).map fun layer => tensors.prompts.getD layer [] := by
  have hzip : (session.caches.zip (session.blockPrompts tensors)).length =
      session.backends.length := by
    rw [List.length_zip]
    omega
  refine ⟨List.map_fst_zip hzip.ge, ?_, ?_⟩
  · have hpair : (fun block : Block Token Cache × Cache × List Token => (block.1, block.2.1)) =
        Prod.map id Prod.fst := rfl
    rw [hpair, ← List.zip_map_right, List.map_fst_zip (by omega)]
  · have hlast : (fun block : Block Token Cache × Cache × List Token => block.2.2) =
        Prod.snd ∘ Prod.snd := rfl
    rw [hlast, ← List.map_map, List.map_snd_zip hzip.le, List.map_snd_zip (by omega),
      List.length_zip, hzip, Nat.min_self]
    exact blockPrompts_eq hprompts

omit [Add Token] in
theorem zip_prompts {session : ServerSession Token Cache} {tensors : InferenceTensors Token}
    (hcaches : session.caches.length = session.backends.length)
    (hprompts : session.backends.length = (session.blockPrompts tensors).length) :
    (session.backends.zip (session.caches.zip (session.blockPrompts tensors))).map
      (fun block => block.2.2) = session.blockPrompts tensors := by
  obtain ⟨hbackends, -, hlayers⟩ := zip_blockPrompts hcaches hprompts
  rw [hlayers, ← List.length_map Prod.fst, hbackends]
  exact (blockPrompts_eq hprompts).symm

theorem process_eq (session : ServerSession Token Cache) (tensors : InferenceTensors Token) :
    session.process tensors =
      if session.backends.length ≠ (session.blockPrompts tensors).length then none
      else if session.maxLength < session.prefixLength + tensors.hiddenStates.length then none
      else if tensors.hiddenStates.length = 0 then some ([], session)
      else (runBlocks tensors.hypoIds
          (session.backends.zip (session.caches.zip (session.blockPrompts tensors)))
          tensors.hiddenStates).bind fun run => some (run.1, { session with
            caches := run.2
            prefixLength := session.prefixLength + tensors.hiddenStates.length }) := rfl

theorem process_eq_some {session next : ServerSession Token Cache}
    {tensors : InferenceTensors Token} {outputs : List Token}
    (h : session.process tensors = some (outputs, next)) :
    session.backends.length = (session.blockPrompts tensors).length ∧
    session.prefixLength + tensors.hiddenStates.length ≤ session.maxLength ∧
    (tensors.hiddenStates = [] ∧ outputs = [] ∧ next = session ∨
      tensors.hiddenStates ≠ [] ∧ ∃ caches, runBlocks tensors.hypoIds
          (session.backends.zip (session.caches.zip (session.blockPrompts tensors)))
          tensors.hiddenStates = some (outputs, caches) ∧
        next = { session with
          caches := caches
          prefixLength := session.prefixLength + tensors.hiddenStates.length }) := by
  rw [process_eq] at h
  split at h
  · cases h
  · rename_i hcount
    split at h
    · cases h
    · rename_i hlength
      refine ⟨not_not.mp hcount, Nat.le_of_not_lt hlength, ?_⟩
      split at h
      · rename_i hempty
        cases h
        exact .inl ⟨List.length_eq_zero_iff.mp hempty, rfl, rfl⟩
      · rename_i hempty
        obtain ⟨⟨outs, caches⟩, hrun, hresult⟩ := Option.bind_eq_some_iff.mp h
        cases hresult
        exact .inr ⟨fun hnil => hempty (List.length_eq_zero_iff.mpr hnil), caches, hrun, rfl⟩

theorem runBlocks_isSome_iff {hypoIds : List Nat}
    {blocks : List (Block Token Cache × Cache × List Token)} {hiddenStates : List Token} :
    (runBlocks hypoIds blocks hiddenStates).isSome = true ↔
      ∀ block ∈ blocks, block.2.2.length ≤ hiddenStates.length := by
  induction blocks generalizing hiddenStates with
  | nil => simp [runBlocks]
  | cons entry rest ih =>
      obtain ⟨block, cache, prompt⟩ := entry
      have hrest := @ih (block.inferenceStep hypoIds cache prompt hiddenStates).1
      rw [block.inferenceStep_length] at hrest
      rw [runBlocks, List.forall_mem_cons, ← hrest]
      split
      · rename_i hfits
        rw [and_iff_right hfits]
        cases hrun : runBlocks hypoIds rest
            (block.inferenceStep hypoIds cache prompt hiddenStates).1 with
        | none => simp [hrun]
        | some done => simp [hrun]
      · rename_i hlong
        exact iff_of_false Bool.false_ne_true fun h => hlong h.1

omit [Add Token] in
theorem count_blockPrompts {session : ServerSession Token Cache} {tensors : InferenceTensors Token} :
    session.backends.length = (session.blockPrompts tensors).length ↔
      tensors.prompts.all List.isEmpty = true ∨ tensors.prompts.length = session.backends.length := by
  unfold blockPrompts
  split
  · rename_i hdummy
    simp [hdummy]
  · rename_i hprompts
    rw [or_iff_right hprompts, eq_comm]

omit [Add Token] in
theorem lengths_blockPrompts (session : ServerSession Token Cache)
    (tensors : InferenceTensors Token) (count : Nat) :
    (∀ prompt ∈ session.blockPrompts tensors, prompt.length ≤ count) ↔
      ∀ prompt ∈ tensors.prompts, prompt.length ≤ count := by
  unfold blockPrompts
  split
  · rename_i hdummy
    refine iff_of_true ?_ fun prompt hmem => ?_
    · intro prompt hmem
      obtain ⟨-, -, rfl⟩ := List.mem_map.mp hmem
      exact Nat.zero_le count
    · rw [List.isEmpty_iff.mp (List.all_eq_true.mp hdummy prompt hmem)]
      exact Nat.zero_le count
  · rfl

theorem process_isSome_iff {session : ServerSession Token Cache}
    (hcaches : session.caches.length = session.backends.length)
    {tensors : InferenceTensors Token} :
    (session.process tensors).isSome = true ↔ Fits session.backends.length tensors ∧
      session.prefixLength + tensors.hiddenStates.length ≤ session.maxLength := by
  rw [process_eq]
  by_cases hcount : session.backends.length = (session.blockPrompts tensors).length
  · rw [if_neg (not_not.mpr hcount)]
    have hfits : Fits session.backends.length tensors ↔ (tensors.hiddenStates = [] ∨
        ∀ prompt ∈ tensors.prompts, prompt.length ≤ tensors.hiddenStates.length) :=
      ⟨Fits.lengths, fun h => ⟨count_blockPrompts.mp hcount, h⟩⟩
    rw [hfits]
    split
    · rename_i hexceeds
      exact iff_of_false Bool.false_ne_true fun h => Nat.not_le_of_lt hexceeds h.2
    · rename_i hlength
      rw [and_iff_left (Nat.le_of_not_lt hlength)]
      split
      · rename_i hempty
        exact iff_of_true rfl (.inl (List.length_eq_zero_iff.mp hempty))
      · rename_i htokens
        have hprompts : (∀ prompt ∈ tensors.prompts, prompt.length ≤ tensors.hiddenStates.length) ↔
            (runBlocks tensors.hypoIds
              (session.backends.zip (session.caches.zip (session.blockPrompts tensors)))
              tensors.hiddenStates).isSome = true := by
          rw [runBlocks_isSome_iff, ← lengths_blockPrompts session]
          conv_lhs => rw [← zip_prompts hcaches hcount]
          rw [List.forall_mem_map]
        rw [or_iff_right fun hnil => htokens (List.length_eq_zero_iff.mpr hnil), hprompts]
        cases runBlocks tensors.hypoIds
            (session.backends.zip (session.caches.zip (session.blockPrompts tensors)))
            tensors.hiddenStates with
        | none => exact Iff.rfl
        | some run => exact Iff.rfl
  · rw [if_pos hcount]
    exact iff_of_false Bool.false_ne_true fun h => hcount (count_blockPrompts.mpr h.1.count)

theorem process_keeps {session next : ServerSession Token Cache}
    {tensors : InferenceTensors Token} {outputs : List Token}
    (h : session.process tensors = some (outputs, next)) :
    next.backends = session.backends ∧ next.maxLength = session.maxLength ∧
      next.prefixLength = session.prefixLength + tensors.hiddenStates.length := by
  obtain ⟨-, -, ⟨hempty, -, rfl⟩ | ⟨-, caches, -, rfl⟩⟩ := process_eq_some h
  · rw [hempty]
    exact ⟨rfl, rfl, rfl⟩
  · exact ⟨rfl, rfl, rfl⟩

theorem process_caches_length {session next : ServerSession Token Cache}
    {tensors : InferenceTensors Token} {outputs : List Token}
    (hcaches : session.caches.length = session.backends.length)
    (h : session.process tensors = some (outputs, next)) :
    next.caches.length = next.backends.length := by
  obtain ⟨hprompts, -, ⟨-, -, rfl⟩ | ⟨-, caches, hrun, rfl⟩⟩ := process_eq_some h
  · exact hcaches
  · change caches.length = session.backends.length
    have hblocks := congrArg List.length (zip_blockPrompts hcaches hprompts).1
    rw [List.length_map] at hblocks
    rw [(runBlocks_length hrun).2, hblocks]

def totalLength (requests : List (InferenceTensors Token)) : Nat :=
  (requests.map fun tensors => tensors.hiddenStates.length).sum

omit [Add Token] in
theorem totalLength_cons (tensors : InferenceTensors Token)
    (rest : List (InferenceTensors Token)) :
    totalLength (tensors :: rest) = tensors.hiddenStates.length + totalLength rest := rfl

theorem processAll_isSome_iff {session : ServerSession Token Cache}
    (hcaches : session.caches.length = session.backends.length)
    (hstart : session.prefixLength ≤ session.maxLength)
    {requests : List (InferenceTensors Token)} :
    (session.processAll requests).isSome = true ↔
      (∀ tensors ∈ requests, Fits session.backends.length tensors) ∧
        session.prefixLength + totalLength requests ≤ session.maxLength := by
  induction requests generalizing session with
  | nil => exact iff_of_true rfl ⟨fun _ hmem => absurd hmem List.not_mem_nil, hstart⟩
  | cons tensors rest ih =>
      have hfirst := @process_isSome_iff _ _ _ session hcaches tensors
      rw [totalLength_cons, ← Nat.add_assoc, List.forall_mem_cons]
      cases hprocess : session.process tensors with
      | none =>
          rw [hprocess] at hfirst
          refine iff_of_false ?_ fun h => Bool.false_ne_true (hfirst.mpr ⟨h.1.1, by omega⟩)
          rw [processAll, hprocess]
          exact Bool.false_ne_true
      | some stepped =>
          obtain ⟨outputs, next⟩ := stepped
          obtain ⟨hbackends, hmaximum, hstarts⟩ := process_keeps hprocess
          rw [hprocess] at hfirst
          obtain ⟨hfits, hwithin⟩ := hfirst.mp rfl
          have hrest := @ih next (process_caches_length hcaches hprocess) (by omega)
          rw [hbackends, hmaximum, hstarts] at hrest
          rw [and_iff_right hfits, ← hrest, processAll, hprocess]
          cases hall : next.processAll rest with
          | none => simp [hall]
          | some done => simp [hall]

/-- Splitting is invisible: the outputs of the steps are those of the blocks applied once. -/
theorem processAll_flatten {session final : ServerSession Token Cache}
    {steps : List (InferenceTensors Token)} {outputs : List (List Token)}
    (hresumes : ∀ block ∈ session.backends, Resumes block.forward)
    (hcaches : session.caches.length = session.backends.length)
    (hhypo : ∀ step ∈ steps, step.hypoIds = [])
    (h : session.processAll steps = some (outputs, final)) :
    outputs.flatten = applyOnce steps 0 (session.backends.zip session.caches)
      (steps.flatMap InferenceTensors.hiddenStates) := by
  induction steps generalizing session outputs with
  | nil =>
      cases h
      exact (applyOnce_nil 0 fun block hmem => hresumes _ (List.of_mem_zip hmem).1).symm
  | cons step rest ih =>
      obtain ⟨⟨first, next⟩, hstep, h⟩ := Option.bind_eq_some_iff.mp h
      obtain ⟨⟨later, last⟩, hrest, hresult⟩ := Option.bind_eq_some_iff.mp h
      cases hresult
      have hrestHypo := fun other hmem => hhypo other (List.mem_cons_of_mem step hmem)
      obtain ⟨hprompts, -, ⟨hempty, rfl, rfl⟩ | ⟨-, caches, hrun, rfl⟩⟩ := process_eq_some hstep
      · rw [List.flatten_cons, List.flatMap_cons, hempty, applyOnce_cons_empty hempty]
        exact ih hresumes hcaches hrestHypo hrest
      · obtain ⟨hbackends, hpairs, hlayers⟩ := zip_blockPrompts hcaches hprompts
        rw [hhypo step List.mem_cons_self] at hrun
        have hlength := (runBlocks_length hrun).2
        rw [← List.length_map Prod.fst, hbackends] at hlength
        have hsplit := applyOnce_cons rest
          (fun block hmem => hresumes _ (List.of_mem_zip hmem).1) hlayers rfl hrun
          (rest.flatMap InferenceTensors.hiddenStates)
        rw [hpairs, hbackends] at hsplit
        rw [List.flatten_cons, List.flatMap_cons, hsplit]
        apply congrArg (first ++ ·)
        refine ih ?_ ?_ hrestHypo hrest
        · exact hresumes
        · exact hlength

end ServerSession
end Peerz.Server
