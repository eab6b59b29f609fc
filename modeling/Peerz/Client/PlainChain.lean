import Peerz.Client.SequentialAutograd
import Peerz.Server.BackwardChain

/-! The blocks applied once each in order, and the gradients back through them, as one server
that held them all would compute them. -/
namespace Peerz.Client
open Library Server

variable {PeerID Token : Type} [Add Token]

def blockForward (model : RemoteModel Token) (prompts : List (List Token)) (inputs : List Token)
    (block : Nat) : Option (List Token) :=
  (addPrompt? (prompts.getD block []) inputs).map (model.backend block).forward

def chainForward (model : RemoteModel Token) (prompts : List (List Token)) (start length : Nat)
    (inputs : List Token) : Option (List Token) :=
  (List.range' start length).foldlM (blockForward model prompts) inputs

def chainBackward (model : RemoteModel Token) (prompts : List (List Token)) :
    Nat → Nat → List Token → List Token → Option (List Token × List (List Token))
  | _, 0, _, gradOutputs => some (gradOutputs, [])
  | start, length + 1, inputs, gradOutputs => do
      let inputs ← addPrompt? (prompts.getD start []) inputs
      let (gradOutputs, gradPrompts) ← chainBackward model prompts (start + 1) length
        ((model.backend start).forward inputs) gradOutputs
      let gradInputs := (model.backend start).backward inputs gradOutputs
      return (gradInputs,
        if prompts.getD start [] = [] then gradPrompts
        else gradInputs.take (prompts.getD start []).length :: gradPrompts)

variable {model : RemoteModel Token} {prompts : List (List Token)}

theorem chainForward_add (start first second : Nat) (inputs : List Token) :
    chainForward model prompts start (first + second) inputs =
      (chainForward model prompts start first inputs).bind
        (chainForward model prompts (start + first) second) := by
  unfold chainForward
  rw [← List.range'_append_1, List.foldlM_append]
  rfl

/-- Of a list of prompts only those of the blocks count, and none are dummy ones. -/
theorem chainForward_congr {others : List (List Token)}
    (h : ∀ block, prompts.getD block [] = others.getD block []) (start length : Nat)
    (inputs : List Token) :
    chainForward model prompts start length inputs =
      chainForward model others start length inputs := by
  unfold chainForward
  have hblocks : blockForward model prompts = blockForward model others := by
    funext inputs block
    unfold blockForward
    rw [h block]
  rw [hblocks]

theorem chainForward_succ {start length : Nat} {inputs outputs : List Token} :
    chainForward model prompts start (length + 1) inputs = some outputs ↔
      ∃ prompted, addPrompt? (prompts.getD start []) inputs = some prompted ∧
        chainForward model prompts (start + 1) length ((model.backend start).forward prompted) =
          some outputs := by
  unfold chainForward blockForward
  simp [List.range'_succ, Option.bind_eq_some_iff]

theorem chainBackward_succ {start length : Nat} {inputs gradOutputs gradInputs : List Token}
    {gradPrompts : List (List Token)} :
    chainBackward model prompts start (length + 1) inputs gradOutputs =
        some (gradInputs, gradPrompts) ↔
      ∃ prompted gradMiddle later, addPrompt? (prompts.getD start []) inputs = some prompted ∧
        chainBackward model prompts (start + 1) length ((model.backend start).forward prompted)
          gradOutputs = some (gradMiddle, later) ∧
        gradInputs = (model.backend start).backward prompted gradMiddle ∧
        gradPrompts = if prompts.getD start [] = [] then later
          else gradInputs.take (prompts.getD start []).length :: later := by
  rw [chainBackward]
  simp only [Option.bind_eq_bind, Option.bind_eq_some_iff, Option.pure_def, Option.some.injEq,
    Prod.mk.injEq, Prod.exists]
  constructor
  · rintro ⟨prompted, hprompted, gradMiddle, later, hlater, rfl, rfl⟩
    exact ⟨prompted, gradMiddle, later, hprompted, hlater, rfl, rfl⟩
  · rintro ⟨prompted, gradMiddle, later, hprompted, hlater, rfl, rfl⟩
    exact ⟨prompted, hprompted, gradMiddle, later, hlater, rfl, rfl⟩

theorem chainBackward_append {start first second : Nat}
    {inputs middle gradOutputs gradMiddle gradInputs : List Token} {earlier later : List (List Token)}
    (hforward : chainForward model prompts start first inputs = some middle)
    (hlater : chainBackward model prompts (start + first) second middle gradOutputs =
      some (gradMiddle, later))
    (hearlier : chainBackward model prompts start first inputs gradMiddle =
      some (gradInputs, earlier)) :
    chainBackward model prompts start (first + second) inputs gradOutputs =
      some (gradInputs, earlier ++ later) := by
  induction first generalizing start inputs gradInputs earlier with
  | zero =>
      cases hforward
      cases hearlier
      rwa [Nat.zero_add]
  | succ first ih =>
      obtain ⟨prompted, hprompted, hforward⟩ := chainForward_succ.mp hforward
      obtain ⟨other, gradNext, rest, hother, hrest, rfl, rfl⟩ := chainBackward_succ.mp hearlier
      cases hprompted.symm.trans hother
      rw [show start + (first + 1) = start + 1 + first by omega] at hlater
      rw [show first + 1 + second = first + second + 1 by omega, chainBackward_succ]
      refine ⟨prompted, gradNext, rest ++ later, hprompted, ih hforward hlater hrest, rfl, ?_⟩
      split
      · rfl
      · rfl

/-! The passes of one server over a stretch of blocks are those of the chain. -/

def stretch (model : RemoteModel Token) (prompts : List (List Token)) (start length : Nat) :
    List (TransformerBackend Token × List Token) :=
  (List.range' start length).map fun block => (model.backend block, prompts.getD block [])

omit [Add Token] in
theorem stretch_succ (start length : Nat) : stretch model prompts start (length + 1) =
    (model.backend start, prompts.getD start []) :: stretch model prompts (start + 1) length := by
  unfold stretch
  rw [List.range'_succ, List.map_cons]

theorem chainBackward_eq (start length : Nat) (inputs gradOutputs : List Token) :
    chainBackward model prompts start length inputs gradOutputs =
      backwardChain (stretch model prompts start length) inputs gradOutputs := by
  induction length generalizing start inputs with
  | zero => rfl
  | succ length ih =>
      rw [stretch_succ, backwardChain, chainBackward]
      simp only [ih]

section serving
variable (hprompts : prompts.all List.isEmpty = true ∨ prompts.length = model.numBlocks)
  {start stop : Nat} (hlt : start < stop) (hstop : stop ≤ model.numBlocks)
include hlt hstop

omit [Add Token] in
theorem backends_eq (span : RemoteSpanInfo PeerID) (hstart : span.start = start)
    (hend : span.stop = stop) :
    model.backends span = (List.range' start (stop - start)).map model.backend := by
  unfold RemoteModel.backends
  rw [hstart, hend, pySlice_range hlt.le hstop]

include hprompts

omit [Add Token] in
theorem splitPrompts_eq :
    splitPrompts ((List.range' start (stop - start)).map model.backend)
      (pySlice prompts (start : Int) stop) =
      (List.range' start (stop - start)).map fun block => prompts.getD block [] := by
  unfold splitPrompts
  rw [List.map_map, Function.comp_def, pySlice_rows hprompts hlt.le hstop]

theorem runRpcForward_eq (inputs : List Token) :
    runRpcForward ((List.range' start (stop - start)).map model.backend)
      (pySlice prompts (start : Int) stop) inputs =
      chainForward model prompts start (stop - start) inputs := by
  unfold runRpcForward chainForward
  rw [splitPrompts_eq hprompts hlt hstop, if_neg (by simp; omega), List.zip_map', List.foldlM_map]
  congr 1
  funext inputs block
  unfold blockForward
  cases addPrompt? (prompts.getD block []) inputs with
  | none => rfl
  | some prompted => rfl

theorem runRpcBackward_eq (inputs gradOutputs : List Token) :
    runRpcBackward ((List.range' start (stop - start)).map model.backend) inputs gradOutputs
      (pySlice prompts (start : Int) stop) =
      (chainBackward model prompts start (stop - start) inputs gradOutputs).map fun grads =>
        (grads.1, if grads.2.all List.isEmpty then [] else grads.2) := by
  have hsplit := splitPrompts_eq hprompts hlt hstop
  have hblocks : (List.range' start (stop - start)).map model.backend ≠ [] := by
    rw [ne_eq, List.map_eq_nil_iff, List.range'_eq_nil_iff]
    omega
  rw [runRpcBackward_eq_backwardChain hblocks (by rw [hsplit, List.length_map, List.length_map]),
    hsplit, List.zip_map', chainBackward_eq]
  rfl

end serving

end Peerz.Client
