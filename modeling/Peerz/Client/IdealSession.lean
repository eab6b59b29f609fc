import Mathlib.Data.List.Induction
import Peerz.Client.InferenceSession

/-! The session that no failure ever meets, as the blocks applied to each call's inputs in
turn, and what it means for a server session to follow it. -/
namespace Peerz.Client
open Library Server

variable {PeerID Token Cache : Type}

/-- The blocks' caches, and all that has entered each block so far. -/
structure Ideal (Token Cache : Type) where
  caches : Nat → Cache
  entered : Nat → List Token

namespace Ideal

def new (model : BlockModel Token Cache) : Ideal Token Cache where
  caches := fun block => (model.block block).emptyCache
  entered := fun _ => []

section steps
variable [Add Token] (ideal : Ideal Token Cache) (model : BlockModel Token Cache)
  (call : StepCall Token)

def hidden : Nat → List Token
  | 0 => call.inputs
  | block + 1 => ((model.block block).inferenceStep call.hypoIds (ideal.caches block)
      (call.prompts.getD block []) (hidden block)).1

def outputs : List Token := ideal.hidden model call model.numBlocks

def nextCache (block : Nat) : Cache :=
  if call.inputs = [] then ideal.caches block
  else ((model.block block).inferenceStep call.hypoIds (ideal.caches block)
    (call.prompts.getD block []) (ideal.hidden model call block)).2

def step : Ideal Token Cache where
  caches := ideal.nextCache model call
  entered := fun block => ideal.entered block ++ ideal.hidden model call block

def after (calls : List (StepCall Token)) : Ideal Token Cache :=
  calls.foldl (fun ideal call => ideal.step model call) (new model)

end steps

variable [Add Token] {ideal : Ideal Token Cache} {model : BlockModel Token Cache}
  {call : StepCall Token}

@[simp] theorem hidden_length (block : Nat) :
    (ideal.hidden model call block).length = call.inputs.length := by
  induction block with
  | zero => rfl
  | succ block ih =>
      unfold hidden Block.inferenceStep
      rw [Block.length_forward, addPrompt_length, ih]

theorem hidden_eq_nil (hempty : call.inputs = []) (block : Nat) :
    ideal.hidden model call block = [] := by
  rw [← List.length_eq_zero_iff, hidden_length, hempty]
  rfl

theorem step_eq_self (hempty : call.inputs = []) : ideal.step model call = ideal := by
  unfold step nextCache
  simp [hempty, hidden_eq_nil hempty]

theorem hidden_congr {other : StepCall Token} (hinputs : other.inputs = call.inputs)
    (hhypo : other.hypoIds = call.hypoIds)
    (hprompts : ∀ block, other.prompts.getD block [] = call.prompts.getD block []) (block : Nat) :
    ideal.hidden model other block = ideal.hidden model call block := by
  induction block with
  | zero => exact hinputs
  | succ block ih =>
      unfold hidden
      rw [ih, hhypo, hprompts]

theorem step_congr {other : StepCall Token} (hinputs : other.inputs = call.inputs)
    (hhypo : other.hypoIds = call.hypoIds)
    (hprompts : ∀ block, other.prompts.getD block [] = call.prompts.getD block []) :
    ideal.step model other = ideal.step model call := by
  have hhidden : ∀ block, ideal.hidden model other block = ideal.hidden model call block :=
    hidden_congr hinputs hhypo hprompts
  unfold step nextCache
  simp only [hhidden, hinputs, hhypo, hprompts]

theorem after_concat (calls : List (StepCall Token)) (call : StepCall Token) :
    after model (calls ++ [call]) = (after model calls).step model call :=
  List.foldl_concat ..

theorem after_entered_length (model : BlockModel Token Cache) (calls : List (StepCall Token))
    (block : Nat) :
    ((after model calls).entered block).length =
      (calls.map fun call => call.inputs.length).sum := by
  induction calls using List.reverseRecOn with
  | nil => rfl
  | append_singleton calls call ih =>
      have hlast : ((after model calls).hidden model call block).length = call.inputs.length :=
        hidden_length block
      rw [after_concat, List.map_append, List.sum_append, ← ih, List.map_singleton,
        List.sum_singleton, ← hlast]
      exact List.length_append

end Ideal

section serving
variable [Add Token] {ideal : Ideal Token Cache} {model : BlockModel Token Cache}
  {call : StepCall Token}

theorem runBlocks_eq (ideal : Ideal Token Cache) (model : BlockModel Token Cache)
    (hprompts : ∀ block, (call.prompts.getD block []).length ≤ call.inputs.length)
    (hne : call.inputs ≠ []) (start length : Nat) :
    runBlocks call.hypoIds ((List.range' start length).map fun block =>
        (model.block block, ideal.caches block, call.prompts.getD block []))
      (ideal.hidden model call start) =
      some (ideal.hidden model call (start + length),
        (List.range' start length).map (ideal.nextCache model call)) := by
  induction length generalizing start with
  | zero => rfl
  | succ length ih =>
      rw [List.range'_succ, List.map_cons, runBlocks, if_pos (by simpa using hprompts start)]
      have hnext : ((model.block start).inferenceStep call.hypoIds (ideal.caches start)
          (call.prompts.getD start []) (ideal.hidden model call start)).1 =
          ideal.hidden model call (start + 1) := rfl
      have hcache : ((model.block start).inferenceStep call.hypoIds (ideal.caches start)
          (call.prompts.getD start []) (ideal.hidden model call start)).2 =
          ideal.nextCache model call start := (if_neg hne).symm
      dsimp only
      rw [hnext, ih (start + 1), hcache, List.map_cons,
        show start + 1 + length = start + (length + 1) by omega]
      rfl

/-- The server's end is open for the blocks of the span and holds their ideal caches. -/
structure Follows (model : BlockModel Token Cache) (ideal : Ideal Token Cache)
    (maxLength position start stop : Nat) (server : ServerSession Token Cache) : Prop where
  backends : server.backends = (List.range' start (stop - start)).map model.block
  caches : server.caches = (List.range' start (stop - start)).map ideal.caches
  maxLength : server.maxLength = maxLength
  prefixLength : server.prefixLength = position

/-- The checked prompts of a call, dummy ones left out. -/
structure Prompted (model : BlockModel Token Cache) (call : StepCall Token) : Prop where
  layers : call.prompts = [] ∨
    call.prompts.length = model.numBlocks ∧ ∀ prompt ∈ call.prompts, prompt ≠ []
  fits : ∀ block, (call.prompts.getD block []).length ≤ call.inputs.length

/-- One step of the server's end: its outputs and its caches are the ideal ones. -/
theorem Follows.process {maxLength position start stop : Nat} {server : ServerSession Token Cache}
    (h : Follows model ideal maxLength position start stop server) (hcall : Prompted model call)
    (hle : start ≤ stop) (hstop : stop ≤ model.numBlocks)
    (hlength : position + call.inputs.length ≤ maxLength) :
    ∃ server', server.process ⟨ideal.hidden model call start, pySlice call.prompts start stop,
        call.hypoIds⟩ = some (ideal.hidden model call stop, server') ∧
      Follows model (ideal.step model call) maxLength (position + call.inputs.length) start stop
        server' := by
  unfold ServerSession.process
  simp only [h.backends, h.caches, h.maxLength, h.prefixLength, Ideal.hidden_length]
  have hlayers : call.prompts.all List.isEmpty = true ∨ call.prompts.length = model.numBlocks :=
    hcall.layers.imp (fun hnone => by rw [hnone]; rfl) And.left
  have hprompts := pySlice_rows hlayers hle hstop
  rw [List.map_map, Function.comp_def, hprompts, if_neg (by simp), if_neg (by omega)]
  by_cases hempty : call.inputs = []
  · have hzero : call.inputs.length = 0 := by simp [hempty]
    refine ⟨server, ?_, ?_⟩
    · rw [if_pos hzero, Ideal.hidden_eq_nil hempty]
    · rwa [Ideal.step_eq_self hempty, hzero, Nat.add_zero]
  · rw [if_neg (by simpa using hempty)]
    have hruns := runBlocks_eq ideal model hcall.fits hempty start (stop - start)
    rw [List.zip_map', List.zip_map', hruns, Nat.add_sub_cancel' hle]
    exact ⟨_, rfl, rfl, rfl, rfl, rfl⟩

omit [Add Token] in
theorem follows_new {maxLength start stop : Nat} (hle : start ≤ stop)
    (hstop : stop ≤ model.numBlocks) :
    Follows model (Ideal.new model) maxLength 0 start stop
      (.new ((pySlice (List.range model.numBlocks) start stop).map model.block) maxLength) := by
  unfold ServerSession.new
  rw [pySlice_range hle hstop]
  exact ⟨rfl, by rw [List.map_map]; rfl, rfl, rfl⟩

end serving

end Peerz.Client
