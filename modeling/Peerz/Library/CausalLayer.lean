import Peerz.Library.Transducer

/-! Layers in which each token leaves a state and sees the states of the tokens up to itself. Such a
layer makes of all tokens at once what it makes of them one by one. -/
namespace Peerz.Library

variable {Token State Output Token' State' Output' : Type*}

theorem mapIdx_map {α β γ : Type*} (f : Nat → β → γ) (g : α → β) (items : List α) :
    (items.map g).mapIdx f = items.mapIdx fun index item => f index (g item) := by
  simp [List.mapIdx_eq_iff, Function.comp_def]

theorem map_mapIdx {α β γ : Type*} (f : β → γ) (g : Nat → α → β) (items : List α) :
    (items.mapIdx g).map f = items.mapIdx fun index item => f (g index item) := by
  apply List.ext_getElem?
  intro index
  simp [Function.comp_def]

theorem zipWith_mapIdx_map {α β γ δ : Type*} (f : α → γ → δ) (g : Nat → β → γ) (h : α → β)
    (items : List α) :
    List.zipWith f items ((items.map h).mapIdx g) =
      items.mapIdx fun index item => f item (g index (h item)) := by
  apply List.ext_getElem
  · simp
  · intro index _ _
    simp

structure CausalLayer (Token State Output : Type*) where
  newState : Nat → Token → State
  output : Nat → Token → List State → Output
  /-- an output does not depend on the states after its position -/
  causal : ∀ position token states later, position < states.length →
    output position token (states ++ later) = output position token states

namespace CausalLayer

variable (layer : CausalLayer Token State Output)

def states (past : List State) (tokens : List Token) : List State :=
  past ++ tokens.mapIdx fun index token => layer.newState (past.length + index) token

def run (past : List State) (tokens : List Token) : List Output × List State :=
  (tokens.mapIdx fun index token =>
    layer.output (past.length + index) token (layer.states past tokens), layer.states past tokens)

def next (past : List State) (token : Token) : Output × List State :=
  let states := past ++ [layer.newState past.length token]
  (layer.output past.length token states, states)

@[simp] theorem states_nil (past : List State) : layer.states past [] = past := by
  simp [states]

theorem states_cons (past : List State) (token : Token) (rest : List Token) :
    layer.states past (token :: rest) =
      layer.states (past ++ [layer.newState past.length token]) rest := by
  unfold states
  rw [List.mapIdx_cons, List.append_assoc, List.singleton_append]
  simp only [List.length_append, List.length_singleton, Nat.add_assoc, Nat.add_comm 1]
  rfl

theorem prefix_states (past : List State) (tokens : List Token) :
    past <+: layer.states past tokens :=
  List.prefix_append _ _

@[simp] theorem length_states (past : List State) (tokens : List Token) :
    (layer.states past tokens).length = past.length + tokens.length := by
  simp [states]

theorem run_cons (past : List State) (token : Token) (rest : List Token) :
    layer.run past (token :: rest) =
      ((layer.next past token).1 :: (layer.run (layer.next past token).2 rest).1,
        (layer.run (layer.next past token).2 rest).2) := by
  obtain ⟨later, hlater⟩ :=
    layer.prefix_states (past ++ [layer.newState past.length token]) rest
  unfold run next
  dsimp only
  rw [layer.states_cons, List.mapIdx_cons]
  refine Prod.ext (congrArg₂ List.cons ?_ ?_) rfl
  · rw [← hlater, Nat.add_zero]
    exact layer.causal _ _ _ later (by simp)
  · simp only [List.length_append, List.length_singleton, Nat.add_assoc, Nat.add_comm 1]

theorem run_eq (past : List State) (tokens : List Token) :
    layer.run past tokens = transduce layer.next past tokens := by
  induction tokens generalizing past with
  | nil => simp [run, transduce]
  | cons token rest ih =>
      rw [run_cons, ih]
      rfl

/-- A layer that sees less of each token, state and output, and does the same to that. -/
structure Maps (layer : CausalLayer Token State Output)
    (layer' : CausalLayer Token' State' Output') (ofToken : Token → Token')
    (ofState : State → State') (ofOutput : Output → Output') : Prop where
  newState : ∀ position token,
    layer'.newState position (ofToken token) = ofState (layer.newState position token)
  output : ∀ position token states,
    layer'.output position (ofToken token) (states.map ofState) =
      ofOutput (layer.output position token states)

section maps
variable {layer} {layer' : CausalLayer Token' State' Output'} {ofToken : Token → Token'}
  {ofState : State → State'} {ofOutput : Output → Output'}
  (h : layer.Maps layer' ofToken ofState ofOutput)
include h

theorem Maps.states (past : List State) (tokens : List Token) :
    layer'.states (past.map ofState) (tokens.map ofToken) =
      (layer.states past tokens).map ofState := by
  unfold CausalLayer.states
  rw [List.map_append, mapIdx_map, map_mapIdx, List.length_map]
  simp only [h.newState]

theorem Maps.run (past : List State) (tokens : List Token) :
    layer'.run (past.map ofState) (tokens.map ofToken) =
      ((layer.run past tokens).1.map ofOutput, (layer.run past tokens).2.map ofState) := by
  unfold CausalLayer.run
  rw [h.states, mapIdx_map, map_mapIdx, List.length_map]
  simp only [h.output]

theorem Maps.next (past : List State) (token : Token) :
    layer'.next (past.map ofState) (ofToken token) =
      (ofOutput (layer.next past token).1, (layer.next past token).2.map ofState) := by
  unfold CausalLayer.next
  rw [List.length_map, h.newState, List.map_append, List.map_singleton, ← h.output,
    List.map_append, List.map_singleton]

end maps

end CausalLayer
end Peerz.Library
