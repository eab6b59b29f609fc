import Peerz.Client.Attempts

/-! The Bloom model whose transformer blocks the swarm serves. A token id stands for a column of
the batch. Tuned prompts come before the first tokens of a session, and the servers count them as
tokens. -/
namespace Peerz.Models
open Library Client

inductive TuningMode where
  | ptune
  | deepPtune
deriving DecidableEq

structure DistributedBloomModel (TokenId Token : Type) where
  /-- `none` where no prompts are tuned -/
  tuningMode : Option TuningMode
  preSeqLen : Nat
  promptEmbeddings : List Token
  /-- those of each block -/
  intermediatePromptEmbeddings : List (List Token)
  wordEmbeddings : TokenId → Token
  wordEmbeddingsLayernorm : Token → Token
  lnF : Token → Token
  promptEmbeddings_length : tuningMode.isSome → promptEmbeddings.length = preSeqLen

structure RemotePastKeyValues where
  seenTokens : Nat := 0
  hypoIds : List Nat := []
deriving DecidableEq

def RemotePastKeyValues.updateSeen (pastKeyValues : RemotePastKeyValues) (newSeen : Nat) :
    RemotePastKeyValues :=
  { pastKeyValues with seenTokens := pastKeyValues.seenTokens + newSeen }

variable {PeerID TokenId Token Cache : Type}

/-- The ids that `DistributedBloomForCausalLM` passes on, those not covered by the cache. The
attention mask is given by its length. -/
def prepareInputsForGeneration (inputIds : List TokenId)
    (pastKeyValues : Option RemotePastKeyValues) (attentionMask : Option Nat) : List TokenId :=
  match pastKeyValues with
  | none => inputIds
  | some pastKeyValues =>
      let pastLength := pastKeyValues.seenTokens
      let maskLength := attentionMask.getD 0
      if inputIds.length < maskLength then
        pySlice inputIds (-((maskLength : Int) - pastLength)) inputIds.length
      else if pastLength < inputIds.length then inputIds.drop pastLength
      else inputIds

namespace DistributedBloomModel
variable (bloom : DistributedBloomModel TokenId Token)

def prefixLength : Nat := if bloom.tuningMode.isSome then bloom.preSeqLen else 0

def getPrompt : List Token × List (List Token) :=
  (bloom.promptEmbeddings,
    if bloom.tuningMode = some .deepPtune then bloom.intermediatePromptEmbeddings else [])

variable [Add Token]

def usePrompts (session : InferenceSession PeerID Token Cache) : Bool :=
  bloom.tuningMode.isSome && session.position == 0

/-- The last hidden states with the cache and the session after them, `none` where it raises. -/
def forward (config : ClientConfig) (model : BlockModel Token Cache) (batchSize : Nat)
    (session : InferenceSession PeerID Token Cache) (inputIds : List TokenId)
    (pastKeyValues : Option RemotePastKeyValues) (attempts : List (Attempt PeerID)) :
    Option (List Token × RemotePastKeyValues × InferenceSession PeerID Token Cache) :=
  let usePrompts := bloom.usePrompts session
  let (prompts, intermediatePrompts) := if usePrompts then bloom.getPrompt else ([], [])
  let inputsEmbeds := prompts ++ inputIds.map bloom.wordEmbeddings
  let pastKeyValues := pastKeyValues.getD {}
  match session.step config model
      { inputs := inputsEmbeds.map bloom.wordEmbeddingsLayernorm
        batchSize := batchSize
        prompts := intermediatePrompts
        hypoIds := pastKeyValues.hypoIds } attempts with
  | .returned hiddenStates session =>
      let hiddenStates := if usePrompts then hiddenStates.drop bloom.preSeqLen else hiddenStates
      -- the final view has the shape of the ids
      if hiddenStates.length = inputIds.length then
        some (hiddenStates.map bloom.lnF, pastKeyValues.updateSeen hiddenStates.length, session)
      else none
  | .raised _ | .pending => none

variable {bloom} {config : ClientConfig} {model : BlockModel Token Cache} {batchSize : Nat}
  {session next : InferenceSession PeerID Token Cache} {inputIds : List TokenId}
  {pastKeyValues seen : RemotePastKeyValues} {attempts : List (Attempt PeerID)}
  {hiddenStates : List Token}

theorem forward_counts
    (h : bloom.forward config model batchSize session inputIds (some pastKeyValues) attempts =
      some (hiddenStates, seen, next)) :
    hiddenStates.length = inputIds.length ∧
      seen.seenTokens = pastKeyValues.seenTokens + inputIds.length ∧
      next.position = session.position + (if session.position = 0 then bloom.prefixLength else 0) +
        inputIds.length := by
  unfold forward at h
  dsimp only [Option.getD_some] at h
  split at h
  · rename_i outputs returned hstep
    obtain ⟨hview, hreturned⟩ := Option.ite_none_right_eq_some.mp h
    cases hreturned
    refine ⟨by rw [List.length_map, hview], congrArg _ hview, ?_⟩
    have hprompts : (if bloom.usePrompts session then bloom.getPrompt else ([], [])).1.length =
        if session.position = 0 then bloom.prefixLength else 0 := by
      unfold usePrompts getPrompt prefixLength
      by_cases htuned : bloom.tuningMode.isSome
      · by_cases hzero : session.position = 0
        · simp [htuned, hzero, bloom.promptEmbeddings_length htuned]
        · simp [hzero]
      · simp [htuned]
    rw [InferenceSession.step_position hstep, List.length_map, List.length_append,
      List.length_map, hprompts, Nat.add_assoc]
  · cases h
  · cases h

end DistributedBloomModel

/-- With a mask as long as the ids, what the cache has seen is left out, unless it has seen as many
tokens as there are ids. -/
theorem prepareInputsForGeneration_eq (inputIds : List TokenId)
    (pastKeyValues : RemotePastKeyValues) :
    prepareInputsForGeneration inputIds (some pastKeyValues) (some inputIds.length) =
      if pastKeyValues.seenTokens < inputIds.length then inputIds.drop pastKeyValues.seenTokens
      else inputIds := by
  unfold prepareInputsForGeneration
  exact if_neg (Nat.lt_irrefl _)

end Peerz.Models
