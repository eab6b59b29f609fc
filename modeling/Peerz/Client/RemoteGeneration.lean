import Peerz.Library.Runs
import Peerz.Models.Bloom

/-! Generation with the Bloom model: the calls of `generate` in one inference session, each around
a greedy loop that runs one forward for each new token. -/
namespace Peerz.Client
open Library Models

structure GreedyState (PeerID TokenId Token Cache : Type) where
  session : InferenceSession PeerID Token Cache
  pastKeyValues : RemotePastKeyValues
  /-- all the tokens so far -/
  inputIds : List TokenId
  /-- the ids that have been passed to the transformer, in all the calls -/
  fed : List TokenId

structure GenerateCall (PeerID TokenId : Type) where
  inputs : Option (List TokenId)
  /-- the attempts that each of the forwards takes -/
  first : List (Attempt PeerID)
  later : List (List (Attempt PeerID))

structure Generation (PeerID TokenId Token Cache : Type) where
  session : InferenceSession PeerID Token Cache
  outputIds : Option (List TokenId)
  /-- a context variable, which `prepareInputsForGeneration` of Bloom does not read -/
  skippedTokens : Nat
  fed : List TokenId

/-- The language model and the configuration of its client. The next token depends on the tokens
so far and the last of the hidden states. -/
structure CausalLM (TokenId Token Cache : Type) where
  config : ClientConfig
  blocks : BlockModel Token Cache
  transformer : DistributedBloomModel TokenId Token
  bosTokenId : Option TokenId
  batchSize : Nat
  nextToken : List TokenId → Token → TokenId

variable {PeerID TokenId Token Cache : Type}

def Generation.new (maxLength : Nat) : Generation PeerID TokenId Token Cache :=
  ⟨.new maxLength, none, 0, []⟩

namespace CausalLM
variable [Add Token] (lm : CausalLM TokenId Token Cache)

/-- One turn of the loop. Without hidden states there is no next token. -/
def greedyStep (state : GreedyState PeerID TokenId Token Cache)
    (attempts : List (Attempt PeerID)) : Option (GreedyState PeerID TokenId Token Cache) :=
  let inputIds := prepareInputsForGeneration state.inputIds (some state.pastKeyValues)
    (some state.inputIds.length)
  match lm.transformer.forward lm.config lm.blocks lm.batchSize state.session inputIds
      (some state.pastKeyValues) attempts with
  | none => none
  | some (hiddenStates, pastKeyValues, session) =>
      hiddenStates.getLast?.map fun last =>
        { session := session
          pastKeyValues := pastKeyValues
          inputIds := state.inputIds ++ [lm.nextToken state.inputIds last]
          fed := state.fed ++ inputIds }

/-- The tokens from the previous calls with the new inputs. Where there is neither, generation
starts with the token for the beginning of a text. -/
def allInputs (prevTokens : List TokenId) (inputs : Option (List TokenId)) :
    Option (List TokenId) :=
  if 0 < prevTokens.length then some (prevTokens ++ inputs.getD [])
  else inputs <|> lm.bosTokenId.map fun token => [token]

/-- The new tokens of a call, with the inputs where it is the first one. `none` where it raises. -/
def generate (generation : Generation PeerID TokenId Token Cache)
    (call : GenerateCall PeerID TokenId) :
    Option (List TokenId × Generation PeerID TokenId Token Cache) := do
  let prevTokens := generation.outputIds.getD []
  let nPrevTokens := prevTokens.length
  let inputs ← lm.allInputs prevTokens call.inputs
  let skippedTokens := if 0 < nPrevTokens then nPrevTokens - 1 else generation.skippedTokens
  let pastKeyValues := RemotePastKeyValues.updateSeen {} generation.session.position
  let final ← (call.first :: call.later).foldlM lm.greedyStep
    { session := generation.session
      pastKeyValues := pastKeyValues
      inputIds := inputs
      fed := generation.fed }
  return (final.inputIds.drop nPrevTokens,
    { session := final.session
      outputIds := some final.inputIds
      skippedTokens := skippedTokens
      fed := final.fed })

def generateStep (generation : Generation PeerID TokenId Token Cache)
    (call : GenerateCall PeerID TokenId) : Option (Generation PeerID TokenId Token Cache) :=
  (lm.generate generation call).map Prod.snd

end CausalLM
end Peerz.Client
