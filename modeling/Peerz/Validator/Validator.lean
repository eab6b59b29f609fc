import Peerz.Library.Effects
import Peerz.Utils.Signature

/-! One iteration of a validator's loop: it compares the observed contributions with those of the
chain, and stores reports and its own record. The iteration swallows every error. -/
namespace Peerz.Validator
open Library Utils.Signature

inductive ValidatorError where
  | nameError
  | typeError
  | attributeError
  | indexError
  /-- raised by the node of the chain or by the encoding of a call to it -/
  | chainError
deriving DecidableEq

/-- Which of the two statements of the loop has stored a record; the record does not say. -/
inductive RecordSource where
  | ownRecord
  | report
deriving DecidableEq

structure ValidatorRecord where
  source : RecordSource
  peerIds : List String
  throughputs : List Int
  layers : List Int
  signature : String
deriving DecidableEq

structure Stored where
  subkey : String
  record : ValidatorRecord
deriving DecidableEq

/-- What the name `contributions` is bound to. -/
inductive Contributions where
  | list (values : List Int)
  | int (value : Int)

def Contributions.subscript : Contributions → Int → Except ValidatorError Int
  | list values, index => (pyGet? values index).elim (.error .indexError) .ok
  | int _, _ => .error .typeError

inductive ChainArray (Bytes32 : Type) where
  | bytes32s (values : List Bytes32)
  | uint256s (values : List Nat)

/-- The calls of the contract, with the outputs its interface gives them: two numbers, and the
parallel arrays of peer ids and of contributions. -/
structure Contract (Bytes32 : Type) where
  getActivePeers : Except ValidatorError (Nat × Nat)
  getActivePeersRange : Int → Int → Except ValidatorError (List Bytes32 × List Nat)

/-- The hash of a peer id, the two hexadecimal forms of a hash (of the `HexBytes` that
`solidity_keccak` returns and of the plain `bytes` of the contract), and the signature of one. -/
structure Crypto (PeerID Bytes32 : Type) where
  solidityKeccak : PeerID → Bytes32
  hexBytesHex : Bytes32 → String
  bytesHex : Bytes32 → String
  signData : String → Except ValidatorError String

abbrev Statement := Library.Statement ValidatorError (List Stored)

/-- The value of `throughputs`, `layers`, `signature` or `get_dht_time`: the module binds none
of these names. -/
def unboundName {α : Type} : Statement α := throw .nameError

def store (stored : Stored) : Statement Unit := modify fun log => log ++ [stored]

variable {PeerID Bytes32 : Type}

/-- `active_peers[i][0].hex()`, where `active_peers` is the pair of arrays. -/
def firstHex (bytesHex : Bytes32 → String) (activePeers : List (ChainArray Bytes32)) (i : Nat) :
    Except ValidatorError String :=
  match pyGet? activePeers i with
  | none => .error .indexError
  | some (.bytes32s values) => (pyGet? values 0).elim (.error .indexError) fun value =>
      .ok (bytesHex value)
  -- an integer has no method `hex`
  | some (.uint256s values) => (pyGet? values 0).elim (.error .indexError) fun _ =>
      .error .attributeError

def storeReport (crypto : Crypto PeerID Bytes32) (peerIds : List String) (peerId : String) :
    Statement Unit := do
  let _signatureHex ← Statement.expression (crypto.signData peerId)
  let throughputs ← unboundName
  let layers ← unboundName
  let signature ← unboundName
  let _expirationTime : Unit ← unboundName
  store ⟨peerId, ⟨.report, peerIds, throughputs, layers, signature⟩⟩

def shouldGetReported (peerIds : List String) (contributions : Contributions) (i : Nat)
    (peerId : String) : Except ValidatorError Bool :=
  if peerId ∈ peerIds then do
    let index := peerIds.idxOf peerId
    let observed ← contributions.subscript index
    let onChain ← contributions.subscript i
    return decide (observed ≠ onChain)
  else return true

def checkPeer (crypto : Crypto PeerID Bytes32) (peerIds : List String)
    (contributions : Contributions) (activePeers : List (ChainArray Bytes32)) (i : Nat) :
    Statement Unit := do
  let peerId ← Statement.expression (firstHex crypto.bytesHex activePeers i)
  let reported ← Statement.expression (shouldGetReported peerIds contributions i peerId)
  if reported then storeReport crypto peerIds peerId

/-- `sign_data` takes the private key and a peer id; here it is called with five arguments. -/
def storeOwnRecord (address : String) (peerIds : List String) : Statement Unit := do
  let throughputs ← unboundName
  let layers ← unboundName
  let signatureHex ← (throw .typeError : Statement String)
  let _expirationTime : Unit ← unboundName
  store ⟨address, ⟨.ownRecord, peerIds, throughputs, layers, signatureHex⟩⟩

def iteration (crypto : Crypto PeerID Bytes32) (contract : Contract Bytes32) (address : String)
    (state : List (HealthEntry PeerID)) : Statement Unit := do
  let prepared := prepareDataForSigning
    (fun peerId => crypto.hexBytesHex (crypto.solidityKeccak peerId)) state
  let _contributions := Contributions.list prepared.contributions
  let (activePeersLength, second) ← Statement.expression contract.getActivePeers
  -- the second output takes the name of the observed contributions
  let contributions := Contributions.int second
  let (peerArray, contributionArray) ← Statement.expression
    (contract.getActivePeersRange 0 (activePeersLength - 1))
  let activePeers := [ChainArray.bytes32s peerArray, ChainArray.uint256s contributionArray]
  let _printed ← Statement.expression (firstHex crypto.bytesHex activePeers 0)
  (List.range activePeersLength).forM (checkPeer crypto prepared.peerIds contributions activePeers)
  storeOwnRecord address prepared.peerIds

/-- What one iteration stores: an error ends it, and is only logged. -/
def storedByIteration (crypto : Crypto PeerID Bytes32) (contract : Contract Bytes32)
    (address : String) (state : List (HealthEntry PeerID)) : List Stored :=
  Library.Statement.finalState (iteration crypto contract address state) []

theorem raises_unboundName {α : Type} : Library.Statement.Raises (unboundName : Statement α) :=
  Library.Statement.raises_throw _

theorem storeReport_raises (crypto : Crypto PeerID Bytes32) (peerIds : List String)
    (peerId : String) : (storeReport crypto peerIds peerId).Raises :=
  (Library.Statement.silent_expression _).bind_raises fun _ => raises_unboundName.bind _

theorem storeOwnRecord_raises (address : String) (peerIds : List String) :
    (storeOwnRecord address peerIds).Raises := raises_unboundName.bind _

theorem checkPeer_silent (crypto : Crypto PeerID Bytes32) (peerIds : List String)
    (contributions : Contributions) (activePeers : List (ChainArray Bytes32)) (i : Nat) :
    (checkPeer crypto peerIds contributions activePeers i).Silent := by
  apply (Library.Statement.silent_expression _).bind
  intro peerId
  apply (Library.Statement.silent_expression _).bind
  intro reported
  split
  · exact (storeReport_raises crypto peerIds peerId).silent
  · exact Library.Statement.silent_pure _

/-- Every iteration ends in an error, and before any store. -/
theorem iteration_raises (crypto : Crypto PeerID Bytes32) (contract : Contract Bytes32)
    (address : String) (state : List (HealthEntry PeerID)) :
    (iteration crypto contract address state).Raises := by
  apply (Library.Statement.silent_expression _).bind_raises
  rintro ⟨activePeersLength, second⟩
  apply (Library.Statement.silent_expression _).bind_raises
  rintro ⟨peerArray, contributionArray⟩
  apply (Library.Statement.silent_expression _).bind_raises
  intro printed
  apply Library.Statement.Silent.bind_raises
  · exact Library.Statement.Silent.forM fun i => checkPeer_silent _ _ _ _ i
  · intro _
    exact storeOwnRecord_raises _ _

theorem storedByIteration_eq_nil (crypto : Crypto PeerID Bytes32) (contract : Contract Bytes32)
    (address : String) (state : List (HealthEntry PeerID)) :
    storedByIteration crypto contract address state = [] :=
  (iteration_raises crypto contract address state).silent.finalState []

/-- An active peer that should be reported: it is not observed, or the chain credits it with
another contribution than the observed one. -/
def Cheats (crypto : Crypto PeerID Bytes32) (state : List (HealthEntry PeerID))
    (peer : Bytes32 × Nat) : Prop :=
  (∀ item ∈ state, crypto.solidityKeccak item.peerId ≠ peer.1) ∨
    ∃ item ∈ state, crypto.solidityKeccak item.peerId = peer.1 ∧
      (item.throughput : Int) * item.layers ≠ peer.2

/-- Reports for the cheaters among the active peers and only for them, and after these the
validator's own record of the observed state. -/
def ReportsCheaters (crypto : Crypto PeerID Bytes32) (address : String)
    (state : List (HealthEntry PeerID)) (activePeers : List (Bytes32 × Nat))
    (stored : List Stored) : Prop :=
  ∃ reports own, stored = reports ++ [own] ∧
    (∀ peer ∈ activePeers, Cheats crypto state peer ↔
      ∃ report ∈ reports, report.record.source = .report ∧
        report.subkey = crypto.bytesHex peer.1) ∧
    own.subkey = address ∧ own.record.source = .ownRecord ∧
    own.record.throughputs = state.map (fun item => (item.throughput : Int)) ∧
    own.record.layers = state.map HealthEntry.layers

/-- Whatever the contract answers, and whichever peers are active on the chain, no iteration
reports the cheaters and stores the validator's record. -/
theorem iteration_not_reportsCheaters (crypto : Crypto PeerID Bytes32) (contract : Contract Bytes32)
    (address : String) (state : List (HealthEntry PeerID)) (activePeers : List (Bytes32 × Nat)) :
    ¬ ReportsCheaters crypto address state activePeers
      (storedByIteration crypto contract address state) := by
  rintro ⟨reports, own, hstored, -⟩
  rw [storedByIteration_eq_nil] at hstored
  exact List.append_ne_nil_of_right_ne_nil _ (List.cons_ne_nil _ _) hstored.symm

def ownHashes : Crypto Nat Nat where
  solidityKeccak := id
  hexBytesHex hash := "0x" ++ toString hash
  bytesHex hash := toString hash
  signData peerId := .ok peerId

/-- One honest peer, active on the chain with the contribution that is observed. -/
theorem iteration_honestPeer :
    ¬ ReportsCheaters ownHashes "0xA" [⟨17, 3, 2⟩] [(17, 6)]
      (storedByIteration ownHashes ⟨.ok (1, 6), fun _ _ => .ok ([17], [6])⟩ "0xA"
        [⟨17, 3, 2⟩]) := by
  have hstored : storedByIteration ownHashes ⟨.ok (1, 6), fun _ _ => .ok ([17], [6])⟩ "0xA"
      [⟨17, 3, 2⟩] = [] := by decide +kernel
  rintro ⟨reports, own, h, -⟩
  rw [hstored] at h
  exact List.append_ne_nil_of_right_ne_nil _ (List.cons_ne_nil _ _) h.symm

end Peerz.Validator
