import Peerz.Library.Checked
import Peerz.Library.PySequence
import Peerz.Validator.Validator

/-! One round of the sequencer: the data of the transaction, assembled from the entries that the
validators have stored under one key. -/
namespace Peerz.Sequencer
open Library Validator

inductive SequencerError where
  | attributeError
  | stopIteration
  | indexError
  | nameError
deriving DecidableEq

structure TransactionArguments where
  peers : List String
  throughputs : List Int
  layers : List Int
  total : Int
  signatures : List String
  addresses : List String
deriving DecidableEq

def products (layers throughputs : List Int) : Except SequencerError (List Int) :=
  (List.range layers.length).mapM fun i : Nat =>
    match pyGet? layers (i : Int), pyGet? throughputs (i : Int) with
    | some layer, some throughput => .ok (layer * throughput)
    | _, _ => .error .indexError

/-- The entries under `_peerz.validators`, by subkey; `none` where the answer of the DHT is
absent or no dictionary. -/
def assembleArguments (record : Option (Dict String ValidatorRecord)) :
    Except SequencerError TransactionArguments :=
  match record with
  | none => .error .attributeError
  | some data =>
      let addresses := data.keys
      match data.values with
      | [] => .error .stopIteration
      | firstValidatorData :: _ => do
          let peers := firstValidatorData.peerIds
          let throughputs := firstValidatorData.throughputs
          let layers := firstValidatorData.layers
          let signatures := data.values.map ValidatorRecord.signature
          let total := (← products layers throughputs).sum
          return ⟨peers, throughputs, layers, total, signatures, addresses⟩

structure Round where
  assembled : Option TransactionArguments
  raised : Option SequencerError
deriving DecidableEq

/-- After the arguments the round asks `w3` for a nonce; the module does not bind that name. -/
def runRound (record : Option (Dict String ValidatorRecord)) : Round :=
  match assembleArguments record with
  | .error e => ⟨none, some e⟩
  | .ok arguments => ⟨some arguments, some .nameError⟩

/-- The total that a validator signs along with its throughputs and layers. -/
def signedTotal (record : ValidatorRecord) : Int :=
  (List.zipWith (· * ·) record.throughputs record.layers).sum

/-- A validator's own record whose data is the submitted one. -/
structure Agrees (record : ValidatorRecord) (arguments : TransactionArguments) : Prop where
  own : record.source = .ownRecord
  peers : record.peerIds = arguments.peers
  throughputs : record.throughputs = arguments.throughputs
  layers : record.layers = arguments.layers
  total : signedTotal record = arguments.total

/-- Each submitted signature and address are those of an entry that agrees. -/
def AgreedOnly (data : Dict String ValidatorRecord) (arguments : TransactionArguments) : Prop :=
  arguments.signatures.length = arguments.addresses.length ∧
    ∀ address signature, (address, signature) ∈ arguments.addresses.zip arguments.signatures →
      ∃ record, data.get? address = some record ∧ record.signature = signature ∧
        Agrees record arguments

theorem products_ok {layers throughputs : List Int} (h : layers.length ≤ throughputs.length) :
    products layers throughputs = .ok (List.zipWith (· * ·) throughputs layers) := by
  have hproducts : products layers throughputs =
      .ok ((List.range layers.length).map fun i => layers.getD i 0 * throughputs.getD i 0) := by
    apply mapM_eq_ok
    intro i hi
    have hlayer := List.mem_range.mp hi
    have hthroughput := hlayer.trans_le h
    rw [pyGet?_natCast, pyGet?_natCast, List.getElem?_eq_getElem hlayer,
      List.getElem?_eq_getElem hthroughput, List.getD_eq_getElem _ _ hlayer,
      List.getD_eq_getElem _ _ hthroughput]
  rw [hproducts]
  congr 1
  apply List.ext_getElem
  · rw [List.length_map, List.length_range, List.length_zipWith, Nat.min_eq_right h]
  · intro i hleft hright
    rw [List.length_map, List.length_range] at hleft
    rw [List.getElem_map, List.getElem_range, List.getElem_zipWith,
      List.getD_eq_getElem _ _ hleft, List.getD_eq_getElem _ _ (hleft.trans_le h), Int.mul_comm]

theorem products_error {layers throughputs : List Int} (h : throughputs.length < layers.length) :
    products layers throughputs = .error .indexError := by
  apply mapM_eq_error
  · intro i _
    split
    · exact .inl ⟨_, rfl⟩
    · exact .inr rfl
  · refine ⟨throughputs.length, List.mem_range.mpr h, ?_⟩
    have hbeyond : pyGet? throughputs (throughputs.length : Nat) = none := by
      rw [pyGet?_natCast, List.getElem?_eq_none (Nat.le_refl _)]
    rw [hbeyond]
    split
    · rename_i hnone
      cases hnone
    · rfl

theorem assembled_eq_some_iff (data : Dict String ValidatorRecord)
    (arguments : TransactionArguments) :
    (runRound (some data)).assembled = some arguments ↔
      ∃ first rest, data.values = first :: rest ∧
        first.layers.length ≤ first.throughputs.length ∧
        arguments = ⟨first.peerIds, first.throughputs, first.layers, signedTotal first,
          data.values.map ValidatorRecord.signature, data.keys⟩ := by
  unfold runRound assembleArguments
  dsimp only
  cases hvalues : data.values with
  | nil => simp
  | cons first rest =>
      dsimp only
      rcases Nat.lt_or_ge first.throughputs.length first.layers.length with hlt | hle
      · rw [products_error hlt]
        refine iff_of_false nofun ?_
        rintro ⟨other, others, hsplit, hle, -⟩
        cases hsplit
        omega
      · rw [products_ok hle]
        constructor
        · intro h
          cases h
          exact ⟨first, rest, rfl, hle, rfl⟩
        · rintro ⟨other, others, hsplit, -, rfl⟩
          cases hsplit
          rfl

/-- Every entry is a validator's own record with the data of the first one. -/
def Unanimous (data : Dict String ValidatorRecord) (first : ValidatorRecord) : Prop :=
  ∀ record ∈ data.values, record.source = .ownRecord ∧ record.peerIds = first.peerIds ∧
    record.throughputs = first.throughputs ∧ record.layers = first.layers

theorem mem_zip_addresses {data : Dict String ValidatorRecord} {address signature : String} :
    (address, signature) ∈ data.keys.zip (data.values.map ValidatorRecord.signature) ↔
      ∃ record, data.get? address = some record ∧ record.signature = signature := by
  rw [Dict.keys, Dict.values, List.map_map, List.zip_map', List.mem_map]
  constructor
  · rintro ⟨entry, hentry, hpair⟩
    cases hpair
    exact ⟨entry.2, Dict.get?_eq_some_iff.mpr hentry, rfl⟩
  · rintro ⟨record, hget, rfl⟩
    exact ⟨(address, record), Dict.get?_eq_some_iff.mp hget, rfl⟩

/-- Only agreed data is submitted exactly when the entries are unanimous, or the round stops
before the data is assembled. -/
theorem assembled_agreedOnly_iff (record : Option (Dict String ValidatorRecord)) :
    (∀ data arguments, record = some data → (runRound record).assembled = some arguments →
      AgreedOnly data arguments) ↔
    ∀ data first, record = some data → data.values.head? = some first →
      first.layers.length ≤ first.throughputs.length → Unanimous data first := by
  constructor
  · rintro h data first rfl hfirst hlength stored hstored
    obtain ⟨rest, hvalues⟩ := List.head?_eq_some_iff.mp hfirst
    obtain ⟨-, hagreed⟩ := h data _ rfl ((assembled_eq_some_iff data _).mpr
      ⟨first, rest, hvalues, hlength, rfl⟩)
    obtain ⟨address, hget⟩ := Dict.mem_values_iff.mp hstored
    obtain ⟨found, hfound, -, hagrees⟩ := hagreed address stored.signature
      (mem_zip_addresses.mpr ⟨stored, hget, rfl⟩)
    cases Option.some.inj (hget.symm.trans hfound)
    exact ⟨hagrees.own, hagrees.peers, hagrees.throughputs, hagrees.layers⟩
  · rintro h data arguments rfl hassembled
    obtain ⟨first, rest, hvalues, hlength, rfl⟩ := (assembled_eq_some_iff data _).mp hassembled
    have hunanimous := h data first rfl (by rw [hvalues]; rfl) hlength
    refine ⟨by simp [Dict.keys, Dict.values], fun address signature hmem => ?_⟩
    obtain ⟨stored, hget, hsignature⟩ := mem_zip_addresses.mp hmem
    obtain ⟨hown, hpeers, hthroughputs, hlayers⟩ :=
      hunanimous stored (Dict.mem_values_iff.mpr ⟨address, hget⟩)
    refine ⟨stored, hget, hsignature, ⟨hown, hpeers, hthroughputs, hlayers, ?_⟩⟩
    rw [signedTotal, hthroughputs, hlayers, signedTotal]

def disagreeingRecords : Dict String ValidatorRecord :=
  ⟨[("0xA", ⟨.ownRecord, ["p"], [1], [4], "a"⟩), ("0xB", ⟨.ownRecord, ["p"], [2], [4], "b"⟩)],
    by decide⟩

/-- The second validator's signature goes with the first one's data. -/
theorem assembled_disagreeing :
    (runRound (some disagreeingRecords)).assembled =
      some ⟨["p"], [1], [4], 4, ["a", "b"], ["0xA", "0xB"]⟩ ∧
    ¬ ∀ data arguments, some disagreeingRecords = some data →
      (runRound (some disagreeingRecords)).assembled = some arguments →
        AgreedOnly data arguments := by
  have hassembled : (runRound (some disagreeingRecords)).assembled =
      some ⟨["p"], [1], [4], 4, ["a", "b"], ["0xA", "0xB"]⟩ := by decide +kernel
  refine ⟨hassembled, fun h => ?_⟩
  obtain ⟨-, hagreed⟩ := h _ _ rfl hassembled
  obtain ⟨record, hget, -, hagrees⟩ := hagreed "0xB" "b" (by decide)
  have hrecord : disagreeingRecords.get? "0xB" = some ⟨.ownRecord, ["p"], [2], [4], "b"⟩ := by
    decide +kernel
  cases Option.some.inj (hrecord.symm.trans hget)
  exact absurd hagrees.throughputs (by decide)

end Peerz.Sequencer
