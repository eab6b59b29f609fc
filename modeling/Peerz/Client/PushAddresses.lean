import Peerz.Client.PushedInputs
import Peerz.DataStructures
import Peerz.Library.PySequence

/-! The uids of pushed requests. A client session is over the uids at its span's places in the
client's sequence; the server that pushes to it takes these places for block numbers. -/
namespace Peerz.Client
open Library Server

def uidText (uid : ModuleUID) : String := uid.dhtPrefix ++ "." ++ toString uid.index

def joinUids (uids : List ModuleUID) : String := " ".intercalate (uids.map uidText)

/-- `_check_uids`, where `none` is an error; `served` are the keys of `module_backends`. -/
def checkUids (served : List String) (uids : String) : Option (List String) :=
  let requested := (uids.split ' ').toList.map String.Slice.copy
  if ∀ uid ∈ requested, uid ∈ served then some requested else none

structure DHTPrefix where
  text : String
  noUidDelimiter : '.' ∉ text.toList
  noChainDelimiter : ' ' ∉ text.toList

def moduleUids (dhtPrefix : DHTPrefix) (start count : Nat) : List ModuleUID :=
  (List.range' start count).map fun index => ⟨dhtPrefix.text, index⟩

inductive RemoteSequential (dhtPrefix : DHTPrefix) where
  | new (startBlock endBlock : Nat)
  | slice (sequential : RemoteSequential dhtPrefix) (start stop : Int)

variable {dhtPrefix : DHTPrefix} {PeerID SessionId StepId Token Wire : Type}

namespace RemoteSequential

def blockUids : RemoteSequential dhtPrefix → List ModuleUID
  | new startBlock endBlock => moduleUids dhtPrefix startBlock (endBlock - startBlock)
  | slice sequential start stop => pySlice sequential.blockUids start stop

def firstBlock : RemoteSequential dhtPrefix → Nat
  | new startBlock _ => startBlock
  | slice sequential start _ => sequential.firstBlock + pyClamp sequential.blockUids.length start

/-- `block_uids[span.start:span.end]` of a client session. -/
def sessionUids (sequential : RemoteSequential dhtPrefix)
    (session : NextServer PeerID SessionId) : List ModuleUID :=
  pySlice sequential.blockUids session.start session.stop

end RemoteSequential

/-- The uids that `_push_outputs` makes of an entry of `next_servers`. -/
def nextUids (dhtPrefix : DHTPrefix) (next : NextServer PeerID SessionId) : List ModuleUID :=
  moduleUids dhtPrefix next.start (next.stop - next.start)

/-- The push has the uid of the client's session, and the server takes it if it serves the blocks
of that session. -/
def PushedToSession (sequential : RemoteSequential dhtPrefix)
    (next : NextServer PeerID SessionId) : Prop :=
  joinUids (nextUids dhtPrefix next) = joinUids (sequential.sessionUids next) ∧
    ∀ served, (∀ uid ∈ sequential.sessionUids next, uidText uid ∈ served) →
      (checkUids served (joinUids (nextUids dhtPrefix next))).isSome = true

theorem pySlice_moduleUids (start count : Nat) (low high : Int) :
    pySlice (moduleUids dhtPrefix start count) low high =
      moduleUids dhtPrefix (start + pyClamp count low) (pyClamp count high - pyClamp count low) := by
  have hlength : (moduleUids dhtPrefix start count).length = count := by
    rw [moduleUids, List.length_map, List.length_range']
  unfold pySlice
  rw [hlength]
  unfold moduleUids
  rw [← List.map_take, ← List.map_drop, List.take_range'_of_length_ge (pyClamp_le count high),
    List.drop_range', Nat.mul_one]

theorem RemoteSequential.blockUids_eq (sequential : RemoteSequential dhtPrefix) :
    sequential.blockUids =
      moduleUids dhtPrefix sequential.firstBlock sequential.blockUids.length := by
  induction sequential with
  | new startBlock endBlock =>
      simp only [blockUids, firstBlock, moduleUids, List.length_map, List.length_range']
  | slice sequential start stop ih =>
      have hslice : (slice sequential start stop).blockUids =
          moduleUids dhtPrefix (slice sequential start stop).firstBlock
            (pyClamp sequential.blockUids.length stop -
              pyClamp sequential.blockUids.length start) := by
        have hblocks := @pySlice_moduleUids dhtPrefix sequential.firstBlock
          sequential.blockUids.length start stop
        rwa [← ih] at hblocks
      rw [hslice]
      simp only [moduleUids, List.length_map, List.length_range']

theorem RemoteSequential.sessionUids_eq (sequential : RemoteSequential dhtPrefix)
    {session : NextServer PeerID SessionId} (hspan : session.start < session.stop)
    (hinside : session.stop ≤ sequential.blockUids.length) :
    sequential.sessionUids session =
      moduleUids dhtPrefix (sequential.firstBlock + session.start)
        (session.stop - session.start) := by
  rw [sessionUids, sequential.blockUids_eq, pySlice_moduleUids, pyClamp_natCast hinside,
    pyClamp_natCast (hspan.le.trans hinside)]

section text

theorem not_mem_uidText {uid : ModuleUID} (h : ' ' ∉ uid.dhtPrefix.toList) :
    ' ' ∉ (uidText uid).toList := by
  have hdigits : ' ' ∉ Nat.toDigits 10 uid.index := fun hmem =>
    absurd (Nat.isDigit_of_mem_toDigits (by decide) (by decide) hmem) (by decide)
  simp [uidText, h, hdigits]

theorem uidText_injective {dhtPrefix : String} {left right : Nat}
    (h : uidText ⟨dhtPrefix, left⟩ = uidText ⟨dhtPrefix, right⟩) : left = right := by
  have hdigits : Nat.toDigits 10 left = Nat.toDigits 10 right := by
    have hlist := congrArg String.toList h
    simpa [uidText, Nat.toString_eq_ofList_toDigits] using hlist
  calc
    left = Nat.ofDigitChars 10 (Nat.toDigits 10 left) 0 := Nat.ofDigitChars_ten_toDigits.symm
    _ = Nat.ofDigitChars 10 (Nat.toDigits 10 right) 0 := by rw [hdigits]
    _ = right := Nat.ofDigitChars_ten_toDigits

theorem split_joinUids {uids : List ModuleUID} (hnonempty : uids ≠ [])
    (hclean : ∀ uid ∈ uids, ' ' ∉ uid.dhtPrefix.toList) :
    ((joinUids uids).split ' ').toList.map String.Slice.copy = uids.map uidText := by
  have htext : ∀ text ∈ uids.map uidText, ' ' ∉ text.toList := by
    intro text htext
    obtain ⟨uid, huid, rfl⟩ := List.mem_map.mp htext
    exact not_mem_uidText (hclean uid huid)
  refine (String.toList_split_intercalate htext).trans (if_neg ?_)
  rwa [List.map_eq_nil_iff]

theorem checkUids_joinUids {uids : List ModuleUID} (hnonempty : uids ≠ [])
    (hclean : ∀ uid ∈ uids, ' ' ∉ uid.dhtPrefix.toList) (served : List String) :
    checkUids served (joinUids uids) =
      if ∀ uid ∈ uids, uidText uid ∈ served then some (uids.map uidText) else none := by
  unfold checkUids
  rw [split_joinUids hnonempty hclean]
  simp only [List.forall_mem_map]

theorem moduleUids_clean {start count : Nat} :
    ∀ uid ∈ moduleUids dhtPrefix start count, ' ' ∉ uid.dhtPrefix.toList := by
  intro uid huid
  obtain ⟨index, -, rfl⟩ := List.mem_map.mp huid
  exact dhtPrefix.noChainDelimiter

theorem moduleUids_ne_nil {start count : Nat} (hcount : 0 < count) :
    moduleUids dhtPrefix start count ≠ [] := by
  intro h
  have hlength := congrArg List.length h
  rw [moduleUids, List.length_map, List.length_range'] at hlength
  exact hcount.ne' hlength

theorem joinUids_moduleUids_inj {left right count : Nat} (hcount : 0 < count) :
    joinUids (moduleUids dhtPrefix left count) = joinUids (moduleUids dhtPrefix right count) ↔
      left = right := by
  constructor
  · intro h
    have hsplit (start : Nat) :=
      split_joinUids (@moduleUids_ne_nil dhtPrefix start count hcount) moduleUids_clean
    have htexts := (hsplit left).symm.trans (h ▸ hsplit right)
    obtain ⟨later, rfl⟩ := Nat.exists_eq_add_of_lt hcount
    simp only [moduleUids, Nat.zero_add, List.range'_succ, List.map_cons, List.cons.injEq] at htexts
    exact uidText_injective htexts.1
  · intro h
    rw [h]

end text

/-- The places of the sequence are the block numbers only where the sequence starts with the first
block of the model. -/
theorem pushedToSession_iff (sequential : RemoteSequential dhtPrefix)
    {next : NextServer PeerID SessionId} (hspan : next.start < next.stop)
    (hinside : next.stop ≤ sequential.blockUids.length) :
    PushedToSession sequential next ↔ sequential.firstBlock = 0 := by
  have hcount : 0 < next.stop - next.start := Nat.sub_pos_of_lt hspan
  have hsame : joinUids (nextUids dhtPrefix next) = joinUids (sequential.sessionUids next) ↔
      sequential.firstBlock = 0 := by
    rw [sequential.sessionUids_eq hspan hinside, nextUids, joinUids_moduleUids_inj hcount]
    omega
  constructor
  · intro h
    exact hsame.mp h.1
  · intro hfirst
    have htext := hsame.mpr hfirst
    refine ⟨htext, ?_⟩
    intro served hserves
    rw [htext, sequential.sessionUids_eq hspan hinside,
      checkUids_joinUids (moduleUids_ne_nil hcount) moduleUids_clean,
      ← sequential.sessionUids_eq hspan hinside, if_pos hserves]
    rfl

/-- In every run, each push goes to the right blocks exactly where the sequence starts with the
first block of the model. -/
theorem pushes_toSession_iff [DecidableEq SessionId] [DecidableEq StepId]
    (sequential : RemoteSequential dhtPrefix)
    {pipeline : Pipeline PeerID SessionId StepId Token Wire}
    (hspans : ∀ session ∈ pipeline.chain,
      session.start < session.stop ∧ session.stop ≤ sequential.blockUids.length)
    {events : List (PipelineEvent SessionId StepId Token)}
    {final : PipelineState PeerID SessionId StepId Token Wire}
    (hrun : LeadsTo pipeline.step {} events final)
    {push : NextServer PeerID SessionId × StepRequest PeerID SessionId StepId Token Wire}
    (hpush : push ∈ final.pushed) :
    PushedToSession sequential push.1 ↔ sequential.firstBlock = 0 := by
  obtain ⟨serverIdx, session, stepIdx, outputs, opening, hfor⟩ :=
    (Fed.run hrun).2.pushed push hpush
  obtain ⟨hspan, hinside⟩ := hspans push.1 (List.mem_of_getElem? hfor.receiver)
  exact pushedToSession_iff sequential hspan hinside

def shortPrefix : DHTPrefix where
  text := "m"
  noUidDelimiter := by decide
  noChainDelimiter := by decide

theorem pushes_toSession_pushFirst :
    ∃ push ∈ (afterEvents pushFirst).pushed,
      PushedToSession (.new 0 2 : RemoteSequential shortPrefix) push.1 := by
  have hrun := @leadsTo_afterEvents pushFirst (by decide +kernel)
  have hpush : (⟨(), 2, 1, 2⟩, ⟨⟨[7], [], []⟩, ⟨2, some 11, [], true⟩⟩) ∈
      (afterEvents pushFirst).pushed := by decide +kernel
  refine ⟨_, hpush, ?_⟩
  exact (pushes_toSession_iff (.new 0 2 : RemoteSequential shortPrefix) (by decide) hrun
    hpush).mpr rfl

/-- Over blocks 2 and 3, the push for the session of block 3 names block 1: a server of block 3
alone does not take it. -/
theorem pushes_wrongBlock :
    LeadsTo twoServers.step {} pushFirst (afterEvents pushFirst) ∧
    (⟨(), 2, 1, 2⟩, ⟨⟨[7], [], []⟩, ⟨2, some 11, [], true⟩⟩) ∈ (afterEvents pushFirst).pushed ∧
    ((.new 2 4 : RemoteSequential shortPrefix).sessionUids
      (⟨(), 2, 1, 2⟩ : NextServer Unit Nat)).map uidText = ["m.3"] ∧
    checkUids ["m.3"] (joinUids (nextUids shortPrefix (⟨(), 2, 1, 2⟩ : NextServer Unit Nat))) =
      none := by
  refine ⟨leadsTo_afterEvents (by decide +kernel), by decide +kernel, by decide, ?_⟩
  have hclean := @moduleUids_clean shortPrefix 1 1
  exact (checkUids_joinUids (by decide) hclean ["m.3"]).trans (if_neg (by decide))

end Peerz.Client
