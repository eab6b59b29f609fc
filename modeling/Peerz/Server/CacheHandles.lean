import Mathlib.Data.List.Induction
import Peerz.Library.TableLog
import Peerz.Server.CacheAccounting

/-! The handles of the attention cache between the handlers, which issue them, and the runtime,
which keeps the tensors and learns of them through the pipe. -/
namespace Peerz.Server
open Library

variable {Device : Type} [DecidableEq Device]

namespace PipeMessage

/-- What the message makes the runtime do, in this order. -/
def changes (message : PipeMessage Device) : List (Change Int (TensorDescriptor Device)) :=
  match message.descriptors with
  | some descriptors =>
      (message.handles.zip descriptors).map fun entry => .put entry.1 entry.2
  | none => message.handles.map .drop

/-- A message that creates the tensor of the handle is among them, and none that deletes it
comes after. -/
def Created (messages : List (PipeMessage Device)) (handle : Int) : Prop :=
  ∃ earlier message later, messages = earlier ++ message :: later ∧ message.descriptors ≠ none ∧
    handle ∈ message.handles ∧ ∀ other ∈ later, other.descriptors = none → handle ∉ other.handles

/-- A message that deletes the tensor of the handle is among them, and none that creates it
comes after. -/
def Deleted (messages : List (PipeMessage Device)) (handle : Int) : Prop :=
  ∃ earlier message later, messages = earlier ++ message :: later ∧ message.descriptors = none ∧
    handle ∈ message.handles ∧ ∀ other ∈ later, other.descriptors ≠ none → handle ∉ other.handles

def issued (messages : List (PipeMessage Device)) : Nat :=
  (messages.map fun message => if message.descriptors = none then 0 else message.handles.length).sum

end PipeMessage

namespace PipeMessage
variable {messages : List (PipeMessage Device)} {message : PipeMessage Device} {handle : Int}

omit [DecidableEq Device] in
theorem split_concat {earlier later : List (PipeMessage Device)} {other : PipeMessage Device}
    (h : messages ++ [message] = earlier ++ other :: later) :
    (other = message ∧ later = []) ∨
      ∃ before, later = before ++ [message] ∧ messages = earlier ++ other :: before := by
  rcases List.eq_nil_or_concat' later with rfl | ⟨before, last, rfl⟩
  · exact .inl ⟨(List.append_inj' h rfl).2 |> fun h => (List.cons.inj h).1.symm, rfl⟩
  · rw [← List.cons_append, ← List.append_assoc] at h
    obtain ⟨hmessages, hlast⟩ := List.append_inj' h rfl
    exact .inr ⟨before, by rw [(List.cons.inj hlast).1], hmessages⟩

omit [DecidableEq Device] in
theorem created_concat_create (h : message.descriptors ≠ none) :
    Created (messages ++ [message]) handle ↔ handle ∈ message.handles ∨ Created messages handle := by
  constructor
  · rintro ⟨earlier, other, later, heq, hcreates, hmem, hlater⟩
    rcases split_concat heq with ⟨rfl, rfl⟩ | ⟨before, rfl, rfl⟩
    · exact .inl hmem
    · exact .inr ⟨earlier, other, before, rfl, hcreates, hmem,
        fun later hbefore => hlater later (List.mem_append_left _ hbefore)⟩
  · rintro (hmem | ⟨earlier, other, later, rfl, hcreates, hmem, hlater⟩)
    · exact ⟨messages, message, [], rfl, h, hmem, fun _ hlater => absurd hlater List.not_mem_nil⟩
    · refine ⟨earlier, other, later ++ [message], by simp, hcreates, hmem, ?_⟩
      intro last hlast hdeletes
      rcases List.mem_append.mp hlast with hlast | hlast
      · exact hlater last hlast hdeletes
      · rw [List.mem_singleton.mp hlast] at hdeletes
        exact absurd hdeletes h

omit [DecidableEq Device] in
theorem created_concat_delete (h : message.descriptors = none) :
    Created (messages ++ [message]) handle ↔ handle ∉ message.handles ∧ Created messages handle := by
  constructor
  · rintro ⟨earlier, other, later, heq, hcreates, hmem, hlater⟩
    rcases split_concat heq with ⟨rfl, rfl⟩ | ⟨before, rfl, rfl⟩
    · exact absurd h hcreates
    · exact ⟨hlater message (List.mem_append_right _ List.mem_cons_self) h,
        earlier, other, before, rfl, hcreates, hmem,
        fun later hbefore => hlater later (List.mem_append_left _ hbefore)⟩
  · rintro ⟨hgone, earlier, other, later, rfl, hcreates, hmem, hlater⟩
    refine ⟨earlier, other, later ++ [message], by simp, hcreates, hmem, ?_⟩
    intro last hlast hdeletes
    rcases List.mem_append.mp hlast with hlast | hlast
    · exact hlater last hlast hdeletes
    · rw [List.mem_singleton.mp hlast]
      exact hgone

omit [DecidableEq Device] in
theorem not_created_nil : ¬ Created ([] : List (PipeMessage Device)) handle := by
  rintro ⟨earlier, message, later, heq, -⟩
  exact absurd heq.symm (List.append_ne_nil_of_right_ne_nil _ (List.cons_ne_nil _ _))

omit [DecidableEq Device] in
theorem Deleted.not_created (h : Deleted messages handle) : ¬ Created messages handle := by
  induction messages using List.reverseRecOn with
  | nil => exact not_created_nil
  | append_singleton messages message ih =>
      obtain ⟨earlier, other, later, heq, hdeletes, hmem, hlater⟩ := h
      rcases split_concat heq with ⟨rfl, rfl⟩ | ⟨before, rfl, rfl⟩
      · rw [created_concat_delete hdeletes]
        exact fun hcreated => hcreated.1 hmem
      · have hbefore : Deleted (earlier ++ other :: before) handle :=
          ⟨earlier, other, before, rfl, hdeletes, hmem,
            fun last hlast => hlater last (List.mem_append_left _ hlast)⟩
        by_cases hkind : message.descriptors = none
        · rw [created_concat_delete hkind]
          exact fun hcreated => ih hbefore hcreated.2
        · rw [created_concat_create hkind]
          rintro (hnew | hcreated)
          · exact hlater message (List.mem_append_right _ List.mem_cons_self) hkind hnew
          · exact ih hbefore hcreated

omit [DecidableEq Device] in
theorem issued_append (left right : List (PipeMessage Device)) :
    issued (left ++ right) = issued left + issued right := by
  unfold issued
  rw [List.map_append, List.sum_append]

/-- The handles are apart from each other, and there is a descriptor for each that is created. -/
def Shaped (message : PipeMessage Device) : Prop :=
  message.handles.Nodup ∧
    ∀ descriptors, message.descriptors = some descriptors →
      descriptors.length = message.handles.length

omit [DecidableEq Device] in
theorem Shaped.replay {received : List (PipeMessage Device)}
    {table : Dict Int (TensorDescriptor Device)} (hshaped : message.Shaped)
    (htable : ∀ handle, (table.get? handle).isSome = true ↔ Created received handle) (handle : Int) :
    ((Library.replay table message.changes).get? handle).isSome = true ↔
      Created (received ++ [message]) handle := by
  rw [get?_replay]
  unfold changes
  cases hkind : message.descriptors with
  | none =>
      rw [created_concat_delete hkind, lastValue_drops]
      split
      · rename_i hmem
        simp [hmem]
      · rename_i hmem
        simp [hmem, htable]
  | some descriptors =>
      rw [created_concat_create (by simp [hkind]), lastValue_puts, htable,
        List.map_fst_zip (hshaped.2 descriptors hkind).ge]

end PipeMessage

/-- The cache with its runtime, and the history of its pipe. -/
structure CacheRuntime (Device : Type) [DecidableEq Device] where
  system : CacheSystem Device
  /-- the handles of the call of `use_cache` that reads the pipe -/
  draining : Option (List Int) := none
  sent : List (PipeMessage Device) := []
  /-- how many messages had been sent before the one that creates the tensors of a context -/
  grantedAt : Nat → Nat := fun _ => 0

inductive RuntimeEvent (Device : Type) where
  | handlers (event : CacheEvent Device)
  | useCache (handles : List Int)
  | receive
  /-- `poll` finds the pipe empty -/
  | drained

namespace CacheRuntime

def new (maxSizeBytes : Option Nat) (maxAllocTimeout : Option (WithTop ℚ)) : CacheRuntime Device where
  system := .new maxSizeBytes maxAllocTimeout

/-- The tensors that `use_cache` yields, `none` where it raises `KeyError`. -/
def lookUp (runtime : CacheRuntime Device) (handles : List Int) :
    Option (List (TensorDescriptor Device)) :=
  handles.mapM runtime.system.cache.allocatedTensors.get?

def handlersStep (runtime : CacheRuntime Device) (event : CacheEvent Device) :
    Option (CacheRuntime Device) := do
  let system ← runtime.system.step event
  return { runtime with
    system := system
    sent := runtime.sent ++ system.cache.pipe.drop runtime.system.cache.pipe.length
    grantedAt := fun id =>
      if CacheSystem.commitsOf id runtime.system event then runtime.sent.length
      else runtime.grantedAt id }

def step (runtime : CacheRuntime Device) : RuntimeEvent Device → Option (CacheRuntime Device)
  | .handlers .receive => none
  | .handlers event => runtime.handlersStep event
  | .useCache handles =>
      if runtime.draining = none then some { runtime with draining := some handles } else none
  | .receive =>
      if runtime.draining = none then none
      else do
        let system ← runtime.system.step .receive
        return { runtime with system := system }
  | .drained =>
      if runtime.draining ≠ none ∧ runtime.system.cache.pipe = [] then
        some { runtime with draining := none }
      else none

/-- Fewer than 2^64 handles have been issued since any allocation that is still live. -/
def FewIssued (runtime : CacheRuntime Device) : Prop :=
  ∀ id handles, runtime.system.standingOf id = .live handles →
    PipeMessage.issued (runtime.sent.drop (runtime.grantedAt id)) < 2 ^ 64

/-- The live allocations, the messages and the table of the runtime fit together. Each handle of
a live allocation is one of those that were issued last. -/
structure Consistent (runtime : CacheRuntime Device) : Prop where
  counter : runtime.system.cache.handleCounter = toInt64 (PipeMessage.issued runtime.sent)
  granted : ∀ id handles, runtime.system.standingOf id = .live handles →
    runtime.grantedAt id ≤ runtime.sent.length
  recent : ∀ id handles, runtime.system.standingOf id = .live handles → ∀ handle ∈ handles,
    ∃ back : Nat, 0 < back ∧
      back ≤ PipeMessage.issued (runtime.sent.drop (runtime.grantedAt id)) ∧
      toInt64 handle = toInt64 (PipeMessage.issued runtime.sent - back)
  nodup : ∀ id handles, runtime.system.standingOf id = .live handles → handles.Nodup
  disjoint : ∀ id other handles otherHandles, id ≠ other →
    runtime.system.standingOf id = .live handles →
    runtime.system.standingOf other = .live otherHandles → handles.Disjoint otherHandles
  held : ∀ handle, PipeMessage.Created runtime.sent handle ↔
    ∃ id handles, runtime.system.standingOf id = .live handles ∧ handle ∈ handles
  table : ∃ received, runtime.sent = received ++ runtime.system.cache.pipe ∧
    ∀ handle, (runtime.system.cache.allocatedTensors.get? handle).isSome = true ↔
      PipeMessage.Created received handle
  shaped : ∀ message ∈ runtime.sent, message.Shaped
  orderly : ∀ earlier message later, runtime.sent = earlier ++ message :: later →
    message.descriptors = none → ∀ handle ∈ message.handles, PipeMessage.Created earlier handle

section steps
variable {runtime next : CacheRuntime Device}

theorem Consistent.of_quiet (h : runtime.Consistent)
    (hcounter : next.system.cache.handleCounter = runtime.system.cache.handleCounter)
    (hlive : ∀ id handles,
      next.system.standingOf id = .live handles ↔ runtime.system.standingOf id = .live handles)
    (hsent : next.sent = runtime.sent) (hgranted : next.grantedAt = runtime.grantedAt)
    (hpipe : next.system.cache.pipe = runtime.system.cache.pipe)
    (htensors : next.system.cache.allocatedTensors = runtime.system.cache.allocatedTensors) :
    next.Consistent := by
  refine ⟨?_, ?_, ?_, ?_, ?_, ?_, ?_, ?_, ?_⟩
  all_goals simp only [hcounter, hlive, hsent, hgranted, hpipe, htensors]
  · exact h.counter
  · exact h.granted
  · exact h.recent
  · exact h.nodup
  · exact h.disjoint
  · exact h.held
  · exact h.table
  · exact h.shaped
  · exact h.orderly

omit [DecidableEq Device] in
theorem orderly_concat {messages : List (PipeMessage Device)} {message : PipeMessage Device}
    (h : ∀ earlier other later, messages = earlier ++ other :: later →
      other.descriptors = none → ∀ handle ∈ other.handles, PipeMessage.Created earlier handle)
    (hlast : message.descriptors = none →
      ∀ handle ∈ message.handles, PipeMessage.Created messages handle) :
    ∀ earlier other later, messages ++ [message] = earlier ++ other :: later →
      other.descriptors = none → ∀ handle ∈ other.handles, PipeMessage.Created earlier handle := by
  intro earlier other later heq
  rcases PipeMessage.split_concat heq with ⟨rfl, rfl⟩ | ⟨before, rfl, rfl⟩
  · obtain ⟨rfl, -⟩ := List.append_inj' heq rfl
    exact hlast
  · exact h earlier other before rfl

theorem Consistent.receive (h : runtime.Consistent) {message : PipeMessage Device}
    {cache : MemoryCache Device} (hpipe : runtime.system.cache.pipe = message :: cache.pipe)
    (hreceive : runtime.system.cache.receive = some cache) :
    Consistent { runtime with system := { runtime.system with cache := cache } } := by
  obtain ⟨-, -, hcounter⟩ := MemoryCache.receive_counters hreceive
  obtain ⟨received, hsent, htable⟩ := h.table
  have hmem : message ∈ runtime.sent := by
    rw [hsent, hpipe]
    exact List.mem_append_right _ List.mem_cons_self
  have htensors : cache.allocatedTensors =
      replay runtime.system.cache.allocatedTensors message.changes := by
    unfold MemoryCache.receive at hreceive
    rw [hpipe] at hreceive
    rw [← Option.some.inj hreceive]
    unfold PipeMessage.changes replay
    cases message.descriptors with
    | none => simp only [List.foldl_map, Change.apply]
    | some descriptors => simp only [List.foldl_map, Change.apply]
  refine ⟨hcounter.trans h.counter, h.granted, h.recent, h.nodup, h.disjoint, h.held, ?_, h.shaped,
    h.orderly⟩
  refine ⟨received ++ [message], ?_, ?_⟩
  · rw [hsent, hpipe, List.append_assoc]
    rfl
  · dsimp only
    rw [htensors]
    exact (h.shaped message hmem).replay htable

section sends
variable {message : PipeMessage Device}

theorem Consistent.granted_concat (h : runtime.Consistent) {id : Nat} {handles : List Int}
    (hlive : runtime.system.standingOf id = .live handles) :
    runtime.grantedAt id ≤ (runtime.sent ++ [message]).length := by
  rw [List.length_append]
  exact (h.granted id handles hlive).trans (Nat.le_add_right _ _)

theorem Consistent.lifetime_concat (h : runtime.Consistent) {id : Nat} {handles : List Int}
    (hlive : runtime.system.standingOf id = .live handles) :
    PipeMessage.issued ((runtime.sent ++ [message]).drop (runtime.grantedAt id)) =
      PipeMessage.issued (runtime.sent.drop (runtime.grantedAt id)) +
        PipeMessage.issued [message] := by
  rw [List.drop_append_of_le_length (h.granted id handles hlive), PipeMessage.issued_append]

theorem Consistent.table_concat (h : runtime.Consistent)
    (hsent : next.sent = runtime.sent ++ [message])
    (hpipe : next.system.cache.pipe = runtime.system.cache.pipe ++ [message])
    (htensors : next.system.cache.allocatedTensors = runtime.system.cache.allocatedTensors) :
    ∃ received, next.sent = received ++ next.system.cache.pipe ∧
      ∀ handle, (next.system.cache.allocatedTensors.get? handle).isSome = true ↔
        PipeMessage.Created received handle := by
  obtain ⟨received, hreceived, htable⟩ := h.table
  refine ⟨received, ?_, ?_⟩
  · rw [hsent, hpipe, hreceived, List.append_assoc]
  · rw [htensors]
    exact htable

theorem Consistent.shaped_concat (h : runtime.Consistent) (hmessage : message.Shaped)
    (hsent : next.sent = runtime.sent ++ [message]) : ∀ other ∈ next.sent, other.Shaped := by
  intro other hmem
  rw [hsent] at hmem
  rcases List.mem_append.mp hmem with hmem | hmem
  · exact h.shaped other hmem
  · rw [List.mem_singleton.mp hmem]
    exact hmessage

end sends

theorem Consistent.free (h : runtime.Consistent) {id : Nat} {handles : List Int}
    (hlive : runtime.system.standingOf id = .live handles)
    (hfreed : next.system.standingOf id = .freed)
    (hothers : ∀ other, other ≠ id → next.system.standingOf other = runtime.system.standingOf other)
    (hcounter : next.system.cache.handleCounter = runtime.system.cache.handleCounter)
    (hsent : next.sent = runtime.sent ++ [⟨handles, none⟩])
    (hgranted : next.grantedAt = runtime.grantedAt)
    (hpipe : next.system.cache.pipe = runtime.system.cache.pipe ++ [⟨handles, none⟩])
    (htensors : next.system.cache.allocatedTensors = runtime.system.cache.allocatedTensors) :
    next.Consistent := by
  have hbefore : ∀ other otherHandles, next.system.standingOf other = .live otherHandles →
      other ≠ id ∧ runtime.system.standingOf other = .live otherHandles := by
    intro other otherHandles hother
    have hne : other ≠ id := by
      rintro rfl
      cases hfreed.symm.trans hother
    exact ⟨hne, (hothers other hne).symm.trans hother⟩
  have hissued : PipeMessage.issued next.sent = PipeMessage.issued runtime.sent := by
    rw [hsent, PipeMessage.issued_append]
    rfl
  refine ⟨?_, ?_, ?_, ?_, ?_, ?_, ?_, ?_, ?_⟩
  · rw [hcounter, hissued]
    exact h.counter
  · intro other otherHandles hother
    rw [hgranted, hsent]
    exact h.granted_concat (hbefore other otherHandles hother).2
  · intro other otherHandles hother handle hmem
    obtain ⟨-, hother⟩ := hbefore other otherHandles hother
    obtain ⟨back, hpos, hle, hhandle⟩ := h.recent other otherHandles hother handle hmem
    refine ⟨back, hpos, ?_, by rw [hissued]; exact hhandle⟩
    rw [hgranted, hsent, h.lifetime_concat hother]
    exact hle.trans (Nat.le_add_right _ _)
  · intro other otherHandles hother
    exact h.nodup other otherHandles (hbefore other otherHandles hother).2
  · intro first second firstHandles secondHandles hne hfirst hsecond
    exact h.disjoint first second firstHandles secondHandles hne
      (hbefore first firstHandles hfirst).2 (hbefore second secondHandles hsecond).2
  · intro handle
    rw [hsent, PipeMessage.created_concat_delete rfl, h.held]
    constructor
    · rintro ⟨hgone, other, otherHandles, hother, hmem⟩
      have hne : other ≠ id := by
        rintro rfl
        cases hlive.symm.trans hother
        exact hgone hmem
      exact ⟨other, otherHandles, (hothers other hne).trans hother, hmem⟩
    · rintro ⟨other, otherHandles, hother, hmem⟩
      obtain ⟨hne, hother⟩ := hbefore other otherHandles hother
      exact ⟨h.disjoint other id otherHandles handles hne hother hlive hmem,
        other, otherHandles, hother, hmem⟩
  · exact h.table_concat hsent hpipe htensors
  · exact h.shaped_concat ⟨h.nodup id handles hlive, fun descriptors hcreated => by cases hcreated⟩
      hsent
  · rw [hsent]
    apply orderly_concat h.orderly
    intro _ handle hmem
    exact (h.held handle).mpr ⟨id, handles, hlive, hmem⟩

theorem toInt64_ne {issued back ahead : Nat} (hback : 0 < back) (hfew : back + ahead < 2 ^ 64) :
    toInt64 (issued - back) ≠ toInt64 (issued + ahead) := by
  unfold toInt64
  rw [Int.bmod_def, Int.bmod_def]
  omega

theorem newHandles_nodup (cache : MemoryCache Device) (task : AllocTask Device) :
    (cache.newHandles task).Nodup := by
  unfold MemoryCache.newHandles
  apply List.nodup_range.map
  intro left right heq
  simpa using heq

theorem Consistent.commit (h : runtime.Consistent) {id : Nat} {task : AllocTask Device}
    (hfew : next.FewIssued)
    (hbefore : runtime.system.standingOf id = .granted)
    (hlive : next.system.standingOf id = .live (runtime.system.cache.newHandles task))
    (hothers : ∀ other, other ≠ id → next.system.standingOf other = runtime.system.standingOf other)
    (hcounter : next.system.cache.handleCounter =
      toInt64 (runtime.system.cache.handleCounter + task.descriptors.length))
    (hsent : next.sent =
      runtime.sent ++ [⟨runtime.system.cache.newHandles task, some task.descriptors⟩])
    (hgranted : next.grantedAt = fun other =>
      if other = id then runtime.sent.length else runtime.grantedAt other)
    (hpipe : next.system.cache.pipe = runtime.system.cache.pipe ++
      [⟨runtime.system.cache.newHandles task, some task.descriptors⟩])
    (htensors : next.system.cache.allocatedTensors = runtime.system.cache.allocatedTensors) :
    next.Consistent := by
  have hlength : (runtime.system.cache.newHandles task).length = task.descriptors.length := by
    simp [MemoryCache.newHandles]
  have hissued : PipeMessage.issued next.sent =
      PipeMessage.issued runtime.sent + task.descriptors.length := by
    rw [hsent, PipeMessage.issued_append]
    simp [PipeMessage.issued, hlength]
  have hgrantedId : next.grantedAt id = runtime.sent.length := by
    rw [hgranted]
    exact if_pos rfl
  have hlifetime : PipeMessage.issued (next.sent.drop (next.grantedAt id)) =
      task.descriptors.length := by
    rw [hgrantedId, hsent]
    simp [PipeMessage.issued, hlength]
  -- the old allocations live on, and so do their places in the history
  have hold : ∀ other otherHandles, other ≠ id → next.system.standingOf other = .live otherHandles →
      runtime.system.standingOf other = .live otherHandles ∧
      next.grantedAt other = runtime.grantedAt other ∧
      PipeMessage.issued (next.sent.drop (next.grantedAt other)) =
        PipeMessage.issued (runtime.sent.drop (runtime.grantedAt other)) +
          task.descriptors.length := by
    intro other otherHandles hne hother
    rw [hothers other hne] at hother
    have hgrantedAt : next.grantedAt other = runtime.grantedAt other := by
      rw [hgranted]
      exact if_neg hne
    refine ⟨hother, hgrantedAt, ?_⟩
    rw [hgrantedAt, hsent, h.lifetime_concat hother]
    simp [PipeMessage.issued, hlength]
  have hnew : ∀ handle, handle ∈ runtime.system.cache.newHandles task ↔
      ∃ ahead, ahead < task.descriptors.length ∧
        toInt64 (PipeMessage.issued runtime.sent) + (ahead : Nat) = handle := by
    intro handle
    rw [← h.counter]
    simp [MemoryCache.newHandles]
  have hfresh : ∀ other otherHandles, runtime.system.standingOf other = .live otherHandles →
      otherHandles.Disjoint (runtime.system.cache.newHandles task) := by
    intro other otherHandles hother handle hmem hnewMem
    have hne : other ≠ id := by
      rintro rfl
      cases hbefore.symm.trans hother
    obtain ⟨back, hpos, hle, hhandle⟩ := h.recent other otherHandles hother handle hmem
    obtain ⟨ahead, hahead, rfl⟩ := (hnew handle).mp hnewMem
    have hbound := hfew other otherHandles ((hothers other hne).trans hother)
    rw [(hold other otherHandles hne ((hothers other hne).trans hother)).2.2] at hbound
    rw [toInt64_add] at hhandle
    exact toInt64_ne hpos (show back + ahead < 2 ^ 64 by omega) hhandle.symm
  refine ⟨?_, ?_, ?_, ?_, ?_, ?_, ?_, ?_, ?_⟩
  · rw [hcounter, hissued, h.counter, toInt64_add]
    congr 1
  · intro other otherHandles hother
    rw [hsent]
    by_cases hid : other = id
    · rw [hid, hgrantedId, List.length_append]
      exact Nat.le_add_right _ _
    · obtain ⟨hother, hgrantedAt, -⟩ := hold other otherHandles hid hother
      rw [hgrantedAt]
      exact h.granted_concat hother
  · intro other otherHandles hother handle hmem
    by_cases hid : other = id
    · subst hid
      cases hlive.symm.trans hother
      obtain ⟨ahead, hahead, rfl⟩ := (hnew handle).mp hmem
      refine ⟨task.descriptors.length - ahead, by omega, by omega, ?_⟩
      rw [toInt64_add, hissued]
      congr 1
      omega
    · obtain ⟨hother, -, hdrop⟩ := hold other otherHandles hid hother
      obtain ⟨back, hpos, hle, hhandle⟩ := h.recent other otherHandles hother handle hmem
      refine ⟨back + task.descriptors.length, by omega, by omega, ?_⟩
      rw [hhandle, hissued]
      congr 1
      omega
  · intro other otherHandles hother
    by_cases hid : other = id
    · subst hid
      cases hlive.symm.trans hother
      exact newHandles_nodup _ task
    · exact h.nodup other otherHandles (hold other otherHandles hid hother).1
  · intro first second firstHandles secondHandles hne hfirst hsecond
    by_cases hfirstId : first = id
    · subst hfirstId
      cases hlive.symm.trans hfirst
      exact List.disjoint_symm
        (hfresh second secondHandles (hold second secondHandles hne.symm hsecond).1)
    · have hfirst := (hold first firstHandles hfirstId hfirst).1
      by_cases hsecondId : second = id
      · subst hsecondId
        cases hlive.symm.trans hsecond
        exact hfresh first firstHandles hfirst
      · exact h.disjoint first second firstHandles secondHandles hne hfirst
          (hold second secondHandles hsecondId hsecond).1
  · intro handle
    rw [hsent, PipeMessage.created_concat_create (Option.some_ne_none _), h.held]
    constructor
    · rintro (hmem | ⟨other, otherHandles, hother, hmem⟩)
      · exact ⟨id, _, hlive, hmem⟩
      · have hne : other ≠ id := by
          rintro rfl
          cases hbefore.symm.trans hother
        exact ⟨other, otherHandles, (hothers other hne).trans hother, hmem⟩
    · rintro ⟨other, otherHandles, hother, hmem⟩
      by_cases hid : other = id
      · subst hid
        cases hlive.symm.trans hother
        exact .inl hmem
      · exact .inr ⟨other, otherHandles, (hold other otherHandles hid hother).1, hmem⟩
  · exact h.table_concat hsent hpipe htensors
  · refine h.shaped_concat ⟨newHandles_nodup _ task, ?_⟩ hsent
    intro descriptors hdescriptors
    cases hdescriptors
    exact hlength.symm
  · rw [hsent]
    exact orderly_concat h.orderly fun hdeleted => by cases hdeleted

theorem consistent_handlersStep {event : CacheEvent Device} (h : runtime.Consistent)
    (hstep : runtime.handlersStep event = some next) (hevent : event ≠ .receive)
    (hfew : next.FewIssued) : next.Consistent := by
  obtain ⟨system, hsystem, hnext⟩ := Option.bind_eq_some_iff.mp hstep
  cases hnext
  have hquiet : system.cache.handleCounter = runtime.system.cache.handleCounter →
      system.cache.pipe = runtime.system.cache.pipe →
      system.cache.allocatedTensors = runtime.system.cache.allocatedTensors →
      (∀ id, CacheSystem.commitsOf id runtime.system event = false) →
      (∀ id handles, system.standingOf id = .live handles ↔
        runtime.system.standingOf id = .live handles) →
      Consistent { runtime with
        system := system
        sent := runtime.sent ++ system.cache.pipe.drop runtime.system.cache.pipe.length
        grantedAt := fun id =>
          if CacheSystem.commitsOf id runtime.system event then runtime.sent.length
          else runtime.grantedAt id } := by
    intro hcounter hpipe htensors hcommits hlive
    refine h.of_quiet hcounter hlive ?_ ?_ hpipe htensors
    · dsimp only
      rw [hpipe, List.drop_length, List.append_nil]
    · funext id
      dsimp only
      rw [hcommits]
      rfl
  cases CacheSystem.step_effect hsystem with
  | opens task scheduled cache tasks =>
      apply hquiet (by rw [cache]) (by rw [cache]) (by rw [cache])
      · exact fun _ => rfl
      · intro id handles
        rw [CacheSystem.standingOf_opens scheduled tasks]
  | strays apart running tasks books =>
      apply hquiet books.handleCounter books.pipe books.allocatedTensors
      · intro id
        cases event with
        | task other taskEvent => exact absurd rfl (apart other taskEvent)
        | allocate descriptors timeout | strayWaits position | strayGivesUp position |
            strayAcquires | receive => rfl
      · intro id handles
        rw [CacheSystem.standingOf_of_tasks tasks]
  | receives message pipe tasks received => exact absurd rfl hevent
  | @steps id taskEvent task task' found tasks allocSize descriptors effect =>
      obtain ⟨hbefore, hafter⟩ := CacheSystem.standingOf_set_self found tasks
      have hothers : ∀ other, other ≠ id →
          system.standingOf other = runtime.system.standingOf other :=
        fun other hne => CacheSystem.standingOf_set_ne tasks hne.symm
      cases effect with
      | stays books standing kept =>
          apply hquiet books.handleCounter books.pipe books.allocatedTensors
          · apply CacheSystem.commitsOf_eq_false found
            rcases kept with ⟨-, hgranted⟩ | rfl
            · exact .inl hgranted
            · exact .inr (by simp)
          · apply CacheSystem.standingOf_live_iff found tasks
            intro handles
            rw [standing]
      | enqueues before after books =>
          apply hquiet books.handleCounter books.pipe books.allocatedTensors
          · exact CacheSystem.commitsOf_eq_false found (.inl (by simp [before]))
          · apply CacheSystem.standingOf_live_iff found tasks
            intro handles
            rw [after, before]
            simp [AllocPhase.standing]
      | dequeues before after books =>
          apply hquiet books.handleCounter books.pipe books.allocatedTensors
          · apply CacheSystem.commitsOf_eq_false found
            left
            intro hgranted
            rw [hgranted] at before
            cases before
          · apply CacheSystem.standingOf_live_iff found tasks
            intro handles
            rcases after with after | after
            · simp [after, before]
            · simp [after, before]
      | commits before after books =>
          refine h.commit hfew ?_ (hafter.trans after) hothers books.handleCounter ?_ ?_ books.pipe
            books.allocatedTensors
          · rw [hbefore, before]
            rfl
          · dsimp only
            rw [books.pipe, List.drop_left]
          · funext other
            by_cases hid : other = id
            · simp [CacheSystem.commitsOf, found, before, hid]
            · simp [CacheSystem.commitsOf, hid, Ne.symm hid]
      | frees handles before after books =>
          refine h.free ?_ (hafter.trans after) hothers books.handleCounter ?_ ?_ books.pipe
            books.allocatedTensors
          · rw [hbefore, before]
            rfl
          · dsimp only
            rw [books.pipe, List.drop_left]
          · rfl

theorem consistent_step {event : RuntimeEvent Device} (h : runtime.Consistent)
    (hstep : runtime.step event = some next) (hfew : next.FewIssued) : next.Consistent := by
  cases event with
  | handlers event =>
      cases event with
      | receive => cases hstep
      | allocate descriptors timeout | task id taskEvent | strayWaits position
      | strayGivesUp position | strayAcquires =>
          exact consistent_handlersStep h hstep (fun hreceive => by cases hreceive) hfew
  | useCache handles =>
      unfold step at hstep
      dsimp only at hstep
      split at hstep
      · cases hstep
        exact h.of_quiet rfl (fun _ _ => Iff.rfl) rfl rfl rfl rfl
      · cases hstep
  | receive =>
      unfold step at hstep
      dsimp only at hstep
      split at hstep
      · cases hstep
      · obtain ⟨system, hsystem, hnext⟩ := Option.bind_eq_some_iff.mp hstep
        cases hnext
        cases CacheSystem.step_effect hsystem with
        | receives message pipe tasks received =>
            obtain ⟨cache, systemTasks⟩ := system
            cases tasks
            exact h.receive pipe received
        | strays apart running tasks books => exact absurd rfl running
  | drained =>
      unfold step at hstep
      dsimp only at hstep
      split at hstep
      · cases hstep
        exact h.of_quiet rfl (fun _ _ => Iff.rfl) rfl rfl rfl rfl
      · cases hstep

theorem consistent_new (maxSizeBytes : Option Nat) (maxAllocTimeout : Option (WithTop ℚ)) :
    (new maxSizeBytes maxAllocTimeout : CacheRuntime Device).Consistent := by
  have hscheduled : ∀ id, (new maxSizeBytes maxAllocTimeout : CacheRuntime Device).system.standingOf
      id = .scheduled := by
    intro id
    simp [new, CacheSystem.new, CacheSystem.standingOf]
  have hdead : ∀ id handles, (new maxSizeBytes maxAllocTimeout : CacheRuntime Device).system.standingOf
      id ≠ .live handles := by
    intro id handles hlive
    cases (hscheduled id).symm.trans hlive
  refine ⟨?_, ?_, ?_, ?_, ?_, ?_, ?_, ?_, ?_⟩
  · exact (toInt64_natCast (Nat.two_pow_pos 63)).symm
  · exact fun id handles hlive => absurd hlive (hdead id handles)
  · exact fun id handles hlive => absurd hlive (hdead id handles)
  · exact fun id handles hlive => absurd hlive (hdead id handles)
  · exact fun id _ handles _ _ hlive => absurd hlive (hdead id handles)
  · intro handle
    constructor
    · exact fun hcreated => absurd hcreated PipeMessage.not_created_nil
    · rintro ⟨id, handles, hlive, -⟩
      exact absurd hlive (hdead id handles)
  · refine ⟨[], rfl, fun handle => ?_⟩
    constructor
    · exact fun hmem => by cases hmem
    · exact fun hcreated => absurd hcreated PipeMessage.not_created_nil
  · exact fun _ hmem => absurd hmem List.not_mem_nil
  · intro earlier message later heq
    exact absurd heq.symm (List.append_ne_nil_of_right_ne_nil _ (List.cons_ne_nil _ _))

end steps

section consequences
variable {runtime : CacheRuntime Device} (h : runtime.Consistent)
include h

theorem Consistent.mem_keys (hpipe : runtime.system.cache.pipe = []) (handle : Int) :
    handle ∈ runtime.system.cache.allocatedTensors.keys ↔
      PipeMessage.Created runtime.sent handle := by
  obtain ⟨received, hsent, htable⟩ := h.table
  rw [hpipe, List.append_nil] at hsent
  rw [Dict.mem_keys_iff_isSome, htable, hsent]

theorem Consistent.delete_finds {message : PipeMessage Device} {pipe : List (PipeMessage Device)}
    (hpipe : runtime.system.cache.pipe = message :: pipe) (hdelete : message.descriptors = none)
    {earlier later : List Int} {handle : Int}
    (hhandles : message.handles = earlier ++ handle :: later) :
    handle ∈ (earlier.foldl Dict.erase runtime.system.cache.allocatedTensors).keys := by
  obtain ⟨received, hsent, htable⟩ := h.table
  rw [hpipe] at hsent
  have hmem : handle ∈ message.handles := by
    rw [hhandles]
    exact List.mem_append_right _ List.mem_cons_self
  have hcreated := h.orderly received message pipe hsent hdelete handle hmem
  have hnodup := (h.shaped message (by rw [hsent]; simp)).1
  have hfresh : handle ∉ earlier := by
    rw [hhandles] at hnodup
    exact fun hearlier => (List.nodup_append.mp hnodup).2.2 handle hearlier handle
      List.mem_cons_self rfl
  have herase : earlier.foldl Dict.erase runtime.system.cache.allocatedTensors =
      replay runtime.system.cache.allocatedTensors (earlier.map .drop) := by
    unfold replay
    simp only [List.foldl_map, Change.apply]
  rw [Dict.mem_keys_iff_isSome, herase, get?_replay, lastValue_drops, if_neg hfresh, htable]
  exact hcreated

omit h in
theorem lookUp_isSome (runtime : CacheRuntime Device) (handles : List Int) :
    (runtime.lookUp handles).isSome = true ↔
      ∀ handle ∈ handles, handle ∈ runtime.system.cache.allocatedTensors.keys := by
  unfold lookUp
  induction handles with
  | nil => simp
  | cons handle handles ih =>
      rw [List.forall_mem_cons, ← ih, Dict.mem_keys_iff_isSome, List.mapM_cons]
      cases runtime.system.cache.allocatedTensors.get? handle with
      | none => simp
      | some tensor => cases List.mapM runtime.system.cache.allocatedTensors.get? handles <;> simp

end consequences

/-- No two live allocations share a handle. Where the pipe is drained the runtime holds exactly
the handles that were created and not deleted. A message that deletes finds each of its handles,
and `use_cache` yields the tensors of live handles but raises `KeyError` on a deleted one. -/
theorem handles_run {maxSizeBytes : Option Nat} {maxAllocTimeout : Option (WithTop ℚ)}
    {events : List (RuntimeEvent Device)} {runtime : CacheRuntime Device}
    (h : LeadsTo step (new maxSizeBytes maxAllocTimeout) events runtime)
    (hfew : EveryState step FewIssued (new maxSizeBytes maxAllocTimeout) events) :
    (∀ id handles, runtime.system.standingOf id = .live handles → handles.Nodup ∧
        ∀ other otherHandles, id ≠ other → runtime.system.standingOf other = .live otherHandles →
          handles.Disjoint otherHandles) ∧
      (runtime.system.cache.pipe = [] → ∀ handle,
        (handle ∈ runtime.system.cache.allocatedTensors.keys ↔
          PipeMessage.Created runtime.sent handle)) ∧
      (∀ message pipe, runtime.system.cache.pipe = message :: pipe → message.descriptors = none →
        ∀ earlier handle later, message.handles = earlier ++ handle :: later →
          handle ∈ (earlier.foldl Dict.erase runtime.system.cache.allocatedTensors).keys) ∧
      ∀ next handles, runtime.draining = some handles → runtime.step .drained = some next →
        ((∀ handle ∈ handles, ∃ id held, runtime.system.standingOf id = .live held ∧ handle ∈ held) →
            (runtime.lookUp handles).isSome = true) ∧
          ((∃ handle ∈ handles, PipeMessage.Deleted runtime.sent handle) →
            runtime.lookUp handles = none) := by
  have hconsistent : runtime.Consistent :=
    hfew.invariant (fun _ _ _ h hstep hnext => consistent_step h hstep hnext) h
      (consistent_new maxSizeBytes maxAllocTimeout)
  refine ⟨?_, fun hpipe => hconsistent.mem_keys hpipe, ?_, ?_⟩
  · intro id handles hlive
    exact ⟨hconsistent.nodup id handles hlive, fun other otherHandles hne hother =>
      hconsistent.disjoint id other handles otherHandles hne hlive hother⟩
  · intro message pipe hpipe hdelete earlier handle later hhandles
    exact hconsistent.delete_finds hpipe hdelete hhandles
  · intro next handles hdraining hdrained
    have hpipe : runtime.system.cache.pipe = [] := by
      unfold step at hdrained
      dsimp only at hdrained
      split at hdrained
      · rename_i hready
        exact hready.2
      · cases hdrained
    constructor
    · intro hlive
      rw [lookUp_isSome]
      intro handle hmem
      rw [hconsistent.mem_keys hpipe, hconsistent.held]
      exact hlive handle hmem
    · rintro ⟨handle, hmem, hdeleted⟩
      rw [← Option.not_isSome_iff_eq_none, lookUp_isSome]
      intro hfound
      exact hdeleted.not_created ((hconsistent.mem_keys hpipe handle).mp (hfound handle hmem))

private def oneFreed : List (RuntimeEvent Unit) :=
  [.handlers (.allocate [⟨[3], .uint8, some ()⟩, ⟨[3], .uint8, some ()⟩] none),
      .handlers (.allocate [⟨[4], .uint8, some ()⟩] none)] ++
    List.replicate 7 (.handlers (.task 0 .advance)) ++
    List.replicate 7 (.handlers (.task 1 .advance)) ++
    [.useCache [0, 1, 2], .receive, .receive, .drained, .handlers (.task 0 .free), .useCache [2],
      .receive]

theorem handles_run_oneFreed :
    ∃ runtime : CacheRuntime Unit, LeadsTo step (new (some 10) none) oneFreed runtime ∧
      (runtime.lookUp [2]).isSome = true := by
  have hissued : EveryState step (fun runtime => PipeMessage.issued runtime.sent < 2 ^ 64)
      (new (some 10) none : CacheRuntime Unit) oneFreed := by decide +kernel
  have hfew : EveryState step FewIssued (new (some 10) none : CacheRuntime Unit) oneFreed := by
    apply hissued.mono
    intro runtime hsent id handles _
    apply lt_of_le_of_lt _ hsent
    rw [← List.take_append_drop (runtime.grantedAt id) runtime.sent, PipeMessage.issued_append]
    simp
  have hruns : ((oneFreed.foldlM step (new (some 10) none)).map
      fun runtime : CacheRuntime Unit => (runtime.draining, runtime.system.standingOf 1,
        (runtime.step .drained).isSome)) = some (some [2], .live [2], true) := by decide +kernel
  obtain ⟨runtime, hrun, hstate⟩ := Option.map_eq_some_iff.mp hruns
  obtain ⟨hdraining, hrest⟩ := Prod.mk.inj hstate
  obtain ⟨hlive, hdrained⟩ := Prod.mk.inj hrest
  obtain ⟨next, hnext⟩ := Option.isSome_iff_exists.mp hdrained
  refine ⟨runtime, hrun, ((handles_run hrun hfew).2.2.2 next [2] hdraining hnext).1 ?_⟩
  intro handle hmem
  exact ⟨1, [2], hlive, hmem⟩

end CacheRuntime
end Peerz.Server
