import Peerz.Library.Dict
import Peerz.Server.PoolPriority

/-! What becomes of the tasks of a pool. A handler puts its task in the queue and then counts it in
the pipe; the runtime loads it, and sets its future once the outcome is there. -/
namespace Peerz.Server
open Library

variable {Priority Time Output : Type}

section waiting
variable [LinearOrder Priority] [LinearOrder Time] {pool next : TaskPool Priority Time}

namespace TaskPool

def entering (pool : TaskPool Priority Time) :
    TaskPoolEvent Priority Time → List (PoolTask Priority Time)
  | .submit task => if pool.maxBatchSize < task.size then [] else [task]
  | _ => []

def leaving : TaskPoolEvent Priority Time → List (PoolTask Priority Time)
  | .load task => [task]
  | _ => []

theorem waiting_step {event : TaskPoolEvent Priority Time} (hstep : pool.step event = some next) :
    (pool.entering event ++ pool.waiting).Perm (leaving event ++ next.waiting) := by
  cases event with
  | submit task =>
      cases hstep
      unfold entering leaving
      dsimp only
      split
      · exact .refl _
      · have hmiddle : (task :: (pool.underway ++ pool.orderedTasks)).Perm
            (pool.underway ++ task :: pool.orderedTasks) := List.perm_middle.symm
        simpa [waiting, underway] using hmiddle
  | readPriority _ | readTimestamp _ _ | writePriority _ | writeTimestamp _ =>
      obtain ⟨-, hnext⟩ := Option.ite_none_right_eq_some.mp hstep
      cases hnext
      exact .refl _
  | take =>
      obtain ⟨task, rest, hmoving, hsubmitted, rfl⟩ := take_eq_some hstep
      simp [entering, leaving, waiting, underway, hmoving, hsubmitted]
  | place =>
      obtain ⟨task, hmoving, rfl⟩ := Option.map_eq_some_iff.mp hstep
      simpa [entering, leaving, waiting, underway, hmoving] using List.perm_middle.symm
  | load task =>
      obtain ⟨-, hmem, rfl⟩ := load_eq_some hstep
      exact ((List.perm_cons_erase hmem).append_left _).trans List.perm_middle
  | peek =>
      obtain ⟨-, rfl⟩ := peek_eq_some hstep
      exact .refl _
  | overwritePriority =>
      obtain ⟨key, -, rfl⟩ := overwritePriority_eq_some hstep
      exact .refl _
  | overwriteTimestamp =>
      obtain ⟨timestamp, -, rfl⟩ := overwriteTimestamp_eq_some hstep
      exact .refl _

theorem maxBatchSize_step {event : TaskPoolEvent Priority Time}
    (hstep : pool.step event = some next) : next.maxBatchSize = pool.maxBatchSize := by
  cases event with
  | submit task =>
      cases hstep
      split <;> rfl
  | take =>
      obtain ⟨task, rest, -, -, rfl⟩ := take_eq_some hstep
      rfl
  | place =>
      obtain ⟨task, -, rfl⟩ := Option.map_eq_some_iff.mp hstep
      rfl
  | load task =>
      obtain ⟨-, -, rfl⟩ := load_eq_some hstep
      rfl
  | peek =>
      obtain ⟨-, rfl⟩ := peek_eq_some hstep
      rfl
  | overwritePriority =>
      obtain ⟨key, -, rfl⟩ := overwritePriority_eq_some hstep
      rfl
  | overwriteTimestamp =>
      obtain ⟨timestamp, -, rfl⟩ := overwriteTimestamp_eq_some hstep
      rfl
  | readPriority _ | readTimestamp _ _ | writePriority _ | writeTimestamp _ =>
      obtain ⟨-, hnext⟩ := Option.ite_none_right_eq_some.mp hstep
      cases hnext
      rfl

end TaskPool
end waiting

/-- A pool, its pipe, and what the runtime has loaded of it. -/
structure PoolService (Priority Time Output : Type) where
  pool : TaskPool Priority Time
  /-- the tasks that are in the queue and still to be counted -/
  sending : List (PoolTask Priority Time)
  /-- the number of unfinished batches in the pipe -/
  unfinishedBatches : Nat
  /-- `load_batch_to_runtime` has its task, and is about to take from the pipe -/
  receiving : Bool
  dispatchedTasks : Dict Nat (PoolTask Priority Time)
  /-- the futures that have been set -/
  futures : List (Nat × Except String Output)

inductive PoolServiceEvent (Priority Time Output : Type) where
  | pool (event : TaskPoolEvent Priority Time)
  | send (task : PoolTask Priority Time)
  | receive
  /-- `send_outputs_from_runtime`, or `send_exception_from_runtime` -/
  | sendOutcome (uid : Nat) (outcome : Except String Output)

def taskTooLarge (maxBatchSize : Nat) : String :=
  s!"Task size greater than max_batch_size ({maxBatchSize}), it can't be processed"

namespace PoolService

/-- `not batch_receiver.poll()` -/
def empty (service : PoolService Priority Time Output) : Bool := service.unfinishedBatches = 0

def submitted (events : List (PoolServiceEvent Priority Time Output)) :
    List (PoolTask Priority Time) :=
  events.filterMap fun
    | .pool (.submit task) => some task
    | _ => none

/-- The tasks that wait, those that the runtime has loaded, and those that have an answer. -/
def whereabouts (service : PoolService Priority Time Output) : List Nat :=
  service.pool.waiting.map (·.uid) ++ (service.dispatchedTasks.keys ++ service.futures.map Prod.fst)

def Loaded (past : List (PoolServiceEvent Priority Time Output)) (task : PoolTask Priority Time) :
    Prop :=
  ∃ before after, past = before ++ .pool (.load task) :: after ∧
    ∀ outcome, .sendOutcome task.uid outcome ∉ after

/-- What a task's future is set to: the error of a task that is too large, or the first outcome that
is sent for the task once it is loaded. -/
def Answers (maxBatchSize : Nat) (past : List (PoolServiceEvent Priority Time Output))
    (task : PoolTask Priority Time) (outcome : Except String Output) : Prop :=
  if maxBatchSize < task.size then outcome = .error (taskTooLarge maxBatchSize)
  else ∃ before after, past = before ++ .sendOutcome task.uid outcome :: after ∧ Loaded before task

theorem submitted_append (left right : List (PoolServiceEvent Priority Time Output)) :
    submitted (left ++ right) = submitted left ++ submitted right :=
  List.filterMap_append ..

theorem mem_submitted_append {past : List (PoolServiceEvent Priority Time Output)}
    {task : PoolTask Priority Time} (event : PoolServiceEvent Priority Time Output)
    (h : task ∈ submitted past) : task ∈ submitted (past ++ [event]) := by
  rw [submitted_append]
  exact List.mem_append_left _ h

theorem Loaded.append {past : List (PoolServiceEvent Priority Time Output)}
    {task : PoolTask Priority Time} {event : PoolServiceEvent Priority Time Output}
    (h : Loaded past task) (hevent : ∀ outcome, event ≠ .sendOutcome task.uid outcome) :
    Loaded (past ++ [event]) task := by
  obtain ⟨before, after, rfl, hafter⟩ := h
  refine ⟨before, after ++ [event], by simp, fun outcome hmem => ?_⟩
  rcases List.mem_append.mp hmem with hmem | hmem
  · exact hafter outcome hmem
  · exact hevent outcome (List.mem_singleton.mp hmem).symm

theorem Answers.append {past : List (PoolServiceEvent Priority Time Output)}
    {task : PoolTask Priority Time} {outcome : Except String Output} {maxBatchSize : Nat}
    (event : PoolServiceEvent Priority Time Output) (h : Answers maxBatchSize past task outcome) :
    Answers maxBatchSize (past ++ [event]) task outcome := by
  unfold Answers at h ⊢
  split
  · rename_i hlarge
    rwa [if_pos hlarge] at h
  · rename_i hlarge
    rw [if_neg hlarge] at h
    obtain ⟨before, after, rfl, hloaded⟩ := h
    exact ⟨before, after ++ [event], by simp, hloaded⟩

theorem submitted_submit (task : PoolTask Priority Time)
    (past : List (PoolServiceEvent Priority Time Output)) :
    task ∈ submitted (past ++ [.pool (.submit task)]) := by
  simp [submitted]

variable [LinearOrder Priority] [LinearOrder Time]

def new (maxBatchSize : Nat) : PoolService Priority Time Output where
  pool := .new maxBatchSize
  sending := []
  unfinishedBatches := 0
  receiving := false
  dispatchedTasks := .empty
  futures := []

/-- One access of a call; `none` where it blocks. -/
def step (service : PoolService Priority Time Output) :
    PoolServiceEvent Priority Time Output → Option (PoolService Priority Time Output)
  | .pool event => do
      let pool ← service.pool.step event
      match event with
      | .submit task =>
          if service.pool.maxBatchSize < task.size then
            some { service with
              futures := service.futures ++
                [(task.uid, .error (taskTooLarge service.pool.maxBatchSize))] }
          else some { service with pool := pool, sending := service.sending ++ [task] }
      -- a task is compared with the priority once it is counted
      | .readPriority task =>
          if service.sending.contains task then none else some { service with pool := pool }
      | .load task => some { service with
          pool := pool
          dispatchedTasks := service.dispatchedTasks.insert task.uid task
          receiving := true }
      | .peek => if service.receiving then none else some { service with pool := pool }
      | .readTimestamp _ _ | .writePriority _ | .writeTimestamp _ | .take | .place
      | .overwritePriority | .overwriteTimestamp => some { service with pool := pool }
  | .send task =>
      if service.sending.contains task then
        some { service with
          sending := service.sending.erase task
          unfinishedBatches := service.unfinishedBatches + 1 }
      else none
  | .receive =>
      if service.receiving = true ∧ 0 < service.unfinishedBatches then
        some { service with
          receiving := false
          unfinishedBatches := service.unfinishedBatches - 1 }
      else none
  | .sendOutcome uid outcome =>
      match service.dispatchedTasks.get? uid with
      | none => some service
      | some _ => some { service with
          dispatchedTasks := service.dispatchedTasks.erase uid
          futures := service.futures ++ [(uid, outcome)] }

variable {service next : PoolService Priority Time Output}

inductive Move (service : PoolService Priority Time Output) :
    PoolServiceEvent Priority Time Output → PoolService Priority Time Output → Prop
  | refuse (task : PoolTask Priority Time) (hlarge : service.pool.maxBatchSize < task.size) :
      Move service (.pool (.submit task)) { service with
        futures := service.futures ++
          [(task.uid, .error (taskTooLarge service.pool.maxBatchSize))] }
  | submit (task : PoolTask Priority Time) (pool : TaskPool Priority Time)
      (hfits : task.size ≤ service.pool.maxBatchSize)
      (hpool : service.pool.step (.submit task) = some pool) :
      Move service (.pool (.submit task))
        { service with pool := pool, sending := service.sending ++ [task] }
  | load (task : PoolTask Priority Time) (pool : TaskPool Priority Time)
      (hpool : service.pool.step (.load task) = some pool) :
      Move service (.pool (.load task)) { service with
        pool := pool
        dispatchedTasks := service.dispatchedTasks.insert task.uid task
        receiving := true }
  | inside (event : TaskPoolEvent Priority Time) (pool : TaskPool Priority Time)
      (hpool : service.pool.step event = some pool)
      (hwaiting : service.pool.waiting.Perm pool.waiting) (hevent : ∀ task, event ≠ .submit task)
      (hreceiving : service.receiving = true → service.pool.load = .peeking → pool.load = .peeking) :
      Move service (.pool event) { service with pool := pool }
  | send (task : PoolTask Priority Time) (htask : task ∈ service.sending) :
      Move service (.send task) { service with
        sending := service.sending.erase task
        unfinishedBatches := service.unfinishedBatches + 1 }
  | receive (hreceiving : service.receiving = true) (hcount : 0 < service.unfinishedBatches) :
      Move service .receive { service with
        receiving := false
        unfinishedBatches := service.unfinishedBatches - 1 }
  | ignore (uid : Nat) (outcome : Except String Output)
      (hmissing : service.dispatchedTasks.get? uid = none) :
      Move service (.sendOutcome uid outcome) service
  | answer (uid : Nat) (outcome : Except String Output) (task : PoolTask Priority Time)
      (htask : service.dispatchedTasks.get? uid = some task) :
      Move service (.sendOutcome uid outcome) { service with
        dispatchedTasks := service.dispatchedTasks.erase uid
        futures := service.futures ++ [(uid, outcome)] }

theorem step_move {event : PoolServiceEvent Priority Time Output}
    (hstep : service.step event = some next) : service.Move event next := by
  cases event with
  | pool event =>
      obtain ⟨pool, hpool, hnext⟩ := Option.bind_eq_some_iff.mp hstep
      cases event with
      | submit task =>
          dsimp only at hnext
          split at hnext
          · rename_i hlarge
            cases hnext
            exact .refuse task hlarge
          · rename_i hfits
            cases hnext
            exact .submit task pool (not_lt.mp hfits) hpool
      | load task =>
          cases hnext
          exact .load task pool hpool
      | readPriority task =>
          obtain ⟨-, hnext⟩ := Option.ite_none_left_eq_some.mp hnext
          cases hnext
          refine .inside _ pool hpool (TaskPool.waiting_step hpool) (by simp) fun _ hload => ?_
          obtain ⟨-, hpool⟩ := Option.ite_none_right_eq_some.mp hpool
          cases hpool
          exact hload
      | peek =>
          obtain ⟨hidle, hnext⟩ := Option.ite_none_left_eq_some.mp hnext
          cases hnext
          exact .inside _ pool hpool (TaskPool.waiting_step hpool) (by simp) fun hreceiving =>
            absurd hreceiving hidle
      | take =>
          cases hnext
          refine .inside _ pool hpool (TaskPool.waiting_step hpool) (by simp) fun _ hload => ?_
          obtain ⟨task, rest, -, -, rfl⟩ := TaskPool.take_eq_some hpool
          exact hload
      | place =>
          cases hnext
          refine .inside _ pool hpool (TaskPool.waiting_step hpool) (by simp) fun _ hload => ?_
          obtain ⟨task, -, rfl⟩ := Option.map_eq_some_iff.mp hpool
          exact hload
      | readTimestamp _ _ | writePriority _ | writeTimestamp _ =>
          cases hnext
          refine .inside _ pool hpool (TaskPool.waiting_step hpool) (by simp) fun _ hload => ?_
          obtain ⟨-, hpool⟩ := Option.ite_none_right_eq_some.mp hpool
          cases hpool
          exact hload
      | overwritePriority =>
          cases hnext
          refine .inside _ pool hpool (TaskPool.waiting_step hpool) (by simp) fun _ hload => ?_
          obtain ⟨key, hwriting, -⟩ := TaskPool.overwritePriority_eq_some hpool
          cases hload.symm.trans hwriting
      | overwriteTimestamp =>
          cases hnext
          refine .inside _ pool hpool (TaskPool.waiting_step hpool) (by simp) fun _ hload => ?_
          obtain ⟨timestamp, hwriting, -⟩ := TaskPool.overwriteTimestamp_eq_some hpool
          cases hload.symm.trans hwriting
  | send task =>
      obtain ⟨htask, hnext⟩ := Option.ite_none_right_eq_some.mp hstep
      cases hnext
      exact .send task (List.contains_iff_mem.mp htask)
  | receive =>
      obtain ⟨⟨hreceiving, hcount⟩, hnext⟩ := Option.ite_none_right_eq_some.mp hstep
      cases hnext
      exact .receive hreceiving hcount
  | sendOutcome uid outcome =>
      unfold step at hstep
      dsimp only at hstep
      split at hstep
      · rename_i hmissing
        cases hstep
        exact .ignore uid outcome hmissing
      · rename_i task htask
        cases hstep
        exact .answer uid outcome task htask

/-- The pipe holds as many batches as there are tasks to load, but for the calls in progress. -/
structure Counted (service : PoolService Priority Time Output) : Prop where
  receiving : service.receiving = true → service.pool.load = .peeking
  count : service.unfinishedBatches + service.sending.length =
    service.pool.waiting.length + if service.receiving then 1 else 0

theorem Counted.step {event : PoolServiceEvent Priority Time Output} (h : service.Counted)
    (hstep : service.step event = some next) : next.Counted := by
  have hcount := h.count
  cases step_move hstep with
  | refuse _ _ => exact ⟨h.receiving, h.count⟩
  | submit task pool hfits hpool =>
      have hwaiting := (TaskPool.waiting_step hpool).length_eq
      simp [TaskPool.entering, TaskPool.leaving, Nat.not_lt.mpr hfits] at hwaiting
      refine ⟨fun hreceiving => ?_, ?_⟩
      · have hloading := h.receiving hreceiving
        cases hpool
        rw [if_neg (Nat.not_lt.mpr hfits)]
        exact hloading
      · simp only [List.length_append, List.length_singleton]
        omega
  | load task pool hpool =>
      have hwaiting := (TaskPool.waiting_step hpool).length_eq
      simp [TaskPool.entering, TaskPool.leaving] at hwaiting
      obtain ⟨hidle, -, hnext⟩ := TaskPool.load_eq_some hpool
      have hreceiving : service.receiving = false := by
        cases hbusy : service.receiving with
        | false => rfl
        | true => exact absurd (h.receiving hbusy) (by simp [hidle])
      refine ⟨fun _ => ?_, ?_⟩
      · cases hnext
        rfl
      · simp only [hreceiving, Bool.false_eq_true, if_false, if_true] at hcount ⊢
        omega
  | inside event pool hpool hwaiting hevent hreceiving =>
      refine ⟨fun hbusy => hreceiving hbusy (h.receiving hbusy), ?_⟩
      dsimp only
      rw [← hwaiting.length_eq]
      exact hcount
  | send task htask =>
      refine ⟨h.receiving, ?_⟩
      have hlength := List.length_erase_of_mem htask
      have hpositive := List.length_pos_of_mem htask
      dsimp only
      omega
  | receive hreceiving hpositive =>
      refine ⟨fun hbusy => (by cases hbusy), ?_⟩
      simp only [hreceiving, if_true, Bool.false_eq_true, if_false] at hcount ⊢
      omega
  | ignore _ _ _ => exact h
  | answer _ _ _ _ => exact ⟨h.receiving, h.count⟩

theorem whereabouts_step {event : PoolServiceEvent Priority Time Output}
    (hnodup : service.whereabouts.Nodup) (hstep : service.step event = some next) :
    next.whereabouts.Perm (service.whereabouts ++ (submitted [event]).map (·.uid)) := by
  cases step_move hstep with
  | refuse task hlarge =>
      simp [whereabouts, submitted]
  | submit task pool hfits hpool =>
      have hwaiting := (TaskPool.waiting_step hpool).map (·.uid)
      simp only [TaskPool.entering, TaskPool.leaving, if_neg (Nat.not_lt.mpr hfits)] at hwaiting
      exact (hwaiting.symm.append_right _).trans (List.perm_append_singleton ..).symm
  | load task pool hpool =>
      have hwaiting : (service.pool.waiting.map (·.uid)).Perm
          (task.uid :: pool.waiting.map (·.uid)) := (TaskPool.waiting_step hpool).map (·.uid)
      have hfresh : task.uid ∉ service.dispatchedTasks.keys := by
        intro hkey
        have hdisjoint := List.disjoint_of_nodup_append hnodup
        exact hdisjoint (hwaiting.symm.subset List.mem_cons_self) (List.mem_append_left _ hkey)
      unfold whereabouts
      dsimp only
      rw [Dict.keys_insert hfresh, List.append_assoc]
      simp only [submitted, List.filterMap_cons, List.filterMap_nil, List.map_nil, List.append_nil]
      refine List.Perm.trans ?_ (hwaiting.symm.append_right _)
      exact ((List.perm_middle).append_left _).trans List.perm_middle
  | inside event pool hpool hwaiting hevent hreceiving =>
      have hnone : submitted [(.pool event : PoolServiceEvent Priority Time Output)] = [] := by
        cases event with
        | submit task => exact absurd rfl (hevent task)
        | _ => rfl
      rw [hnone, List.map_nil, List.append_nil]
      exact (hwaiting.symm.map _).append_right _
  | send _ _ => simp [whereabouts, submitted]
  | receive _ _ => simp [whereabouts, submitted]
  | ignore _ _ _ => simp [whereabouts, submitted]
  | answer uid outcome task htask =>
      have hkey : uid ∈ service.dispatchedTasks.keys := by
        rw [Dict.mem_keys_iff_isSome, htask]
        rfl
      have hkeys := Dict.keys_perm_erase hkey
      simp only [whereabouts, submitted, List.filterMap_cons, List.filterMap_nil, List.map_nil,
        List.append_nil, List.map_append, List.map_cons]
      apply List.Perm.append_left
      refine List.Perm.trans ?_ (hkeys.symm.append_right _)
      rw [← List.append_assoc]
      exact List.perm_append_singleton ..

/-- Where the tasks of a run are, and why. -/
structure Accounted (maxBatchSize : Nat) (past : List (PoolServiceEvent Priority Time Output))
    (service : PoolService Priority Time Output) : Prop where
  size : service.pool.maxBatchSize = maxBatchSize
  waiting : ∀ task ∈ service.pool.waiting, task ∈ submitted past ∧ task.size ≤ maxBatchSize
  dispatched : ∀ uid task, service.dispatchedTasks.get? uid = some task →
    task ∈ submitted past ∧ task.size ≤ maxBatchSize ∧ task.uid = uid ∧ Loaded past task
  futures : ∀ answer ∈ service.futures, ∃ task ∈ submitted past,
    task.uid = answer.1 ∧ Answers maxBatchSize past task answer.2

omit [LinearOrder Priority] [LinearOrder Time] in
theorem Accounted.append {maxBatchSize : Nat} {past : List (PoolServiceEvent Priority Time Output)}
    (h : Accounted maxBatchSize past service) (event : PoolServiceEvent Priority Time Output)
    (hevent : ∀ uid outcome, event = .sendOutcome uid outcome →
      service.dispatchedTasks.get? uid = none) :
    Accounted maxBatchSize (past ++ [event]) service where
  size := h.size
  waiting task hmem := (h.waiting task hmem).imp (mem_submitted_append event) id
  dispatched uid task hget := by
    obtain ⟨hmem, hfits, rfl, hloaded⟩ := h.dispatched uid task hget
    refine ⟨mem_submitted_append event hmem, hfits, rfl, hloaded.append fun outcome heq => ?_⟩
    exact Option.some_ne_none task (hget.symm.trans (hevent _ _ heq))
  futures answer hanswer := by
    obtain ⟨task, hmem, huid, hcause⟩ := h.futures answer hanswer
    exact ⟨task, mem_submitted_append event hmem, huid, hcause.append event⟩

theorem Accounted.step {maxBatchSize : Nat} {past : List (PoolServiceEvent Priority Time Output)}
    {event : PoolServiceEvent Priority Time Output} (h : Accounted maxBatchSize past service)
    (hstep : service.step event = some next) : Accounted maxBatchSize (past ++ [event]) next := by
  cases step_move hstep with
  | refuse task hlarge =>
      have happend := h.append (.pool (.submit task)) (by simp)
      refine ⟨happend.size, happend.waiting, happend.dispatched,
        List.forall_mem_append.mpr ⟨happend.futures, List.forall_mem_singleton.mpr ?_⟩⟩
      rw [h.size] at hlarge ⊢
      exact ⟨task, submitted_submit task past, rfl, by rw [Answers, if_pos hlarge]⟩
  | submit task pool hfits hpool =>
      have happend := h.append (.pool (.submit task)) (by simp)
      refine ⟨(TaskPool.maxBatchSize_step hpool).trans h.size, fun other hmem => ?_,
        happend.dispatched, happend.futures⟩
      have hwaiting := TaskPool.waiting_step hpool
      simp only [TaskPool.entering, if_neg (Nat.not_lt.mpr hfits)] at hwaiting
      rcases List.mem_cons.mp (hwaiting.symm.subset hmem) with rfl | hmem
      · exact ⟨submitted_submit other past, h.size ▸ hfits⟩
      · exact happend.waiting other hmem
  | load task pool hpool =>
      have happend := h.append (.pool (.load task)) (by simp)
      have hwaiting : service.pool.waiting.Perm (task :: pool.waiting) :=
        TaskPool.waiting_step hpool
      refine ⟨(TaskPool.maxBatchSize_step hpool).trans h.size, fun other hmem =>
        happend.waiting other (hwaiting.symm.subset (List.mem_cons_of_mem _ hmem)),
        fun uid other hget => ?_, happend.futures⟩
      dsimp only at hget
      rw [Dict.get?_insert] at hget
      split at hget
      · rename_i huid
        cases hget
        obtain ⟨hmem, hfits⟩ := happend.waiting task (hwaiting.symm.subset List.mem_cons_self)
        exact ⟨hmem, hfits, huid.symm, past, [], rfl, fun _ => List.not_mem_nil⟩
      · exact happend.dispatched uid other hget
  | inside event pool hpool hwaiting hevent hreceiving =>
      have happend := h.append (.pool event) (by simp)
      exact ⟨(TaskPool.maxBatchSize_step hpool).trans h.size,
        fun task hmem => happend.waiting task (hwaiting.symm.subset hmem), happend.dispatched,
        happend.futures⟩
  | send task htask =>
      have happend := h.append (.send task) (by simp)
      exact ⟨happend.size, happend.waiting, happend.dispatched, happend.futures⟩
  | receive hreceiving hcount =>
      have happend := h.append .receive (by simp)
      exact ⟨happend.size, happend.waiting, happend.dispatched, happend.futures⟩
  | ignore uid outcome hmissing =>
      apply h.append
      rintro _ _ ⟨⟩
      exact hmissing
  | answer uid outcome task htask =>
      -- the tasks that stay in the runtime have other uids
      have hothers : Accounted maxBatchSize (past ++ [.sendOutcome uid outcome])
          { service with dispatchedTasks := service.dispatchedTasks.erase uid } := by
        apply Accounted.append
        · refine ⟨h.size, h.waiting, fun other task hget => ?_, h.futures⟩
          dsimp only at hget
          rw [Dict.get?_erase] at hget
          split at hget
          · cases hget
          · exact h.dispatched other task hget
        · rintro _ _ ⟨⟩
          exact (Dict.get?_erase ..).trans (if_pos rfl)
      obtain ⟨hmem, hfits, rfl, hloaded⟩ := h.dispatched uid task htask
      refine ⟨hothers.size, hothers.waiting, hothers.dispatched,
        List.forall_mem_append.mpr ⟨hothers.futures, List.forall_mem_singleton.mpr ?_⟩⟩
      refine ⟨task, mem_submitted_append _ hmem, rfl, ?_⟩
      rw [Answers, if_neg (Nat.not_lt.mpr hfits)]
      exact ⟨past, [], rfl, hloaded⟩

variable {maxBatchSize : Nat} {events : List (PoolServiceEvent Priority Time Output)}

theorem tasks_accounted (h : LeadsTo step (new maxBatchSize) events service) :
    Accounted maxBatchSize events service := by
  refine h.history (fun _ _ _ _ hpast hstep => hpast.step hstep) ?_
  exact ⟨rfl, by simp [new, TaskPool.new, TaskPool.waiting, TaskPool.underway],
    fun _ _ hget => (by cases hget), by simp [new]⟩

theorem batches_counted (h : LeadsTo step (new maxBatchSize) events service) : service.Counted :=
  h.invariant (fun _ _ _ hcounted hstep => hcounted.step hstep) ⟨fun hbusy => (by cases hbusy), rfl⟩

def Conserved (past : List (PoolServiceEvent Priority Time Output))
    (service : PoolService Priority Time Output) : Prop :=
  ((submitted past).map (·.uid)).Nodup →
    service.whereabouts.Perm ((submitted past).map (·.uid))

theorem Conserved.step {past : List (PoolServiceEvent Priority Time Output)}
    {event : PoolServiceEvent Priority Time Output} (h : Conserved past service)
    (hstep : service.step event = some next) : Conserved (past ++ [event]) next := by
  unfold Conserved
  rw [submitted_append, List.map_append]
  intro hfresh
  have hsame := h hfresh.of_append_left
  exact (whereabouts_step (hsame.nodup_iff.mpr hfresh.of_append_left) hstep).trans
    (hsame.append_right _)

theorem tasks_conserved (h : LeadsTo step (new maxBatchSize) events service) :
    Conserved events service :=
  h.history (fun _ _ _ _ hpast hstep => hpast.step hstep) fun _ => .refl _

/-- Each task that was submitted is in one place, once, and what its future is set to is the answer
to that task. -/
theorem delivered_once (h : LeadsTo step (new maxBatchSize) events service)
    (hfresh : ((submitted events).map (·.uid)).Nodup) :
    service.whereabouts.Perm ((submitted events).map (·.uid)) ∧
      ∀ answer ∈ service.futures, ∃ task ∈ submitted events,
        task.uid = answer.1 ∧ Answers maxBatchSize events task answer.2 :=
  ⟨tasks_conserved h hfresh, (tasks_accounted h).futures⟩

theorem moves_all (service : PoolService Priority Time Output) :
    ∃ moves, (∀ event ∈ moves, event = .pool .take ∨ event = .pool .place) ∧
      LeadsTo step service moves { service with
        pool := { service.pool with
          submittedTasks := []
          moving := none
          orderedTasks := service.pool.submittedTasks.reverse ++
            (service.pool.moving.toList ++ service.pool.orderedTasks) } } := by
  obtain ⟨⟨size, tasks, moving, ordered, priority, timestamp, comparing, reading, writes, writing,
    load⟩, sending, count, receiving, dispatched, futures⟩ := service
  suffices hmoves : ∀ ordered, ∃ moves,
      (∀ event ∈ moves, event = .pool .take ∨ event = .pool .place) ∧
      LeadsTo step
        (⟨⟨size, tasks, none, ordered, priority, timestamp, comparing, reading, writes, writing,
          load⟩, sending, count, receiving, dispatched, futures⟩ :
          PoolService Priority Time Output) moves
        ⟨⟨size, [], none, tasks.reverse ++ ordered, priority, timestamp, comparing, reading, writes,
          writing, load⟩, sending, count, receiving, dispatched, futures⟩ by
    cases moving with
    | none => exact hmoves ordered
    | some task =>
        obtain ⟨moves, hmoves, hrun⟩ := hmoves (task :: ordered)
        exact ⟨.pool .place :: moves, List.forall_mem_cons.mpr ⟨.inr rfl, hmoves⟩,
          leadsTo_cons.mpr ⟨_, rfl, hrun⟩⟩
  induction tasks with
  | nil => exact fun _ => ⟨[], by simp, rfl⟩
  | cons task tasks ih =>
      intro ordered
      obtain ⟨moves, hmoves, hrun⟩ := ih (task :: ordered)
      refine ⟨.pool .take :: .pool .place :: moves, List.forall_mem_cons.mpr
        ⟨.inl rfl, List.forall_mem_cons.mpr ⟨.inr rfl, hmoves⟩⟩, ?_⟩
      rw [List.reverse_cons, List.append_assoc]
      exact leadsTo_cons.mpr ⟨_, rfl, leadsTo_cons.mpr ⟨_, rfl, hrun⟩⟩

theorem load_eq {task : PoolTask Priority Time} {pool : TaskPool Priority Time}
    (hpool : service.pool.step (.load task) = some pool) :
    service.step (.pool (.load task)) = some { service with
      pool := pool
      dispatchedTasks := service.dispatchedTasks.insert task.uid task
      receiving := true } :=
  Option.bind_eq_some_iff.mpr ⟨pool, hpool, rfl⟩

/-- Two tasks of two handlers, of which the second is too large. -/
private def asksTwice : List (PoolServiceEvent Nat Nat Nat) :=
  [.pool (.submit ⟨0, 1, 7, 1⟩), .send ⟨0, 1, 7, 1⟩, .pool (.submit ⟨0, 2, 8, 5⟩)]

private def answersTwice : List (PoolServiceEvent Nat Nat Nat) :=
  [.pool .take, .pool .place, .pool (.load ⟨0, 1, 7, 1⟩), .receive, .sendOutcome 7 (.ok 3),
    .sendOutcome 7 (.ok 4)]

private def after (events : List (PoolServiceEvent Nat Nat Nat)) : PoolService Nat Nat Nat :=
  (events.foldlM step (new 4)).getD (new 4)

theorem delivered_both :
    (after (asksTwice ++ answersTwice)).futures = [(8, .error (taskTooLarge 4)), (7, .ok 3)] ∧
      (after (asksTwice ++ answersTwice)).whereabouts.Perm [7, 8] ∧
      ∀ answer ∈ (after (asksTwice ++ answersTwice)).futures,
        ∃ task ∈ submitted (asksTwice ++ answersTwice),
          task.uid = answer.1 ∧ Answers 4 (asksTwice ++ answersTwice) task answer.2 := by
  have hrun : LeadsTo step (new 4) (asksTwice ++ answersTwice)
      (after (asksTwice ++ answersTwice)) := rfl
  exact ⟨rfl, delivered_once hrun (by decide)⟩

end PoolService
end Peerz.Server
