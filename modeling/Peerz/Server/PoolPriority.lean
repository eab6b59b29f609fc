import Mathlib.Data.List.MinMax
import Mathlib.Data.List.Perm.Basic
import Mathlib.Data.Prod.Lex
import Mathlib.Order.WithBot
import Peerz.Library.Runs

/-! The priority that a task pool announces to the runtime, while handlers submit tasks, the
pool's thread moves them and the runtime loads them. Its two values are shared cells of their own:
calls interleave at every access to one of them, and may read or leave values of two tasks. -/
namespace Peerz.Server
open Library

variable {Priority Time : Type} [LinearOrder Priority] [LinearOrder Time]

/-- What the two cells hold, `(inf, inf)` where there is no task. -/
abbrev PoolKey (Priority Time : Type) := WithTop Priority ×ₗ WithTop Time

structure PoolTask (Priority Time : Type) where
  priority : Priority
  timeSubmitted : Time
  uid : Nat
  size : Nat
deriving DecidableEq

def PoolTask.key (task : PoolTask Priority Time) : PoolKey Priority Time :=
  toLex (↑task.priority, ↑task.timeSubmitted)

def least (tasks : List (PoolTask Priority Time)) : PoolKey Priority Time :=
  (tasks.map PoolTask.key).foldr min ⊤

inductive LoadPhase (Priority Time : Type) where
  | idle
  /-- It has its task, and is about to look at the next one. -/
  | peeking
  | writingPriority (key : PoolKey Priority Time)
  | writingTimestamp (timestamp : WithTop Time)

/-- What the load is about to set the second cell to, once it has set the first. -/
def LoadPhase.timestamps : LoadPhase Priority Time → List (WithTop Time)
  | .writingTimestamp timestamp => [timestamp]
  | _ => []

/-- The load once it has set the second cell. -/
def LoadPhase.past : LoadPhase Priority Time → LoadPhase Priority Time
  | .writingTimestamp _ => .idle
  | phase => phase

structure TaskPool (Priority Time : Type) where
  maxBatchSize : Nat
  /-- the queue between the processes -/
  submittedTasks : List (PoolTask Priority Time)
  /-- between the two queues -/
  moving : Option (PoolTask Priority Time)
  orderedTasks : List (PoolTask Priority Time)
  priority : WithTop Priority
  oldestUndispatchedTimestamp : WithTop Time
  /-- the tasks whose `submit_task` is about to compare them with the priority -/
  comparing : List (PoolTask Priority Time)
  /-- those whose `submit_task` has read the first of the two cells, and what it read -/
  reading : List (PoolTask Priority Time × WithTop Priority)
  /-- what `submit_task` calls are about to set the two cells to -/
  writes : List (PoolKey Priority Time)
  /-- what those that have set the first cell are about to set the second to -/
  writing : List (WithTop Time)
  load : LoadPhase Priority Time

inductive TaskPoolEvent (Priority Time : Type) where
  | submit (task : PoolTask Priority Time)
  | readPriority (task : PoolTask Priority Time)
  | readTimestamp (task : PoolTask Priority Time) (priority : WithTop Priority)
  | writePriority (key : PoolKey Priority Time)
  | writeTimestamp (timestamp : WithTop Time)
  | take
  | place
  | load (task : PoolTask Priority Time)
  | peek
  | overwritePriority
  | overwriteTimestamp

namespace TaskPool

def new (maxBatchSize : Nat) : TaskPool Priority Time where
  maxBatchSize := maxBatchSize
  submittedTasks := []
  moving := none
  orderedTasks := []
  priority := ⊤
  oldestUndispatchedTimestamp := ⊤
  comparing := []
  reading := []
  writes := []
  writing := []
  load := .idle

/-- One access of a call, or of the pool's thread; `none` where it blocks. The runtime loads one
task at a time. -/
def step (pool : TaskPool Priority Time) :
    TaskPoolEvent Priority Time → Option (TaskPool Priority Time)
  | .submit task =>
      some (if pool.maxBatchSize < task.size then pool
        else { pool with
          submittedTasks := pool.submittedTasks ++ [task]
          comparing := pool.comparing ++ [task] })
  | .readPriority task =>
      if task ∈ pool.comparing then
        some { pool with
          comparing := pool.comparing.erase task
          reading := pool.reading ++ [(task, pool.priority)] }
      else none
  | .readTimestamp task priority =>
      if (task, priority) ∈ pool.reading then
        some { pool with
          reading := pool.reading.erase (task, priority)
          writes :=
            if task.key < toLex (priority, pool.oldestUndispatchedTimestamp) then
              pool.writes ++ [task.key]
            else pool.writes }
      else none
  | .writePriority key =>
      if key ∈ pool.writes then
        some { pool with
          priority := (ofLex key).1
          writes := pool.writes.erase key
          writing := pool.writing ++ [(ofLex key).2] }
      else none
  | .writeTimestamp timestamp =>
      if timestamp ∈ pool.writing then
        some { pool with
          oldestUndispatchedTimestamp := timestamp
          writing := pool.writing.erase timestamp }
      else none
  | .take =>
      match pool.moving, pool.submittedTasks with
      | none, task :: rest => some { pool with submittedTasks := rest, moving := some task }
      | _, _ => none
  | .place =>
      pool.moving.map fun task =>
        { pool with moving := none, orderedTasks := task :: pool.orderedTasks }
  | .load task =>
      match pool.load with
      | .idle =>
          if task ∈ pool.orderedTasks ∧ ∀ other ∈ pool.orderedTasks, task.key ≤ other.key then
            some { pool with orderedTasks := pool.orderedTasks.erase task, load := .peeking }
          else none
      | _ => none
  | .peek =>
      match pool.load with
      | .peeking =>
          some { pool with
            load :=
              if pool.orderedTasks = [] then .idle
              else .writingPriority (least pool.orderedTasks) }
      | _ => none
  | .overwritePriority =>
      match pool.load with
      | .writingPriority key =>
          some { pool with priority := (ofLex key).1, load := .writingTimestamp (ofLex key).2 }
      | _ => none
  | .overwriteTimestamp =>
      match pool.load with
      | .writingTimestamp timestamp =>
          some { pool with oldestUndispatchedTimestamp := timestamp, load := .idle }
      | _ => none

def underway (pool : TaskPool Priority Time) : List (PoolTask Priority Time) :=
  pool.moving.toList ++ pool.submittedTasks

def waiting (pool : TaskPool Priority Time) : List (PoolTask Priority Time) :=
  pool.underway ++ pool.orderedTasks

/-- All tasks have been moved, and no call is in progress. -/
def Quiet (pool : TaskPool Priority Time) : Prop :=
  pool.underway = [] ∧ pool.comparing = [] ∧ pool.reading = [] ∧ pool.writes = [] ∧
    pool.writing = [] ∧ pool.load = .idle

def Truthful (pool : TaskPool Priority Time) : Prop :=
  toLex (pool.priority, pool.oldestUndispatchedTimestamp) = least pool.waiting

/-! What the two cells will hold once the calls in progress have ended, one after the other: those
that are in the middle of reading or writing, those that are about to write, the load, and those
that are about to compare. -/

/-- What the calls that have read the first cell will write. -/
def decisions (reading : List (PoolTask Priority Time × WithTop Priority))
    (timestamp : WithTop Time) : List (PoolKey Priority Time) :=
  (reading.filter fun read => read.1.key < toLex (read.2, timestamp)).map (·.1.key)

/-- The second cell is set to each of `timestamps`, and then both are set to each of `writes`. -/
def lastWritten (writes : List (PoolKey Priority Time)) (priority : WithTop Priority)
    (timestamps : List (WithTop Time)) (timestamp : WithTop Time) : PoolKey Priority Time :=
  writes.getLast?.getD (toLex (priority, timestamps.getLast?.getD timestamp))

def afterWrites (pool : TaskPool Priority Time) : PoolKey Priority Time :=
  lastWritten (pool.writes ++ decisions pool.reading pool.oldestUndispatchedTimestamp)
    pool.priority (pool.writing ++ pool.load.timestamps) pool.oldestUndispatchedTimestamp

def overwriting (pool : TaskPool Priority Time) : Option (PoolKey Priority Time) :=
  match pool.load with
  | .idle => none
  | .peeking => if pool.orderedTasks = [] then none else some (least pool.orderedTasks)
  | .writingPriority key => some key
  | .writingTimestamp _ => none

def afterLoad (pool : TaskPool Priority Time) : PoolKey Priority Time :=
  pool.overwriting.getD pool.afterWrites

def settled (pool : TaskPool Priority Time) : PoolKey Priority Time :=
  min pool.afterLoad (least pool.comparing)

/-- The pool when the calls in progress have ended and all tasks have been moved. -/
def finish (pool : TaskPool Priority Time) : TaskPool Priority Time where
  maxBatchSize := pool.maxBatchSize
  submittedTasks := []
  moving := none
  orderedTasks := pool.submittedTasks.reverse ++ pool.moving.toList ++ pool.orderedTasks
  priority := (ofLex pool.settled).1
  oldestUndispatchedTimestamp := (ofLex pool.settled).2
  comparing := []
  reading := []
  writes := []
  writing := []
  load := .idle

/-- It makes no difference that the calls in progress will write this last, and not what they would
have written: the load overwrites it, or a call that is still to compare sets what is lower. -/
def EndsAlike (pool : TaskPool Priority Time) (last : PoolKey Priority Time) : Prop :=
  pool.overwriting ≠ none ∨
    min last (least pool.comparing) = min pool.afterWrites (least pool.comparing)

/-- What the priority survives. A load does not take the last task of the local queue, unless one
that is as urgent is under way, and what else is more urgent than the tasks it leaves is the same
among the tasks under way and those that are still to be compared. The other conditions are about
calls that overlap: what they write last, and what is still to be compared, makes up for what
they overwrite. -/
def Keeps (pool : TaskPool Priority Time) : TaskPoolEvent Priority Time → Prop
  | .load task =>
      if pool.orderedTasks.erase task = [] then least pool.underway ≤ task.key
      else min (least (pool.orderedTasks.erase task)) (least pool.comparing) =
        min (least (pool.orderedTasks.erase task)) (least pool.underway)
  | .readPriority task =>
      match pool.overwriting with
      | some key => min key (least (pool.comparing.erase task)) ≤ task.key
      | none =>
          if task.key < toLex (pool.priority, pool.oldestUndispatchedTimestamp) then
            min task.key (least (pool.comparing.erase task)) ≤ pool.afterWrites
          else min pool.afterWrites (least (pool.comparing.erase task)) ≤ task.key
  | .readTimestamp task priority =>
      -- its write, if any, comes before those of the other calls that have read the first cell
      pool.EndsAlike (lastWritten
        (pool.writes ++ decisions [(task, priority)] pool.oldestUndispatchedTimestamp ++
          decisions (pool.reading.erase (task, priority)) pool.oldestUndispatchedTimestamp)
        pool.priority (pool.writing ++ pool.load.timestamps) pool.oldestUndispatchedTimestamp)
  | .writePriority key =>
      pool.EndsAlike (lastWritten
        (pool.writes.erase key ++ decisions pool.reading pool.oldestUndispatchedTimestamp)
        (ofLex key).1 (pool.writing ++ [(ofLex key).2] ++ pool.load.timestamps)
        pool.oldestUndispatchedTimestamp)
  | .writeTimestamp timestamp =>
      pool.EndsAlike (lastWritten (pool.writes ++ decisions pool.reading timestamp) pool.priority
        (pool.writing.erase timestamp ++ pool.load.timestamps) timestamp)
  | .overwritePriority => ∀ key ∈ pool.overwriting,
      min ((pool.writes ++ decisions pool.reading pool.oldestUndispatchedTimestamp).getLast?.getD
        key) (least pool.comparing) = min key (least pool.comparing)
  | .overwriteTimestamp => ∀ timestamp ∈ pool.load.timestamps,
      pool.EndsAlike (lastWritten (pool.writes ++ decisions pool.reading timestamp) pool.priority
        pool.writing timestamp)
  | .place =>
      match pool.load, pool.orderedTasks with
      | .peeking, [] => ∀ task ∈ pool.moving,
          min task.key (least pool.comparing) ≤ least pool.submittedTasks
      | _, _ => True
  | .submit _ | .take | .peek => True

end TaskPool

section least

@[simp] theorem least_nil : least ([] : List (PoolTask Priority Time)) = ⊤ := rfl

@[simp] theorem least_cons (task : PoolTask Priority Time) (tasks : List (PoolTask Priority Time)) :
    least (task :: tasks) = min task.key (least tasks) := rfl

@[simp] theorem least_append (left right : List (PoolTask Priority Time)) :
    least (left ++ right) = min (least left) (least right) := by
  induction left with
  | nil => simp
  | cons task left ih => simp [ih, min_assoc]

theorem least_perm {left right : List (PoolTask Priority Time)} (h : left.Perm right) :
    least left = least right :=
  (h.map PoolTask.key).foldr_eq ⊤

theorem least_erase {task : PoolTask Priority Time} {tasks : List (PoolTask Priority Time)}
    (h : task ∈ tasks) : least tasks = min task.key (least (tasks.erase task)) := by
  rw [least_perm (List.perm_cons_erase h), least_cons]

omit [LinearOrder Priority] [LinearOrder Time] in
theorem PoolTask.key_ne_top (task : PoolTask Priority Time) : (ofLex task.key).1 ≠ ⊤ :=
  WithTop.coe_ne_top

end least

section decisions

theorem decisions_append (left right : List (PoolTask Priority Time × WithTop Priority))
    (timestamp : WithTop Time) :
    TaskPool.decisions (left ++ right) timestamp =
      TaskPool.decisions left timestamp ++ TaskPool.decisions right timestamp := by
  simp [TaskPool.decisions]

theorem decisions_singleton (task : PoolTask Priority Time) (priority : WithTop Priority)
    (timestamp : WithTop Time) :
    TaskPool.decisions [(task, priority)] timestamp =
      if task.key < toLex (priority, timestamp) then [task.key] else [] := by
  by_cases hlower : task.key < toLex (priority, timestamp) <;> simp [TaskPool.decisions, hlower]

end decisions

namespace TaskPool

variable {pool next : TaskPool Priority Time}

theorem take_eq_some (hstep : pool.step .take = some next) :
    ∃ task rest, pool.moving = none ∧ pool.submittedTasks = task :: rest ∧
      next = { pool with submittedTasks := rest, moving := some task } := by
  unfold step at hstep
  dsimp only at hstep
  split at hstep
  · rename_i task rest hmoving hsubmitted
    exact ⟨task, rest, hmoving, hsubmitted, (Option.some.inj hstep).symm⟩
  · cases hstep

theorem load_eq_some {task : PoolTask Priority Time} (hstep : pool.step (.load task) = some next) :
    pool.load = .idle ∧ task ∈ pool.orderedTasks ∧
      next = { pool with orderedTasks := pool.orderedTasks.erase task, load := .peeking } := by
  unfold step at hstep
  dsimp only at hstep
  split at hstep
  · rename_i hload
    obtain ⟨⟨hmem, -⟩, hnext⟩ := Option.ite_none_right_eq_some.mp hstep
    exact ⟨hload, hmem, (Option.some.inj hnext).symm⟩
  · cases hstep

theorem load_eq_of {task : PoolTask Priority Time} (hidle : pool.load = .idle)
    (hmem : task ∈ pool.orderedTasks) (hleast : ∀ other ∈ pool.orderedTasks, task.key ≤ other.key) :
    pool.step (.load task) =
      some { pool with orderedTasks := pool.orderedTasks.erase task, load := .peeking } := by
  simp only [step, hidle]
  exact if_pos ⟨hmem, hleast⟩

theorem peek_eq_some (hstep : pool.step .peek = some next) :
    pool.load = .peeking ∧ next = { pool with
      load :=
        if pool.orderedTasks = [] then .idle
        else .writingPriority (least pool.orderedTasks) } := by
  unfold step at hstep
  dsimp only at hstep
  split at hstep
  · rename_i hload
    exact ⟨hload, (Option.some.inj hstep).symm⟩
  · cases hstep

theorem overwritePriority_eq_some (hstep : pool.step .overwritePriority = some next) :
    ∃ key, pool.load = .writingPriority key ∧
      next = { pool with priority := (ofLex key).1, load := .writingTimestamp (ofLex key).2 } := by
  unfold step at hstep
  dsimp only at hstep
  split at hstep
  · rename_i key hload
    exact ⟨key, hload, (Option.some.inj hstep).symm⟩
  · cases hstep

theorem overwriteTimestamp_eq_some (hstep : pool.step .overwriteTimestamp = some next) :
    ∃ timestamp, pool.load = .writingTimestamp timestamp ∧
      next = { pool with oldestUndispatchedTimestamp := timestamp, load := .idle } := by
  unfold step at hstep
  dsimp only at hstep
  split at hstep
  · rename_i timestamp hload
    exact ⟨timestamp, hload, (Option.some.inj hstep).symm⟩
  · cases hstep

theorem least_waiting (pool : TaskPool Priority Time) :
    least pool.waiting = min (least pool.underway) (least pool.orderedTasks) :=
  least_append _ _

theorem finish_waiting (pool : TaskPool Priority Time) :
    least pool.finish.waiting = least pool.waiting := by
  apply least_perm
  exact (((List.reverse_perm _).append_right _).trans List.perm_append_comm).append_right _

theorem finish_truthful : pool.finish.Truthful ↔ pool.settled = least pool.waiting := by
  rw [← finish_waiting]
  rfl

/-! Each step keeps what the two cells will hold exactly if its condition is met. -/

section steps
variable (h : pool.settled = least pool.waiting)
include h

theorem submit_settled {task : PoolTask Priority Time}
    (hstep : pool.step (.submit task) = some next) : next.settled = least next.waiting := by
  cases hstep
  split
  · exact h
  · have hsettled : min pool.settled task.key = min (least pool.waiting) task.key := by rw [h]
    simp only [settled, least_waiting, underway, least_append, least_cons, least_nil,
      min_top_right] at hsettled ⊢
    change min pool.afterLoad _ = _
    rw [← min_assoc, hsettled]
    ac_rfl

theorem take_settled (hstep : pool.step .take = some next) :
    next.settled = least next.waiting := by
  obtain ⟨task, rest, hmoving, hsubmitted, rfl⟩ := take_eq_some hstep
  have hsame : pool.waiting = ([task] ++ rest) ++ pool.orderedTasks := by
    rw [waiting, underway, hmoving, hsubmitted]
    rfl
  rw [hsame] at h
  exact h

theorem peek_settled (hstep : pool.step .peek = some next) :
    next.settled = least next.waiting := by
  obtain ⟨hload, rfl⟩ := peek_eq_some hstep
  refine Eq.trans ?_ h
  unfold settled afterLoad overwriting
  congr 1
  by_cases hempty : pool.orderedTasks = []
  · simp [hempty, hload, afterWrites, LoadPhase.timestamps]
  · simp [hempty, hload]

theorem place_settled_iff (hstep : pool.step .place = some next) :
    pool.Keeps .place ↔ next.settled = least next.waiting := by
  obtain ⟨task, hmoving, rfl⟩ := Option.map_eq_some_iff.mp hstep
  have hwaiting : least pool.waiting =
      min (min task.key (least pool.submittedTasks)) (least pool.orderedTasks) := by
    simp [least_waiting, underway, hmoving]
  rw [hwaiting] at h
  have hnext : least ({ pool with
      moving := none, orderedTasks := task :: pool.orderedTasks } : TaskPool _ _).waiting =
        min (least pool.submittedTasks) (min task.key (least pool.orderedTasks)) := by
    simp [least_waiting, underway]
  rw [hnext]
  have hswap : min (min task.key (least pool.submittedTasks)) (least pool.orderedTasks) =
      min (least pool.submittedTasks) (min task.key (least pool.orderedTasks)) := by
    rw [min_comm task.key, min_assoc]
  have hlast : afterWrites { pool with
      moving := none, orderedTasks := task :: pool.orderedTasks } = pool.afterWrites := rfl
  unfold settled afterLoad at h ⊢
  rw [hlast]
  unfold Keeps overwriting at *
  dsimp only at h ⊢
  split
  · rename_i hload hempty
    simp only [hload, hempty, if_true, Option.getD_none, least_nil, min_top_right, reduceCtorEq,
      if_false, Option.getD_some, least_cons, hmoving, Option.mem_some_iff, forall_eq'] at h ⊢
    have hcomparing : min task.key (least pool.submittedTasks) ≤ least pool.comparing :=
      h ▸ min_le_right _ _
    constructor
    · intro hle
      apply le_antisymm
      · exact le_min hle (min_le_left _ _)
      · rw [min_comm]
        exact le_min (min_le_left _ _) hcomparing
    · intro heq
      exact heq ▸ min_le_left _ _
  · rename_i hother
    rw [true_iff, ← hswap]
    cases hload : pool.load with
    | peeking =>
        have htasks : pool.orderedTasks ≠ [] := hother hload
        simp only [hload, if_neg htasks, Option.getD_some, reduceCtorEq, if_false,
          least_cons] at h ⊢
        rw [min_assoc, h, ← min_assoc, ← min_assoc, min_self]
    | idle =>
        rw [hload] at h
        exact h
    | writingPriority _ =>
        rw [hload] at h
        exact h
    | writingTimestamp _ =>
        rw [hload] at h
        exact h

theorem load_settled_iff {task : PoolTask Priority Time}
    (hstep : pool.step (.load task) = some next) :
    pool.Keeps (.load task) ↔ next.settled = least next.waiting := by
  obtain ⟨hidle, hmem, rfl⟩ := load_eq_some hstep
  rw [settled, afterLoad, overwriting, hidle, least_waiting, least_erase hmem] at h
  unfold Keeps settled afterLoad overwriting
  rw [least_waiting]
  by_cases hempty : pool.orderedTasks.erase task = []
  · rw [hempty, least_nil, min_top_right] at h
    simp only [hempty, if_true, least_nil, min_top_right, Option.getD_none] at h ⊢
    have hlast : afterWrites { pool with orderedTasks := [], load := .peeking } =
        pool.afterWrites := by
      simp [afterWrites, hidle, LoadPhase.timestamps]
    rw [hlast, h]
    exact min_eq_left_iff.symm
  · simp only [hempty, if_false, Option.getD_some]
    exact Eq.congr_right (min_comm _ _)

theorem readPriority_settled_iff {task : PoolTask Priority Time}
    (hstep : pool.step (.readPriority task) = some next) :
    pool.Keeps (.readPriority task) ↔ next.settled = least next.waiting := by
  obtain ⟨hmem, hnext⟩ := Option.ite_none_right_eq_some.mp hstep
  cases hnext
  change _ ↔ _ = least pool.waiting
  unfold settled at h
  rw [least_erase hmem] at h
  have hlast : afterWrites { pool with
      comparing := pool.comparing.erase task
      reading := pool.reading ++ [(task, pool.priority)] } =
        if task.key < toLex (pool.priority, pool.oldestUndispatchedTimestamp) then task.key
        else pool.afterWrites := by
    unfold afterWrites
    rw [decisions_append, decisions_singleton]
    split <;> simp [lastWritten]
  unfold Keeps settled afterLoad
  rw [hlast]
  unfold afterLoad at h
  change _ ↔ min (pool.overwriting.getD _) (least (pool.comparing.erase task)) = _
  cases hload : pool.overwriting with
  | some key =>
      rw [hload, Option.getD_some] at h
      simp only [Option.getD_some]
      rw [← min_eq_left_iff, min_assoc, min_comm (least (pool.comparing.erase task)), h, eq_comm]
  | none =>
      rw [hload, Option.getD_none] at h
      simp only [Option.getD_none]
      by_cases hlower : task.key < toLex (pool.priority, pool.oldestUndispatchedTimestamp)
      · rw [if_pos hlower, if_pos hlower, ← min_eq_left_iff, min_comm _ pool.afterWrites, h,
          eq_comm]
      · rw [if_neg hlower, if_neg hlower, ← min_eq_left_iff, min_assoc,
          min_comm (least (pool.comparing.erase task)), h, eq_comm]

theorem endsAlike_iff (hload : next.overwriting = pool.overwriting)
    (hcomparing : next.comparing = pool.comparing) (hwaiting : next.waiting = pool.waiting) :
    pool.EndsAlike next.afterWrites ↔ next.settled = least next.waiting := by
  rw [hwaiting, ← h]
  unfold EndsAlike settled afterLoad
  rw [hload, hcomparing]
  cases pool.overwriting with
  | none => simp
  | some key => simp

theorem readTimestamp_settled_iff {task : PoolTask Priority Time} {priority : WithTop Priority}
    (hstep : pool.step (.readTimestamp task priority) = some next) :
    pool.Keeps (.readTimestamp task priority) ↔ next.settled = least next.waiting := by
  obtain ⟨-, hnext⟩ := Option.ite_none_right_eq_some.mp hstep
  cases hnext
  refine Iff.trans ?_ (endsAlike_iff h rfl rfl rfl)
  dsimp only [Keeps, afterWrites]
  rw [decisions_singleton]
  split <;> simp

theorem writePriority_settled_iff {key : PoolKey Priority Time}
    (hstep : pool.step (.writePriority key) = some next) :
    pool.Keeps (.writePriority key) ↔ next.settled = least next.waiting := by
  obtain ⟨-, hnext⟩ := Option.ite_none_right_eq_some.mp hstep
  cases hnext
  refine Iff.trans ?_ (endsAlike_iff h rfl rfl rfl)
  rfl

theorem writeTimestamp_settled_iff {timestamp : WithTop Time}
    (hstep : pool.step (.writeTimestamp timestamp) = some next) :
    pool.Keeps (.writeTimestamp timestamp) ↔ next.settled = least next.waiting := by
  obtain ⟨-, hnext⟩ := Option.ite_none_right_eq_some.mp hstep
  cases hnext
  refine Iff.trans ?_ (endsAlike_iff h rfl rfl rfl)
  rfl

theorem overwritePriority_settled_iff (hstep : pool.step .overwritePriority = some next) :
    pool.Keeps .overwritePriority ↔ next.settled = least next.waiting := by
  obtain ⟨key, hload, rfl⟩ := overwritePriority_eq_some hstep
  change _ ↔ _ = least pool.waiting
  rw [← h]
  unfold Keeps settled afterLoad overwriting afterWrites lastWritten
  simp only [hload, Option.mem_some_iff, forall_eq', Option.getD_some, Option.getD_none,
    LoadPhase.timestamps, List.getLast?_append, List.getLast?_singleton, Option.some_or]
  rfl

theorem overwriteTimestamp_settled_iff (hstep : pool.step .overwriteTimestamp = some next) :
    pool.Keeps .overwriteTimestamp ↔ next.settled = least next.waiting := by
  obtain ⟨timestamp, hload, rfl⟩ := overwriteTimestamp_eq_some hstep
  refine Iff.trans ?_ (endsAlike_iff h (by simp [overwriting, hload]) rfl rfl)
  simp [Keeps, hload, LoadPhase.timestamps, afterWrites]

end steps

theorem step_settled_iff {event : TaskPoolEvent Priority Time}
    (h : pool.settled = least pool.waiting) (hstep : pool.step event = some next) :
    pool.Keeps event ↔ next.settled = least next.waiting := by
  cases event with
  | submit task => exact iff_of_true trivial (submit_settled h hstep)
  | readPriority task => exact readPriority_settled_iff h hstep
  | readTimestamp task priority => exact readTimestamp_settled_iff h hstep
  | writePriority key => exact writePriority_settled_iff h hstep
  | writeTimestamp timestamp => exact writeTimestamp_settled_iff h hstep
  | take => exact iff_of_true trivial (take_settled h hstep)
  | place => exact place_settled_iff h hstep
  | load task => exact load_settled_iff h hstep
  | peek => exact iff_of_true trivial (peek_settled h hstep)
  | overwritePriority => exact overwritePriority_settled_iff h hstep
  | overwriteTimestamp => exact overwriteTimestamp_settled_iff h hstep

theorem Quiet.finish_truthful_iff (h : pool.Quiet) : pool.finish.Truthful ↔ pool.Truthful := by
  obtain ⟨-, hcomparing, hreading, hwrites, hwriting, hload⟩ := h
  have hsettled : pool.settled = toLex (pool.priority, pool.oldestUndispatchedTimestamp) := by
    simp [settled, afterLoad, overwriting, afterWrites, lastWritten, decisions,
      LoadPhase.timestamps, hcomparing, hreading, hwrites, hwriting, hload]
  rw [finish_truthful, hsettled]
  rfl

/-- The priority is that of the most urgent task in every state reached, and it would be if the
calls in progress there were the last ones, exactly if every step meets its condition. -/
theorem priority_truthful_iff (maxBatchSize : Nat) (events : List (TaskPoolEvent Priority Time)) :
    EveryState step (fun pool => (pool.Quiet → pool.Truthful) ∧ pool.finish.Truthful)
        (new maxBatchSize) events ↔
      EveryStep step Keeps (new maxBatchSize) events := by
  have hnew : (new maxBatchSize : TaskPool Priority Time).settled =
      least (new maxBatchSize : TaskPool Priority Time).waiting := rfl
  have hsettled : EveryState step (fun pool => pool.settled = least pool.waiting)
      (new maxBatchSize) events ↔ _ ∧ EveryStep step Keeps (new maxBatchSize) events :=
    everyState_iff_everyStep (fun _ => True) (fun _ _ _ _ _ => trivial)
      (fun _ _ _ _ => step_settled_iff) trivial
  rw [and_iff_right hnew] at hsettled
  rw [← hsettled]
  constructor
  · exact fun h => h.mono fun pool hpool => finish_truthful.mp hpool.2
  · refine fun h => h.mono fun pool hpool => ?_
    have hfinish := finish_truthful.mpr hpool
    exact ⟨fun hquiet => hquiet.finish_truthful_iff.mp hfinish, hfinish⟩

/-! The pool can reach the state in which the calls in progress have ended. -/

/-- Of a call in progress or of the pool's thread. -/
def Finishes : TaskPoolEvent Priority Time → Prop
  | .submit _ | .load _ => False
  | .readPriority _ | .readTimestamp _ _ | .writePriority _ | .writeTimestamp _ => True
  | .take | .place | .peek | .overwritePriority | .overwriteTimestamp => True

def MayReach (pool final : TaskPool Priority Time) : Prop :=
  ∃ events, (∀ event ∈ events, Finishes event) ∧ LeadsTo step pool events final

theorem MayReach.refl (pool : TaskPool Priority Time) : pool.MayReach pool :=
  ⟨[], nofun, leadsTo_nil.mpr rfl⟩

theorem MayReach.trans {middle final : TaskPool Priority Time} (hfirst : pool.MayReach middle)
    (hlater : middle.MayReach final) : pool.MayReach final := by
  obtain ⟨left, hleft, hfirst⟩ := hfirst
  obtain ⟨right, hright, hlater⟩ := hlater
  exact ⟨left ++ right, List.forall_mem_append.mpr ⟨hleft, hright⟩,
    leadsTo_append.mpr ⟨middle, hfirst, hlater⟩⟩

theorem MayReach.step (event : TaskPoolEvent Priority Time) (hfinishes : Finishes event)
    (hstep : pool.step event = some next) : pool.MayReach next :=
  ⟨[event], List.forall_mem_singleton.mpr hfinishes, leadsTo_cons.mpr
    ⟨next, hstep, leadsTo_nil.mpr rfl⟩⟩

theorem mayReach_read (pool : TaskPool Priority Time) :
    pool.MayReach { pool with
      reading := []
      writes := pool.writes ++ decisions pool.reading pool.oldestUndispatchedTimestamp } := by
  obtain ⟨size, submitted, moving, ordered, priority, timestamp, comparing, reading, writes, writing,
    load⟩ := pool
  dsimp only
  induction reading generalizing writes with
  | nil =>
      rw [show decisions [] timestamp = [] from rfl, List.append_nil]
      exact .refl _
  | cons read rest ih =>
      obtain ⟨task, found⟩ := read
      have hread : TaskPool.step ⟨size, submitted, moving, ordered, priority, timestamp, comparing,
            (task, found) :: rest, writes, writing, load⟩ (.readTimestamp task found) =
          some ⟨size, submitted, moving, ordered, priority, timestamp, comparing, rest,
            writes ++ decisions [(task, found)] timestamp, writing, load⟩ := by
        simp only [TaskPool.step, List.mem_cons_self, if_true, List.erase_cons_head,
          decisions_singleton]
        split <;> simp
      have hrest := ih (writes ++ decisions [(task, found)] timestamp)
      rw [List.append_assoc, ← decisions_append] at hrest
      exact (MayReach.step (.readTimestamp task found) trivial hread).trans hrest

theorem mayReach_timestamps (pool : TaskPool Priority Time) :
    pool.MayReach { pool with
      oldestUndispatchedTimestamp := pool.writing.getLast?.getD pool.oldestUndispatchedTimestamp
      writing := [] } := by
  obtain ⟨size, submitted, moving, ordered, priority, timestamp, comparing, reading, writes, writing,
    load⟩ := pool
  dsimp only
  induction writing generalizing timestamp with
  | nil => exact .refl _
  | cons first rest ih =>
      have hwrite : TaskPool.step ⟨size, submitted, moving, ordered, priority, timestamp, comparing,
            reading, writes, first :: rest, load⟩ (.writeTimestamp first) =
          some ⟨size, submitted, moving, ordered, priority, first, comparing, reading, writes, rest,
            load⟩ := by
        simp [TaskPool.step]
      have hlast : (first :: rest).getLast?.getD timestamp = rest.getLast?.getD first := by
        rw [List.getLast?_cons]
        rfl
      rw [hlast]
      exact (MayReach.step (.writeTimestamp first) trivial hwrite).trans (ih first)

theorem mayReach_write (pool : TaskPool Priority Time) (key : PoolKey Priority Time)
    (rest : List (PoolKey Priority Time)) (hwriting : pool.writing = []) :
    MayReach { pool with writes := key :: rest } { pool with
      priority := (ofLex key).1
      oldestUndispatchedTimestamp := (ofLex key).2
      writes := rest } := by
  obtain ⟨size, submitted, moving, ordered, priority, timestamp, comparing, reading, writes, writing,
    load⟩ := pool
  dsimp only at hwriting
  subst hwriting
  have hfirst : TaskPool.step ⟨size, submitted, moving, ordered, priority, timestamp, comparing,
        reading, key :: rest, [], load⟩ (.writePriority key) =
      some ⟨size, submitted, moving, ordered, (ofLex key).1, timestamp, comparing, reading, rest,
        [(ofLex key).2], load⟩ := by
    simp [TaskPool.step]
  exact (MayReach.step (.writePriority key) trivial hfirst).trans (mayReach_timestamps _)

theorem mayReach_writes (hwriting : pool.writing = []) {last : PoolKey Priority Time}
    (hlast : lastWritten pool.writes pool.priority [] pool.oldestUndispatchedTimestamp = last) :
    pool.MayReach { pool with
      priority := (ofLex last).1
      oldestUndispatchedTimestamp := (ofLex last).2
      writes := [] } := by
  obtain ⟨size, submitted, moving, ordered, priority, timestamp, comparing, reading, writes, writing,
    load⟩ := pool
  dsimp only at hwriting hlast ⊢
  subst hwriting hlast
  induction writes generalizing priority timestamp with
  | nil => exact .refl _
  | cons key rest ih =>
      have hlast : lastWritten (key :: rest) priority [] timestamp =
          lastWritten rest (ofLex key).1 [] (ofLex key).2 := by
        rw [lastWritten, List.getLast?_cons]
        rfl
      rw [hlast]
      exact (mayReach_write ⟨_, _, _, _, _, _, _, _, [], _, _⟩ key rest rfl).trans (ih _ _)

theorem mayReach_afterWrites (pool : TaskPool Priority Time) :
    pool.MayReach { pool with
      priority := (ofLex pool.afterWrites).1
      oldestUndispatchedTimestamp := (ofLex pool.afterWrites).2
      reading := []
      writes := []
      writing := []
      load := pool.load.past } := by
  refine (mayReach_read pool).trans ((mayReach_timestamps _).trans ?_)
  cases hload : pool.load with
  | writingTimestamp last =>
      refine (MayReach.step .overwriteTimestamp trivial rfl).trans ?_
      exact mayReach_writes rfl (by simp [afterWrites, lastWritten, hload, LoadPhase.timestamps])
  | idle | peeking | writingPriority _ =>
      refine mayReach_writes rfl ?_
      simp [afterWrites, lastWritten, hload, LoadPhase.timestamps]

theorem mayReach_overwrite {key : PoolKey Priority Time} (hload : pool.load = .writingPriority key) :
    pool.MayReach { pool with
      priority := (ofLex key).1
      oldestUndispatchedTimestamp := (ofLex key).2
      load := .idle } := by
  have hfirst : pool.step .overwritePriority = some { pool with
      priority := (ofLex key).1, load := .writingTimestamp (ofLex key).2 } := by
    simp [TaskPool.step, hload]
  exact (MayReach.step .overwritePriority trivial hfirst).trans
    (MayReach.step .overwriteTimestamp trivial rfl)

theorem mayReach_peek (hload : pool.load = .peeking) (htasks : pool.orderedTasks ≠ []) :
    pool.MayReach { pool with load := .writingPriority (least pool.orderedTasks) } := by
  apply MayReach.step .peek trivial
  simp [TaskPool.step, hload, htasks]

theorem mayReach_afterLoad (pool : TaskPool Priority Time) :
    pool.MayReach { pool with
      priority := (ofLex pool.afterLoad).1
      oldestUndispatchedTimestamp := (ofLex pool.afterLoad).2
      reading := []
      writes := []
      writing := []
      load := .idle } := by
  refine (mayReach_afterWrites pool).trans ?_
  unfold afterLoad overwriting
  cases pool.load with
  | idle | writingTimestamp _ => exact .refl _
  | writingPriority key => exact mayReach_overwrite rfl
  | peeking =>
      by_cases hempty : pool.orderedTasks = []
      · apply MayReach.step .peek trivial
        simp [TaskPool.step, LoadPhase.past, hempty]
      · simp only [hempty, if_false, Option.getD_some]
        exact MayReach.trans (mayReach_peek rfl hempty) (mayReach_overwrite rfl)

theorem mayReach_compare (pool : TaskPool Priority Time) (task : PoolTask Priority Time)
    (rest : List (PoolTask Priority Time)) (hreading : pool.reading = [])
    (hwrites : pool.writes = []) (hwriting : pool.writing = []) {last : PoolKey Priority Time}
    (hlast : min (toLex (pool.priority, pool.oldestUndispatchedTimestamp)) task.key = last) :
    MayReach { pool with comparing := task :: rest } { pool with
      comparing := rest
      priority := (ofLex last).1
      oldestUndispatchedTimestamp := (ofLex last).2 } := by
  obtain ⟨size, submitted, moving, ordered, priority, timestamp, comparing, reading, writes, writing,
    load⟩ := pool
  dsimp only at hreading hwrites hwriting hlast ⊢
  subst hreading hwrites hwriting hlast
  have hcompare : TaskPool.step ⟨size, submitted, moving, ordered, priority, timestamp,
        task :: rest, [], [], [], load⟩ (.readPriority task) =
      some ⟨size, submitted, moving, ordered, priority, timestamp, rest, [(task, priority)], [], [],
        load⟩ := by
    simp [TaskPool.step]
  refine (MayReach.step (.readPriority task) trivial hcompare).trans ((mayReach_read _).trans ?_)
  apply mayReach_writes rfl
  rw [List.nil_append, decisions_singleton]
  by_cases hlower : task.key < toLex (priority, timestamp)
  · rw [if_pos hlower, min_eq_right hlower.le]
    rfl
  · rw [if_neg hlower, min_eq_left (not_lt.mp hlower)]
    rfl

theorem mayReach_compared (hreading : pool.reading = []) (hwrites : pool.writes = [])
    (hwriting : pool.writing = []) {last : PoolKey Priority Time}
    (hlast : min (toLex (pool.priority, pool.oldestUndispatchedTimestamp))
      (least pool.comparing) = last) :
    pool.MayReach { pool with
      comparing := []
      priority := (ofLex last).1
      oldestUndispatchedTimestamp := (ofLex last).2 } := by
  obtain ⟨size, submitted, moving, ordered, priority, timestamp, comparing, reading, writes, writing,
    load⟩ := pool
  dsimp only at hreading hwrites hwriting hlast ⊢
  subst hreading hwrites hwriting hlast
  induction comparing generalizing priority timestamp with
  | nil =>
      rw [least_nil, min_top_right]
      exact .refl _
  | cons task rest ih =>
      rw [least_cons, ← min_assoc]
      refine (mayReach_compare ⟨_, _, _, _, _, _, [], _, _, _, _⟩ task rest rfl rfl rfl rfl).trans ?_
      exact ih _ _

theorem mayReach_placed (pool : TaskPool Priority Time) :
    pool.MayReach
      { pool with moving := none, orderedTasks := pool.moving.toList ++ pool.orderedTasks } := by
  obtain ⟨size, submitted, moving, ordered, priority, timestamp, comparing, reading, writes, writing,
    load⟩ := pool
  cases moving with
  | none => exact .refl _
  | some task => exact MayReach.step .place trivial rfl

theorem mayReach_moved (pool : TaskPool Priority Time) (hmoving : pool.moving = none) :
    pool.MayReach { pool with
      submittedTasks := [], orderedTasks := pool.submittedTasks.reverse ++ pool.orderedTasks } := by
  obtain ⟨size, submitted, moving, ordered, priority, timestamp, comparing, reading, writes, writing,
    load⟩ := pool
  dsimp only at hmoving
  subst hmoving
  induction submitted generalizing ordered with
  | nil => exact .refl _
  | cons task rest ih =>
      refine (MayReach.step .take trivial rfl).trans ?_
      refine (MayReach.step .place trivial rfl).trans ?_
      rw [List.reverse_cons, List.append_assoc]
      exact ih (task :: ordered)

theorem mayReach_finish (pool : TaskPool Priority Time) : pool.MayReach pool.finish := by
  refine (mayReach_afterLoad pool).trans ((mayReach_compared rfl rfl rfl rfl).trans
    ((mayReach_placed _).trans ?_))
  have hmoved := mayReach_moved { pool.finish with
    submittedTasks := pool.submittedTasks
    orderedTasks := pool.moving.toList ++ pool.orderedTasks } rfl
  rw [← List.append_assoc] at hmoved
  exact hmoved

/-! Nothing sets the priority back to what an empty pool has. -/

structure Lowered (pool : TaskPool Priority Time) : Prop where
  priority : pool.priority ≠ ⊤
  writes : ∀ key ∈ pool.writes, (ofLex key).1 ≠ ⊤
  load : ∀ key, pool.load = .writingPriority key → (ofLex key).1 ≠ ⊤

theorem least_ne_top {tasks : List (PoolTask Priority Time)} (h : tasks ≠ []) :
    (ofLex (least tasks)).1 ≠ ⊤ := by
  induction tasks with
  | nil => exact absurd rfl h
  | cons task rest ih =>
      rw [least_cons]
      rcases min_choice task.key (least rest) with hmin | hmin
      · rw [hmin]
        exact task.key_ne_top
      · rw [hmin]
        apply ih
        rintro rfl
        exact absurd (min_eq_right_iff.mp hmin) (not_le.mpr (lt_top_iff_ne_top.mpr fun heq =>
          task.key_ne_top (congrArg (fun key => (ofLex key).1) heq)))

theorem Lowered.step {event : TaskPoolEvent Priority Time} (h : pool.Lowered)
    (hstep : pool.step event = some next) : next.Lowered := by
  cases event with
  | submit task =>
      cases hstep
      split
      · exact h
      · exact ⟨h.priority, h.writes, h.load⟩
  | readPriority task | writeTimestamp timestamp =>
      obtain ⟨-, hnext⟩ := Option.ite_none_right_eq_some.mp hstep
      cases hnext
      exact ⟨h.priority, h.writes, h.load⟩
  | readTimestamp task priority =>
      obtain ⟨-, hnext⟩ := Option.ite_none_right_eq_some.mp hstep
      cases hnext
      refine ⟨h.priority, ?_, h.load⟩
      dsimp only
      split
      · exact List.forall_mem_append.mpr
          ⟨h.writes, List.forall_mem_singleton.mpr task.key_ne_top⟩
      · exact h.writes
  | writePriority key =>
      obtain ⟨hmem, hnext⟩ := Option.ite_none_right_eq_some.mp hstep
      cases hnext
      exact ⟨h.writes key hmem, fun key hkey => h.writes key (List.mem_of_mem_erase hkey), h.load⟩
  | take =>
      obtain ⟨task, rest, -, -, rfl⟩ := take_eq_some hstep
      exact ⟨h.priority, h.writes, h.load⟩
  | place =>
      obtain ⟨task, -, rfl⟩ := Option.map_eq_some_iff.mp hstep
      exact ⟨h.priority, h.writes, h.load⟩
  | load task =>
      obtain ⟨-, -, rfl⟩ := load_eq_some hstep
      exact ⟨h.priority, h.writes, nofun⟩
  | peek =>
      obtain ⟨-, rfl⟩ := peek_eq_some hstep
      refine ⟨h.priority, h.writes, fun key hkey => ?_⟩
      obtain ⟨htasks, hkey⟩ := (ite_eq_iff.mp hkey).resolve_left (by simp)
      cases hkey
      exact least_ne_top htasks
  | overwritePriority =>
      obtain ⟨key, hload, rfl⟩ := overwritePriority_eq_some hstep
      exact ⟨h.load key hload, h.writes, nofun⟩
  | overwriteTimestamp =>
      obtain ⟨timestamp, -, rfl⟩ := overwriteTimestamp_eq_some hstep
      exact ⟨h.priority, h.writes, nofun⟩

/-- A pool that has been drained is never truthful again. -/
theorem Lowered.drained_untruthful {events : List (TaskPoolEvent Priority Time)}
    {final : TaskPool Priority Time} (h : pool.Lowered)
    (hrun : LeadsTo TaskPool.step pool events final) (hdrained : final.waiting = []) :
    ¬ final.Truthful := by
  have hlowered := hrun.invariant (fun _ _ _ hpool hstep => Lowered.step hpool hstep) h
  intro htruthful
  apply hlowered.priority
  rw [Truthful, hdrained, least_nil] at htruthful
  exact congrArg (fun key => (ofLex key).1) htruthful

private def loadOneTask : List (TaskPoolEvent Nat Nat) :=
  let task : PoolTask Nat Nat := ⟨0, 1, 0, 1⟩
  [.submit task, .readPriority task, .readTimestamp task ⊤, .writePriority task.key,
    .writeTimestamp (WithTop.some 1), .take, .place, .load task, .peek]

/-- The pool is empty, and its priority is still that of the task. -/
theorem priority_stale : ∃ pool : TaskPool Nat Nat,
    LeadsTo TaskPool.step (new 1) loadOneTask pool ∧ pool.Quiet ∧ pool.waiting = [] ∧
      ¬ pool.Truthful := by
  refine ⟨_, rfl, ⟨rfl, rfl, rfl, rfl, rfl, rfl⟩, rfl, fun htruthful => ?_⟩
  exact WithTop.coe_ne_top (congrArg (fun key => (ofLex key).1) htruthful)

end TaskPool
end Peerz.Server
