import Peerz.Server.MemoryCache

/-! The life of an `allocate_cache` context as the other contexts see it, and what one step of
its code does to the counters and to the pipe. -/
namespace Peerz.Server
open Library

/-- Where a request stands. It leaves the queue with its memory granted or without. -/
inductive Standing where
  | scheduled
  | enqueued
  | granted
  | live (handles : List Int)
  | freed
  | failed
deriving DecidableEq

def AllocPhase.standing : AllocPhase → Standing
  | .scheduled => .scheduled
  | .enqueued | .acquiring | .checking | .waiting _ | .fits | .released | .failingLocked | .failing =>
      .enqueued
  | .granted => .granted
  | .live handles => .live handles
  | .signalling | .freed => .freed
  | .failed => .failed

theorem toInt64_natCast {value : Nat} (h : value < 2 ^ 63) : toInt64 value = value := by
  unfold toInt64
  rw [Int.bmod_def]
  omega

theorem sum_map_set {α : Type} (f : α → Nat) {items : List α} {position : Nat} {old : α} (new : α)
    (h : items[position]? = some old) :
    ((items.set position new).map f).sum + f old = (items.map f).sum + f new := by
  induction items generalizing position with
  | nil => cases h
  | cons item items ih =>
      cases position with
      | zero =>
          cases h
          simp only [List.set_cons_zero, List.map_cons, List.sum_cons]
          omega
      | succ position =>
          have htail := ih h
          simp only [List.set_cons_succ, List.map_cons, List.sum_cons]
          omega

variable {Device : Type} [DecidableEq Device]

def MemoryCache.newHandles (cache : MemoryCache Device) (task : AllocTask Device) : List Int :=
  (List.range task.descriptors.length).map fun i : Nat => cache.handleCounter + i

/-- Two states of the cache that differ in neither counters, pipe nor tensors. -/
structure SameBooks (cache cache' : MemoryCache Device) : Prop where
  currentSize : cache'.currentSize = cache.currentSize
  enqueuedSize : cache'.enqueuedSize = cache.enqueuedSize
  handleCounter : cache'.handleCounter = cache.handleCounter
  pipe : cache'.pipe = cache.pipe
  allocatedTensors : cache'.allocatedTensors = cache.allocatedTensors

inductive TaskMove (cache : MemoryCache Device) (id : Nat) (task : AllocTask Device) :
    TaskEvent → MemoryCache Device → AllocTask Device → Prop
  | enqueues (found : task.phase = .scheduled) : TaskMove cache id task .advance
      { cache with enqueuedSize := toInt64 (cache.enqueuedSize + task.allocSize) }
      { task with phase := .enqueued }
  | looks (found : task.phase = .enqueued) : TaskMove cache id task .advance cache
      { task with
        phase := if task.timeout = some 0 ∧
            cache.maxSizeBytes < cache.currentSize + cache.enqueuedSize
          then .failing else .acquiring }
  | acquires (found : task.phase = .acquiring) (unlocked : cache.lockAcquireMemory = none) :
      TaskMove cache id task .advance { cache with lockAcquireMemory := some (.task id) }
        { task with phase := .checking }
  | checks (found : task.phase = .checking) : TaskMove cache id task .advance cache
      { task with
        phase :=
          if cache.currentSize + task.allocSize ≤ cache.maxSizeBytes then .fits
          else if task.timeout = some 0 then .failingLocked
          else if cache.maxSizeBytes < task.allocSize then .failingLocked
          else .waiting .testing }
  | waits {cache' : MemoryCache Device} {phase phase' : WaitPhase}
      (found : task.phase = .waiting phase)
      (waited : cache.waitStep task.allocSize phase = some (cache', phase')) :
      TaskMove cache id task .advance cache' { task with phase := .waiting phase' }
  | returns (found : task.phase = .waiting .done) :
      TaskMove cache id task .advance cache { task with phase := .fits }
  | unlocks (found : task.phase = .fits) : TaskMove cache id task .advance
      { cache with lockAcquireMemory := none } { task with phase := .released }
  | grants (found : task.phase = .released) : TaskMove cache id task .advance
      { cache with enqueuedSize := toInt64 (cache.enqueuedSize - task.allocSize) }
      { task with phase := .granted }
  | commits (found : task.phase = .granted) : TaskMove cache id task .advance
      { cache with
        currentSize := toInt64 (cache.currentSize + task.allocSize)
        handleCounter := toInt64 (cache.handleCounter + (cache.newHandles task).length)
        pipe := cache.pipe ++ [⟨cache.newHandles task, some task.descriptors⟩] }
      { task with phase := .live (cache.newHandles task) }
  | signals (found : task.phase = .signalling) : TaskMove cache id task .advance
      { cache with memoryFreedEvent := true } { task with phase := .freed }
  | unlocksFailing (found : task.phase = .failingLocked) : TaskMove cache id task .advance
      { cache with lockAcquireMemory := none } { task with phase := .failing }
  | fails (found : task.phase = .failing) : TaskMove cache id task .advance
      { cache with enqueuedSize := toInt64 (cache.enqueuedSize - task.allocSize) }
      { task with phase := .failed }
  | expiresAcquiring (found : task.phase = .acquiring) : TaskMove cache id task .expire
      { cache with strayAcquirers := cache.strayAcquirers + 1 } { task with phase := .failing }
  | expiresDone (found : task.phase = .waiting .done) :
      TaskMove cache id task .expire cache { task with phase := .failingLocked }
  | expiresWaiting {phase : WaitPhase} (found : task.phase = .waiting phase) :
      TaskMove cache id task .expire
        { cache with strayWaiters := cache.strayWaiters ++ [(task.allocSize, phase)] }
        { task with phase := .failingLocked }
  | givesUp (found : task.phase = .waiting .blocked) :
      TaskMove cache id task .giveUp cache { task with phase := .failingLocked }
  | frees {handles : List Int} (found : task.phase = .live handles) : TaskMove cache id task .free
      { cache with
        pipe := cache.pipe ++ [⟨handles, none⟩]
        currentSize := toInt64 (cache.currentSize - task.allocSize) }
      { task with phase := .signalling }
  | cancels (unfreed : task.phase ≠ .signalling) :
      TaskMove cache id task .cancel cache { task with cancelled := true }

/-- What one step of a context does: it passes from one standing to the next one with the
entries that belong to that, or it keeps to itself. -/
inductive TaskEffect (cache cache' : MemoryCache Device) (task task' : AllocTask Device) :
    TaskEvent → Prop
  | stays {event : TaskEvent} (books : SameBooks cache cache')
      (standing : task'.phase.standing = task.phase.standing)
      (kept : event ≠ .free ∧ task.phase ≠ .granted ∨ event = .cancel) :
      TaskEffect cache cache' task task' event
  | enqueues (before : task.phase = .scheduled) (after : task'.phase.standing = .enqueued)
      (books : SameBooks { cache with
        enqueuedSize := toInt64 (cache.enqueuedSize + task.allocSize) } cache') :
      TaskEffect cache cache' task task' .advance
  | dequeues (before : task.phase.standing = .enqueued)
      (after : task'.phase.standing = .granted ∨ task'.phase.standing = .failed)
      (books : SameBooks { cache with
        enqueuedSize := toInt64 (cache.enqueuedSize - task.allocSize) } cache') :
      TaskEffect cache cache' task task' .advance
  | commits (before : task.phase = .granted)
      (after : task'.phase.standing = .live (cache.newHandles task))
      (books : SameBooks { cache with
        currentSize := toInt64 (cache.currentSize + task.allocSize)
        handleCounter := toInt64 (cache.handleCounter + task.descriptors.length)
        pipe := cache.pipe ++ [⟨cache.newHandles task, some task.descriptors⟩] } cache') :
      TaskEffect cache cache' task task' .advance
  | frees (handles : List Int) (before : task.phase = .live handles)
      (after : task'.phase.standing = .freed)
      (books : SameBooks { cache with
        currentSize := toInt64 (cache.currentSize - task.allocSize)
        pipe := cache.pipe ++ [⟨handles, none⟩] } cache') :
      TaskEffect cache cache' task task' .free

section tasks
variable {cache cache' : MemoryCache Device} {task task' : AllocTask Device}

omit [DecidableEq Device] in
theorem SameBooks.refl (cache : MemoryCache Device) : SameBooks cache cache :=
  ⟨rfl, rfl, rfl, rfl, rfl⟩

omit [DecidableEq Device] in
theorem MemoryCache.waitStep_books {allocSize : Nat} {phase phase' : WaitPhase}
    (h : cache.waitStep allocSize phase = some (cache', phase')) : SameBooks cache cache' := by
  unfold MemoryCache.waitStep at h
  cases phase with
  | testing | woken =>
      cases h
      exact ⟨rfl, rfl, rfl, rfl, rfl⟩
  | blocked =>
      dsimp only at h
      split at h
      · cases h
        exact .refl cache
      · cases h
  | done => cases h

omit [DecidableEq Device] in
theorem MemoryCache.receive_counters (h : cache.receive = some cache') :
    cache'.currentSize = cache.currentSize ∧ cache'.enqueuedSize = cache.enqueuedSize ∧
      cache'.handleCounter = cache.handleCounter := by
  unfold MemoryCache.receive at h
  split at h
  · cases h
  · cases h
    exact ⟨rfl, rfl, rfl⟩

theorem MemoryCache.act_move {id : Nat} {event : TaskEvent}
    (h : cache.act id task event = some (cache', task')) :
    TaskMove cache id task event cache' task' := by
  cases event with
  | advance =>
      unfold MemoryCache.act MemoryCache.advance at h
      cases hphase : task.phase with
      | waiting phase =>
          rw [hphase] at h
          cases phase with
          | done =>
              cases h
              exact .returns hphase
          | testing | blocked | woken =>
              obtain ⟨⟨after, phase'⟩, hwait, hnext⟩ := Option.bind_eq_some_iff.mp h
              cases hnext
              exact .waits hphase hwait
      | acquiring =>
          rw [hphase] at h
          obtain ⟨hunlocked, hnext⟩ := Option.ite_none_right_eq_some.mp h
          cases hnext
          exact .acquires hphase hunlocked
      | live _ | freed | failed =>
          rw [hphase] at h
          cases h
      | _ =>
          rw [hphase] at h
          cases h
          first
          | exact .enqueues hphase
          | exact .looks hphase
          | exact .checks hphase
          | exact .unlocks hphase
          | exact .grants hphase
          | exact .commits hphase
          | exact .signals hphase
          | exact .unlocksFailing hphase
          | exact .fails hphase
  | expire =>
      obtain ⟨-, hexpires⟩ := Option.ite_none_right_eq_some.mp h
      split at hexpires
      any_goals cases hexpires
      all_goals rename_i hphase
      · exact .expiresAcquiring hphase
      · exact .expiresDone hphase
      · exact .expiresWaiting hphase
  | giveUp =>
      obtain ⟨⟨hphase, -⟩, hnext⟩ := Option.ite_none_right_eq_some.mp h
      cases hnext
      exact .givesUp hphase
  | free =>
      unfold MemoryCache.act MemoryCache.free at h
      dsimp only at h
      split at h
      · rename_i handles hlive
        cases h
        exact .frees hlive
      · cases h
  | cancel =>
      unfold MemoryCache.act MemoryCache.cancel at h
      dsimp only at h
      split at h
      any_goals cases h
      exact .cancels (by assumption)

theorem MemoryCache.act_effect {id : Nat} {event : TaskEvent}
    (h : cache.act id task event = some (cache', task')) :
    task'.allocSize = task.allocSize ∧ task'.descriptors = task.descriptors ∧
      TaskEffect cache cache' task task' event := by
  cases MemoryCache.act_move h with
  | enqueues found => exact ⟨rfl, rfl, .enqueues found rfl (.refl _)⟩
  | grants found | fails found =>
      exact ⟨rfl, rfl, .dequeues (by rw [found]; rfl) (by simp [AllocPhase.standing]) (.refl _)⟩
  | commits found =>
      refine ⟨rfl, rfl, .commits found rfl ⟨rfl, rfl, ?_, rfl, rfl⟩⟩
      simp [MemoryCache.newHandles]
  | frees found => exact ⟨rfl, rfl, .frees _ found rfl (.refl _)⟩
  | cancels => exact ⟨rfl, rfl, .stays (.refl _) rfl (.inr rfl)⟩
  | waits found waited =>
      refine ⟨rfl, rfl, .stays (waitStep_books waited) (by rw [found]; rfl) (.inl ?_)⟩
      simp [found]
  | looks found | checks found =>
      refine ⟨rfl, rfl, .stays (.refl _) ?_ (.inl (by simp [found]))⟩
      rw [found]
      dsimp only
      split_ifs <;> rfl
  | acquires found | returns found | unlocks found | signals found | unlocksFailing found
  | expiresAcquiring found | expiresDone found | expiresWaiting found | givesUp found =>
      refine ⟨rfl, rfl, .stays ⟨rfl, rfl, rfl, rfl, rfl⟩ ?_ (.inl (by simp [found]))⟩
      rw [found]
      rfl

end tasks

inductive SystemEffect (system next : CacheSystem Device) : CacheEvent Device → Prop
  | opens {descriptors : List (TensorDescriptor Device)} {timeout : Timeout}
      (task : AllocTask Device) (scheduled : task.phase = .scheduled)
      (cache : next.cache = system.cache) (tasks : next.tasks = system.tasks ++ [task]) :
      SystemEffect system next (.allocate descriptors timeout)
  | steps {id : Nat} {event : TaskEvent} (task task' : AllocTask Device)
      (found : system.tasks[id]? = some task) (tasks : next.tasks = system.tasks.set id task')
      (allocSize : task'.allocSize = task.allocSize)
      (descriptors : task'.descriptors = task.descriptors)
      (effect : TaskEffect system.cache next.cache task task' event) :
      SystemEffect system next (.task id event)
  | strays {event : CacheEvent Device} (apart : ∀ id taskEvent, event ≠ .task id taskEvent)
      (running : event ≠ .receive) (tasks : next.tasks = system.tasks)
      (books : SameBooks system.cache next.cache) : SystemEffect system next event
  | receives (message : PipeMessage Device) (pipe : system.cache.pipe = message :: next.cache.pipe)
      (tasks : next.tasks = system.tasks)
      (received : system.cache.receive = some next.cache) : SystemEffect system next .receive

theorem CacheSystem.step_effect {system next : CacheSystem Device} {event : CacheEvent Device}
    (h : system.step event = some next) : SystemEffect system next event := by
  cases event with
  | allocate descriptors timeout =>
      unfold step allocate at h
      dsimp only at h
      split at h
      · split at h
        · cases h
        · split at h
          · cases h
          · cases h
            exact .opens _ rfl rfl rfl
      · cases h
  | task id taskEvent =>
      obtain ⟨task, htask, h⟩ := Option.bind_eq_some_iff.mp h
      obtain ⟨⟨cache', task'⟩, hact, hnext⟩ := Option.bind_eq_some_iff.mp h
      obtain ⟨hsize, hdescriptors, heffect⟩ := MemoryCache.act_effect hact
      cases hnext
      exact .steps task task' htask rfl hsize hdescriptors heffect
  | strayWaits position =>
      obtain ⟨stray, -, h⟩ := Option.bind_eq_some_iff.mp h
      obtain ⟨⟨cache', phase⟩, hwait, hnext⟩ := Option.bind_eq_some_iff.mp h
      obtain ⟨hcurrent, henqueued, hcounter, hpipe, htensors⟩ := MemoryCache.waitStep_books hwait
      cases hnext
      exact .strays nofun nofun rfl ⟨hcurrent, henqueued, hcounter, hpipe, htensors⟩
  | strayGivesUp position =>
      obtain ⟨stray, -, h⟩ := Option.bind_eq_some_iff.mp h
      dsimp only at h
      split at h
      · cases h
        exact .strays nofun nofun rfl ⟨rfl, rfl, rfl, rfl, rfl⟩
      · cases h
  | strayAcquires =>
      unfold step at h
      dsimp only at h
      split at h
      · cases h
        exact .strays nofun nofun rfl ⟨rfl, rfl, rfl, rfl, rfl⟩
      · cases h
  | receive =>
      obtain ⟨cache', hreceive, hnext⟩ := Option.bind_eq_some_iff.mp h
      cases hnext
      have hpipe := hreceive
      unfold MemoryCache.receive at hpipe
      split at hpipe
      · cases hpipe
      · rename_i message pipe hbefore
        cases hpipe
        exact .receives message hbefore rfl hreceive

namespace CacheSystem

/-- A context that is not open yet stands where it will when it is opened. -/
def standingOf (id : Nat) (system : CacheSystem Device) : Standing :=
  (system.tasks[id]?.map fun task => task.phase.standing).getD .scheduled

section standings
variable {system next : CacheSystem Device} {task task' : AllocTask Device} {id other : Nat}

theorem standingOf_of_tasks (tasks : next.tasks = system.tasks) :
    standingOf id next = standingOf id system := by
  unfold standingOf
  rw [tasks]

theorem standingOf_opens (scheduled : task.phase = .scheduled)
    (tasks : next.tasks = system.tasks ++ [task]) : standingOf id next = standingOf id system := by
  unfold standingOf
  rw [tasks, List.getElem?_append]
  split
  · rfl
  · rename_i hlength
    rw [List.getElem?_eq_none (Nat.le_of_not_lt hlength)]
    cases id - system.tasks.length with
    | zero => simp [scheduled, AllocPhase.standing]
    | succ later => rfl

theorem standingOf_set_self (found : system.tasks[id]? = some task)
    (tasks : next.tasks = system.tasks.set id task') :
    standingOf id system = task.phase.standing ∧ standingOf id next = task'.phase.standing := by
  unfold standingOf
  rw [tasks, found, List.getElem?_set_self (List.getElem?_eq_some_iff.mp found).1]
  exact ⟨rfl, rfl⟩

theorem standingOf_set_ne (tasks : next.tasks = system.tasks.set other task') (hid : other ≠ id) :
    standingOf id next = standingOf id system := by
  unfold standingOf
  rw [tasks, List.getElem?_set_ne hid]

theorem standingOf_live_iff (found : system.tasks[id]? = some task)
    (tasks : next.tasks = system.tasks.set id task')
    (hkept : ∀ handles, task'.phase.standing = .live handles ↔ task.phase.standing = .live handles)
    (other : Nat) (handles : List Int) :
    standingOf other next = .live handles ↔ standingOf other system = .live handles := by
  by_cases hid : id = other
  · subst hid
    obtain ⟨hbefore, hafter⟩ := standingOf_set_self found tasks
    rw [hbefore, hafter]
    exact hkept handles
  · rw [standingOf_set_ne tasks hid]

end standings
end CacheSystem
end Peerz.Server
