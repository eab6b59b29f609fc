import Peerz.Server.CacheContexts
import Peerz.Library.Runs

/-! Wake-ups of a thread that waits for free memory. A free lowers the size before it sets the
event, and the thread clears the event before it looks at the size again. -/
namespace Peerz.Server
open Library

variable {Device : Type} [DecidableEq Device]

def AllocTask.thread (task : AllocTask Device) : Option (Nat × WaitPhase) :=
  match task.phase with
  | .waiting phase => some (task.allocSize, phase)
  | _ => none

namespace CacheSystem

def loopThreads (system : CacheSystem Device) : List (Nat × WaitPhase) :=
  (system.tasks.filterMap AllocTask.thread ++ system.cache.strayWaiters).filter
    fun thread => thread.2 ≠ .done

def steppedThread (system : CacheSystem Device) : CacheEvent Device → Option (Nat × WaitPhase)
  | .task id .advance => system.tasks[id]?.bind AllocTask.thread
  | .strayWaits position => system.cache.strayWaiters[position]?
  | _ => none

/-- The event is not a commit that takes the counter past what it can hold. -/
def Counts (system : CacheSystem Device) : CacheEvent Device → Prop
  | .task id .advance => ∀ task ∈ system.tasks[id]?, task.phase = .granted →
      system.cache.currentSize ≤ toInt64 (system.cache.currentSize + task.allocSize)
  | _ => True

instance (system : CacheSystem Device) : DecidablePred system.Counts
  | .task id .advance => inferInstanceAs (Decidable (∀ task ∈ system.tasks[id]?, _ → _))
  | .task _ .expire | .task _ .giveUp | .task _ .free | .task _ .cancel => .isTrue trivial
  | .allocate _ _ | .strayWaits _ | .strayGivesUp _ | .strayAcquires | .receive => .isTrue trivial

/-- No thread waits for memory that is there already, unless a free is about to set the event. -/
def Awakening (system : CacheSystem Device) : Prop :=
  ∀ allocSize, (allocSize, .blocked) ∈ system.loopThreads →
    system.cache.memoryFreedEvent = false →
    system.cache.currentSize + allocSize ≤ system.cache.maxSizeBytes →
    ∃ task ∈ system.tasks, task.phase = .signalling

end CacheSystem

inductive WakeEffect (cache cache' : MemoryCache Device) (task task' : AllocTask Device) :
    TaskEvent → Prop
  | quiet {event : TaskEvent} (size : cache'.currentSize = cache.currentSize)
      (memoryFreed : cache'.memoryFreedEvent = cache.memoryFreedEvent)
      (apart : task.phase ≠ .signalling) : WakeEffect cache cache' task task' event
  | commits (granted : task.phase = .granted)
      (size : cache'.currentSize = toInt64 (cache.currentSize + task.allocSize))
      (memoryFreed : cache'.memoryFreedEvent = cache.memoryFreedEvent) :
      WakeEffect cache cache' task task' .advance
  | frees (signalling : task'.phase = .signalling) : WakeEffect cache cache' task task' .free
  | signals (memoryFreed : cache'.memoryFreedEvent = true) :
      WakeEffect cache cache' task task' .advance
  | clears (woken : task.thread = some (task.allocSize, .woken)) :
      WakeEffect cache cache' task task' .advance

/-- A thread is blocked after the step only if it was before, or if its size has not fitted. -/
structure Blocks (cache cache' : MemoryCache Device) (task task' : AllocTask Device) : Prop where
  own : ∀ allocSize, task'.thread = some (allocSize, .blocked) →
    task.thread = some (allocSize, .blocked) ∨
      cache'.maxSizeBytes < cache'.currentSize + allocSize
  strays : ∀ allocSize, (allocSize, .blocked) ∈ cache'.strayWaiters →
    task.thread = some (allocSize, .blocked) ∨ (allocSize, .blocked) ∈ cache.strayWaiters

section tasks
variable {cache cache' : MemoryCache Device} {task task' : AllocTask Device}

theorem Blocks.of_thread (thread : task'.thread = none)
    (strays : cache'.strayWaiters = cache.strayWaiters) : Blocks cache cache' task task' where
  own allocSize h := by
    rw [thread] at h
    cases h
  strays allocSize h := .inr (strays ▸ h)

omit [DecidableEq Device] in
theorem MemoryCache.waitStep_blocked {allocSize : Nat} {phase phase' : WaitPhase}
    (h : cache.waitStep allocSize phase = some (cache', phase')) :
    cache'.maxSizeBytes = cache.maxSizeBytes ∧ cache'.currentSize = cache.currentSize ∧
      cache'.strayWaiters = cache.strayWaiters ∧
      (phase' = .blocked → cache'.maxSizeBytes < cache'.currentSize + allocSize) ∧
      (phase' = .done → cache.currentSize + allocSize ≤ cache.maxSizeBytes) ∧
      (cache'.memoryFreedEvent = cache.memoryFreedEvent ∨ phase = .woken) := by
  unfold MemoryCache.waitStep at h
  cases phase with
  | testing =>
      cases h
      refine ⟨rfl, rfl, rfl, fun hblocked => ?_, fun hdone => ?_, .inl rfl⟩
      · by_contra hfits
        rw [if_neg hfits] at hblocked
        cases hblocked
      · by_contra hfull
        rw [if_pos (by omega)] at hdone
        cases hdone
  | blocked =>
      dsimp only at h
      split at h
      · cases h
        exact ⟨rfl, rfl, rfl, nofun, nofun, .inl rfl⟩
      · cases h
  | woken =>
      cases h
      exact ⟨rfl, rfl, rfl, nofun, nofun, .inr rfl⟩
  | done => cases h

theorem MemoryCache.act_wakes {id : Nat} {event : TaskEvent}
    (h : cache.act id task event = some (cache', task')) :
    cache'.maxSizeBytes = cache.maxSizeBytes ∧ Blocks cache cache' task task' ∧
      WakeEffect cache cache' task task' event := by
  cases MemoryCache.act_move h with
  | commits found => exact ⟨rfl, .of_thread rfl rfl, .commits found rfl rfl⟩
  | signals found => exact ⟨rfl, .of_thread rfl rfl, .signals rfl⟩
  | frees found => exact ⟨rfl, .of_thread rfl rfl, .frees rfl⟩
  | waits found waited =>
      obtain ⟨hmax, hsize, hstrays, hblocked, -, hevent⟩ := waitStep_blocked waited
      refine ⟨hmax, ⟨fun allocSize hthread => .inr ?_, fun allocSize hstray =>
        .inr (hstrays ▸ hstray)⟩, ?_⟩
      · obtain ⟨rfl, rfl⟩ := Prod.mk.inj (Option.some.inj hthread)
        exact hblocked rfl
      · rcases hevent with hevent | hwoken
        · exact .quiet hsize hevent (by simp [found])
        · exact .clears (by rw [AllocTask.thread, found, hwoken])
  | looks found | checks found =>
      refine ⟨rfl, ⟨fun allocSize hthread => ?_, fun allocSize hstray => .inr hstray⟩,
        .quiet rfl rfl (by simp [found])⟩
      unfold AllocTask.thread at hthread
      split_ifs at hthread <;> cases hthread
  | expiresWaiting found =>
      -- the thread goes on as a stray one
      refine ⟨rfl, ⟨fun allocSize hthread => (by cases hthread), fun allocSize hstray => ?_⟩,
        .quiet rfl rfl (by simp [found])⟩
      rcases List.mem_append.mp hstray with hbefore | hnew
      · exact .inr hbefore
      · obtain ⟨rfl, rfl⟩ := Prod.mk.inj (List.mem_singleton.mp hnew)
        exact .inl (by simp only [AllocTask.thread, found])
  | cancels unfreed =>
      exact ⟨rfl, ⟨fun allocSize hthread => .inl hthread, fun allocSize hstray => .inr hstray⟩,
        .quiet rfl rfl unfreed⟩
  | enqueues found | acquires found | returns found | unlocks found | grants found
  | unlocksFailing found | fails found | expiresAcquiring found | expiresDone found
  | givesUp found =>
      exact ⟨rfl, .of_thread rfl rfl, .quiet rfl rfl (by simp [found])⟩

theorem AllocTask.fits_of_done {id allocSize : Nat} {phase : WaitPhase}
    (h : cache.act id task .advance = some (cache', task'))
    (hbefore : task.thread = some (allocSize, phase)) (hphase : phase ≠ .done)
    (hafter : task'.thread = some (allocSize, .done)) :
    cache.currentSize + allocSize ≤ cache.maxSizeBytes := by
  unfold AllocTask.thread at hbefore
  split at hbefore
  · rename_i before hwaiting
    obtain ⟨rfl, rfl⟩ := Prod.mk.inj (Option.some.inj hbefore)
    cases MemoryCache.act_move h with
    | waits found waited =>
        cases hwaiting.symm.trans found
        obtain ⟨-, -, -, -, hdone, -⟩ := MemoryCache.waitStep_blocked waited
        exact hdone (Prod.mk.inj (Option.some.inj hafter)).2
    | returns found =>
        cases hwaiting.symm.trans found
        exact absurd rfl hphase
    | enqueues found | looks found | acquires found | checks found | unlocks found | grants found
    | commits found | signals found | unlocksFailing found | fails found =>
        cases hwaiting.symm.trans found
  · cases hbefore

end tasks

namespace CacheSystem

variable {system next : CacheSystem Device}

theorem mem_loopThreads {allocSize : Nat} {phase : WaitPhase} (h : phase ≠ .done) :
    (allocSize, phase) ∈ system.loopThreads ↔
      (∃ task ∈ system.tasks, task.thread = some (allocSize, phase)) ∨
        (allocSize, phase) ∈ system.cache.strayWaiters := by
  simp [loopThreads, h]

theorem blocked_mem_loopThreads {allocSize : Nat} :
    (allocSize, .blocked) ∈ system.loopThreads ↔
      (∃ task ∈ system.tasks, task.thread = some (allocSize, .blocked)) ∨
        (allocSize, .blocked) ∈ system.cache.strayWaiters :=
  mem_loopThreads nofun

theorem not_woken_of_blocked (hone : system.loopThreads.length ≤ 1) {blocked woken : Nat}
    (hblocked : (blocked, .blocked) ∈ system.loopThreads) :
    (woken, .woken) ∉ system.loopThreads := by
  intro hwoken
  obtain ⟨thread, hthread⟩ := List.length_eq_one_iff.mp
    (Nat.le_antisymm hone (List.length_pos_of_mem hblocked))
  rw [hthread, List.mem_singleton] at hblocked hwoken
  cases hblocked.trans hwoken.symm

theorem Awakening.of_kept (h : system.Awakening)
    (max : next.cache.maxSizeBytes = system.cache.maxSizeBytes)
    (threads : ∀ allocSize, (allocSize, .blocked) ∈ next.loopThreads →
      (allocSize, .blocked) ∈ system.loopThreads ∨
        next.cache.maxSizeBytes < next.cache.currentSize + allocSize)
    (size : system.cache.currentSize ≤ next.cache.currentSize)
    (memoryFreed : next.cache.memoryFreedEvent = system.cache.memoryFreedEvent)
    (signalling : ∀ task ∈ system.tasks, task.phase = .signalling → task ∈ next.tasks) :
    next.Awakening := by
  intro allocSize hblocked hevent hfits
  rcases threads allocSize hblocked with hbefore | hfull
  · obtain ⟨task, htask, hphase⟩ := h allocSize hbefore (memoryFreed ▸ hevent) (by omega)
    exact ⟨task, signalling task htask hphase, hphase⟩
  · omega

theorem mem_set_of_ne {task task' other : AllocTask Device} {id : Nat}
    (found : system.tasks[id]? = some task) (hother : other ∈ system.tasks) (hne : other ≠ task) :
    other ∈ system.tasks.set id task' := by
  obtain ⟨position, hposition⟩ := List.mem_iff_getElem?.mp hother
  have hid : id ≠ position := by
    rintro rfl
    exact hne (Option.some.inj (hposition.symm.trans found))
  rw [← List.getElem?_set_ne hid] at hposition
  exact List.mem_of_getElem? hposition

section acting
variable {id : Nat} {task task' : AllocTask Device} {cache' : MemoryCache Device}
  (found : system.tasks[id]? = some task)
include found

theorem threads_set (hblocks : Blocks system.cache cache' task task') (allocSize : Nat)
    (hblocked : (allocSize, .blocked) ∈ loopThreads ⟨cache', system.tasks.set id task'⟩) :
    (allocSize, .blocked) ∈ system.loopThreads ∨
      cache'.maxSizeBytes < cache'.currentSize + allocSize := by
  have hown (h : task.thread = some (allocSize, .blocked)) :
      (allocSize, .blocked) ∈ system.loopThreads :=
    blocked_mem_loopThreads.mpr (.inl ⟨task, List.mem_of_getElem? found, h⟩)
  rcases blocked_mem_loopThreads.mp hblocked with ⟨other, hother, hthread⟩ | hstray
  · rcases List.mem_or_eq_of_mem_set hother with hbefore | rfl
    · exact .inl (blocked_mem_loopThreads.mpr (.inl ⟨other, hbefore, hthread⟩))
    · exact (hblocks.own allocSize hthread).imp_left hown
  · rcases hblocks.strays allocSize hstray with hthread | hbefore
    · exact .inl (hown hthread)
    · exact .inl (blocked_mem_loopThreads.mpr (.inr hbefore))

theorem Awakening.act (h : system.Awakening) (hone : system.loopThreads.length ≤ 1)
    {event : TaskEvent} (hcounts : system.Counts (.task id event))
    (hact : system.cache.act id task event = some (cache', task')) :
    Awakening ⟨cache', system.tasks.set id task'⟩ := by
  obtain ⟨hmax, hblocks, heffect⟩ := MemoryCache.act_wakes hact
  have hthreads := threads_set found hblocks
  have hkept (happart : task.phase ≠ .signalling) (other : AllocTask Device)
      (hother : other ∈ system.tasks) (hphase : other.phase = .signalling) :
      other ∈ system.tasks.set id task' :=
    mem_set_of_ne found hother fun hsame => happart (hsame ▸ hphase)
  cases heffect with
  | quiet hsize hevent happart => exact h.of_kept hmax hthreads hsize.ge hevent (hkept happart)
  | commits hgranted hsize hevent =>
      have hle : system.cache.currentSize ≤ cache'.currentSize :=
        hsize ▸ hcounts task found hgranted
      exact h.of_kept hmax hthreads hle hevent (hkept (by simp [hgranted]))
  | frees hsignalling =>
      have hmem : task' ∈ system.tasks.set id task' :=
        List.mem_set (List.getElem?_eq_some_iff.mp found).1 task'
      exact fun _ _ _ _ => ⟨task', hmem, hsignalling⟩
  | signals hevent =>
      intro _ _ hcleared _
      change cache'.memoryFreedEvent = false at hcleared
      rw [hevent] at hcleared
      cases hcleared
  | clears hwoken =>
      -- the thread that clears the event is the only one in the loop
      intro allocSize hblocked _ hfits
      change cache'.currentSize + allocSize ≤ cache'.maxSizeBytes at hfits
      rcases hthreads allocSize hblocked with hbefore | hfull
      · exact absurd ((mem_loopThreads (by decide)).mpr
          (.inl ⟨task, List.mem_of_getElem? found, hwoken⟩))
          (not_woken_of_blocked hone hbefore)
      · omega

end acting

theorem Awakening.step {event : CacheEvent Device} (h : system.Awakening)
    (hone : system.loopThreads.length ≤ 1) (hcounts : system.Counts event)
    (hstep : system.step event = some next) : next.Awakening := by
  cases event with
  | allocate descriptors timeout =>
      unfold CacheSystem.step allocate at hstep
      dsimp only at hstep
      split at hstep
      · split at hstep
        · cases hstep
        · split at hstep
          · cases hstep
          · cases hstep
            refine h.of_kept rfl (fun allocSize hblocked => .inl ?_) le_rfl rfl
              fun task htask _ => List.mem_append_left _ htask
            rw [blocked_mem_loopThreads] at hblocked ⊢
            refine hblocked.imp_left ?_
            rintro ⟨task, htask, hthread⟩
            rcases List.mem_append.mp htask with hbefore | hnew
            · exact ⟨task, hbefore, hthread⟩
            · rw [List.mem_singleton.mp hnew] at hthread
              cases hthread
      · cases hstep
  | task id taskEvent =>
      obtain ⟨task, htask, hstep⟩ := Option.bind_eq_some_iff.mp hstep
      obtain ⟨⟨cache', task'⟩, hact, hnext⟩ := Option.bind_eq_some_iff.mp hstep
      cases hnext
      exact h.act htask hone hcounts hact
  | strayWaits position =>
      obtain ⟨⟨allocSize, phase⟩, hstray, hstep⟩ := Option.bind_eq_some_iff.mp hstep
      obtain ⟨⟨cache', phase'⟩, hwait, hnext⟩ := Option.bind_eq_some_iff.mp hstep
      obtain ⟨hmax, hsize, hstrays, hblocked, -, hevent⟩ := MemoryCache.waitStep_blocked hwait
      cases hnext
      have hthreads (other : Nat) (hother : (other, .blocked) ∈ loopThreads
          ⟨{ cache' with strayWaiters := cache'.strayWaiters.set position (allocSize, phase') },
            system.tasks⟩) :
          (other, .blocked) ∈ system.loopThreads ∨
            cache'.maxSizeBytes < cache'.currentSize + other := by
        rw [blocked_mem_loopThreads] at hother ⊢
        rcases hother with htask | hmem
        · exact .inl (.inl htask)
        · rcases List.mem_or_eq_of_mem_set hmem with hbefore | hnew
          · exact .inl (.inr (hstrays ▸ hbefore))
          · obtain ⟨rfl, rfl⟩ := Prod.mk.inj hnew
            exact .inr (hblocked rfl)
      rcases hevent with hevent | rfl
      · exact h.of_kept hmax hthreads hsize.ge hevent fun task htask _ => htask
      · intro other hother _ hfits
        change cache'.currentSize + other ≤ cache'.maxSizeBytes at hfits
        rcases hthreads other hother with hbefore | hfull
        · exact absurd ((mem_loopThreads (by decide)).mpr (.inr (List.mem_of_getElem? hstray)))
            (not_woken_of_blocked hone hbefore)
        · omega
  | strayGivesUp position =>
      obtain ⟨⟨allocSize, phase⟩, -, hstep⟩ := Option.bind_eq_some_iff.mp hstep
      dsimp only at hstep
      split at hstep
      · cases hstep
        refine h.of_kept rfl (fun other hother => .inl ?_) le_rfl rfl fun task htask _ => htask
        rw [blocked_mem_loopThreads] at hother ⊢
        refine hother.imp_right fun hmem => ?_
        rcases List.mem_or_eq_of_mem_set hmem with hbefore | hnew
        · exact hbefore
        · cases hnew
      · cases hstep
  | strayAcquires =>
      unfold CacheSystem.step at hstep
      dsimp only at hstep
      split at hstep
      · cases hstep
        exact h.of_kept rfl (fun other hother => .inl hother) le_rfl rfl fun task htask _ => htask
      · cases hstep
  | receive =>
      obtain ⟨cache', hreceive, hnext⟩ := Option.bind_eq_some_iff.mp hstep
      unfold MemoryCache.receive at hreceive
      cases hnext
      split at hreceive
      · cases hreceive
      · cases hreceive
        exact h.of_kept rfl (fun other hother => .inl hother) le_rfl rfl fun task htask _ => htask

theorem fits_of_done {event : CacheEvent Device} {allocSize : Nat} {phase : WaitPhase}
    (hstep : system.step event = some next)
    (hbefore : system.steppedThread event = some (allocSize, phase)) (hphase : phase ≠ .done)
    (hafter : next.steppedThread event = some (allocSize, .done)) :
    system.cache.currentSize + allocSize ≤ system.cache.maxSizeBytes := by
  cases event with
  | task id taskEvent =>
      cases taskEvent with
      | advance =>
          obtain ⟨task, htask, hstep⟩ := Option.bind_eq_some_iff.mp hstep
          obtain ⟨⟨cache', task'⟩, hact, hnext⟩ := Option.bind_eq_some_iff.mp hstep
          cases hnext
          have hlength := (List.getElem?_eq_some_iff.mp htask).1
          simp only [steppedThread, htask, Option.bind_some,
            List.getElem?_set_self hlength] at hbefore hafter
          exact task.fits_of_done hact hbefore hphase hafter
      | expire | giveUp | free | cancel => cases hbefore
  | strayWaits position =>
      obtain ⟨⟨stray, strayPhase⟩, hstray, hstep⟩ := Option.bind_eq_some_iff.mp hstep
      obtain ⟨⟨cache', phase'⟩, hwait, hnext⟩ := Option.bind_eq_some_iff.mp hstep
      obtain ⟨-, -, hstrays, -, hdone, -⟩ := MemoryCache.waitStep_blocked hwait
      cases hnext
      have hlength := (List.getElem?_eq_some_iff.mp hstray).1
      simp only [steppedThread, hstrays, List.getElem?_set_self hlength] at hafter
      obtain ⟨rfl, rfl⟩ := Prod.mk.inj (Option.some.inj hafter)
      exact hdone rfl
  | allocate _ _ | strayGivesUp _ | strayAcquires | receive => cases hbefore

/-- In every run in which at most one thread is in the loop at a time and no commit overflows the
counter, no wake-up is lost, and a thread leaves the loop where its memory is there. -/
theorem noLostWakeUp {start system : CacheSystem Device} {events : List (CacheEvent Device)}
    (hstart : ∀ allocSize, (allocSize, .blocked) ∉ start.loopThreads)
    (hone : EveryState CacheSystem.step (fun system => system.loopThreads.length ≤ 1) start events)
    (hcounts : EveryStep CacheSystem.step CacheSystem.Counts start events)
    (hrun : LeadsTo CacheSystem.step start events system) :
    system.Awakening ∧ ∀ event next allocSize phase, system.step event = some next →
      system.steppedThread event = some (allocSize, phase) → phase ≠ .done →
      next.steppedThread event = some (allocSize, .done) →
      system.cache.currentSize + allocSize ≤ system.cache.maxSizeBytes := by
  have hsteps := hcounts.and_everyState hone
  have hall : EveryState CacheSystem.step Awakening start events :=
    everyState_of_everyStep
      (fun state event next h hstep hok => Awakening.step h hok.1 hok.2 hstep)
      (fun allocSize hblocked => absurd hblocked (hstart allocSize)) hsteps
  exact ⟨hall.final hrun, fun event next allocSize phase => fits_of_done⟩

private def secondWaits : List (CacheEvent Unit) :=
  .allocate [⟨[10], .uint8, some ()⟩] none :: List.replicate 7 (.task 0 .advance) ++
    .allocate [⟨[10], .uint8, some ()⟩] (some 1) :: List.replicate 5 (.task 1 .advance)

private def freedBehind : List (CacheEvent Unit) := secondWaits ++ [.task 0 .free]

/-- A third context waits when the time of the second one is up. -/
private def thirdWaits : List (CacheEvent Unit) :=
  secondWaits ++ [.task 1 .expire, .task 1 .advance] ++
    .allocate [⟨[10], .uint8, some ()⟩] none :: List.replicate 5 (.task 2 .advance) ++
    [.task 0 .free, .task 0 .advance, .strayWaits 0, .strayWaits 0]

/-- The bytes are free, and the event that will say so is not set yet. -/
theorem noLostWakeUp_freedBehind :
    ∃ system : CacheSystem Unit, LeadsTo step (new (some 10) none) freedBehind system ∧
      system.cache.currentSize = 0 ∧ system.loopThreads = [(10, .blocked)] ∧
      system.Awakening := by
  have hruns : (freedBehind.foldlM step (new (some 10) none)).map
      (fun system : CacheSystem Unit => (system.cache.currentSize, system.loopThreads)) =
      some ((0 : Int), [(10, .blocked)]) := by decide +kernel
  obtain ⟨system, hrun, hsystem⟩ := Option.map_eq_some_iff.mp hruns
  obtain ⟨hsize, hthreads⟩ := Prod.mk.inj hsystem
  have hstart (allocSize : Nat) :
      (allocSize, .blocked) ∉ (new (some 10) none : CacheSystem Unit).loopThreads :=
    List.not_mem_nil
  exact ⟨system, hrun, hsize, hthreads,
    (noLostWakeUp hstart (by decide +kernel) (by decide +kernel) hrun).1⟩

/-- A timeout leaves the thread of its context in the loop and gives up the lock. With a second
thread in the loop, the first one can clear the event before the second one has seen it. -/
theorem wakeUp_lost_thirdWaits :
    ∃ system : CacheSystem Unit, LeadsTo step (new (some 10) none) thirdWaits system ∧
      ¬ system.Awakening := by
  have hruns : (thirdWaits.foldlM step (new (some 10) none)).map
      (fun system : CacheSystem Unit =>
        (system.loopThreads, system.cache.memoryFreedEvent, system.cache.currentSize,
          system.cache.maxSizeBytes, system.tasks.map AllocTask.phase)) =
      some ([(10, .blocked), (10, .testing)], false, (0 : Int), 10,
        [.freed, .failing, .waiting .blocked]) := by decide +kernel
  obtain ⟨system, hrun, hsystem⟩ := Option.map_eq_some_iff.mp hruns
  simp only [Prod.mk.injEq] at hsystem
  obtain ⟨hthreads, hevent, hsize, hmax, hphases⟩ := hsystem
  refine ⟨system, hrun, fun h => ?_⟩
  obtain ⟨task, htask, hphase⟩ := h 10 (by simp [hthreads]) hevent (by omega)
  have hmem := List.mem_map_of_mem (f := AllocTask.phase) htask
  simp [hphases, hphase] at hmem

end CacheSystem
end Peerz.Server
