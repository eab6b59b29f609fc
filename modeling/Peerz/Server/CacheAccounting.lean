import Peerz.Server.CacheBudget

/-! The two byte counters of the attention cache are exact, however its contexts end. -/
namespace Peerz.Server
open Library

variable {Device : Type} [DecidableEq Device]

/-- The bytes of a request that has entered `_wait_for_free_memory` and has neither got its
memory nor left with an error. -/
def AllocTask.enqueuedBytes (task : AllocTask Device) : Nat :=
  if task.phase.standing = .enqueued then task.allocSize else 0

def AllocTask.Exited (task : AllocTask Device) : Prop := task.phase = .freed ∨ task.phase = .failed

instance (task : AllocTask Device) : Decidable task.Exited := inferInstanceAs (Decidable (_ ∨ _))

def Standing.everCommitted : Standing → Bool
  | .live _ | .freed => true
  | _ => false

theorem AllocPhase.committed_eq (phase : AllocPhase) :
    phase.committed = match phase.standing with
      | .live _ => true
      | _ => false := by
  cases phase <;> rfl

section tasks
variable {cache cache' : MemoryCache Device} {task task' : AllocTask Device} {event : TaskEvent}

theorem toInt64_add (total change : Int) :
    toInt64 (toInt64 total + change) = toInt64 (total + change) :=
  Int.bmod_add_bmod

theorem toInt64_sub (total change : Int) :
    toInt64 (toInt64 total - change) = toInt64 (total - change) :=
  Int.bmod_sub_bmod

theorem TaskEffect.counters (h : TaskEffect cache cache' task task' event)
    (hsize : task'.allocSize = task.allocSize) {committed enqueued : Int}
    (hcommitted : cache.currentSize = toInt64 committed)
    (henqueued : cache.enqueuedSize = toInt64 enqueued) :
    cache'.currentSize = toInt64 (committed + (task'.committedBytes - task.committedBytes)) ∧
      cache'.enqueuedSize = toInt64 (enqueued + (task'.enqueuedBytes - task.enqueuedBytes)) := by
  unfold AllocTask.committedBytes AllocTask.enqueuedBytes
  rw [AllocPhase.committed_eq, AllocPhase.committed_eq, hsize]
  cases h with
  | stays books standing kept =>
      rw [books.currentSize, books.enqueuedSize, standing, hcommitted, henqueued]
      simp
  | enqueues before after books =>
      rw [books.currentSize, books.enqueuedSize, after, before, hcommitted, henqueued, toInt64_add]
      simp [AllocPhase.standing]
  | dequeues before after books =>
      rw [books.currentSize, books.enqueuedSize, before, hcommitted, henqueued, toInt64_sub]
      rcases after with after | after
      · rw [after]
        simp [sub_eq_add_neg]
      · rw [after]
        simp [sub_eq_add_neg]
  | commits before after books =>
      rw [books.currentSize, books.enqueuedSize, after, before, hcommitted, henqueued, toInt64_add]
      simp [AllocPhase.standing]
  | frees handles before after books =>
      rw [books.currentSize, books.enqueuedSize, after, before, hcommitted, henqueued, toInt64_sub]
      simp [AllocPhase.standing, sub_eq_add_neg]

end tasks

namespace CacheSystem

def enqueuedBytes (system : CacheSystem Device) : Nat :=
  (system.tasks.map AllocTask.enqueuedBytes).sum

/-- The counters hold the sums, up to the wrapping of a `c_int64`. -/
structure Accounted (system : CacheSystem Device) : Prop where
  committed : system.cache.currentSize = toInt64 system.committedBytes
  enqueued : system.cache.enqueuedSize = toInt64 system.enqueuedBytes

def commitsOf (id : Nat) (system : CacheSystem Device) : CacheEvent Device → Bool
  | .task other .advance =>
      other = id && system.tasks[id]?.any fun task => task.phase = .granted
  | _ => false

def freesOf (id : Nat) (_ : CacheSystem Device) : CacheEvent Device → Bool
  | .task other .free => other = id
  | _ => false

theorem commitsOf_eq_false {system : CacheSystem Device} {id : Nat} {task : AllocTask Device}
    {event : TaskEvent} (found : system.tasks[id]? = some task)
    (hkind : task.phase ≠ .granted ∨ event ≠ .advance) (other : Nat) :
    commitsOf other system (.task id event) = false := by
  cases event with
  | advance =>
      have hphase : task.phase ≠ .granted := hkind.resolve_right fun hevent => hevent rfl
      by_cases hid : id = other
      · subst hid
        simp [commitsOf, found, hphase]
      · simp [commitsOf, hid]
  | expire | giveUp | free | cancel => rfl

theorem accounted_new (maxSizeBytes : Option Nat) (maxAllocTimeout : Option (WithTop ℚ)) :
    (new maxSizeBytes maxAllocTimeout : CacheSystem Device).Accounted := by
  have hzero : toInt64 0 = 0 := toInt64_natCast (Nat.two_pow_pos 63)
  exact ⟨hzero.symm, hzero.symm⟩

theorem Accounted.of_tasks {system next : CacheSystem Device} (h : system.Accounted)
    (htasks : next.tasks = system.tasks)
    (hcurrent : next.cache.currentSize = system.cache.currentSize)
    (henqueued : next.cache.enqueuedSize = system.cache.enqueuedSize) : next.Accounted := by
  obtain ⟨hcommittedBytes, henqueuedBytes⟩ := h
  unfold committedBytes at hcommittedBytes
  unfold enqueuedBytes at henqueuedBytes
  rw [← htasks] at hcommittedBytes henqueuedBytes
  exact ⟨hcurrent.trans hcommittedBytes, henqueued.trans henqueuedBytes⟩

theorem accounted_step {system next : CacheSystem Device} {event : CacheEvent Device}
    (h : system.Accounted) (hstep : system.step event = some next) : next.Accounted := by
  cases step_effect hstep with
  | opens task scheduled cache tasks =>
      have hcommitted : next.committedBytes = system.committedBytes := by
        unfold committedBytes
        simp [tasks, AllocTask.committedBytes, scheduled, AllocPhase.committed]
      have henqueued : next.enqueuedBytes = system.enqueuedBytes := by
        unfold enqueuedBytes
        simp [tasks, AllocTask.enqueuedBytes, scheduled, AllocPhase.standing]
      exact ⟨by rw [cache, hcommitted, h.committed], by rw [cache, henqueued, h.enqueued]⟩
  | steps task task' found tasks allocSize descriptors effect =>
      obtain ⟨hcurrent, hqueue⟩ := effect.counters allocSize h.committed h.enqueued
      have hcommitted := sum_map_set AllocTask.committedBytes task' found
      have henqueued := sum_map_set AllocTask.enqueuedBytes task' found
      rw [← tasks] at hcommitted henqueued
      change next.committedBytes + _ = system.committedBytes + _ at hcommitted
      change next.enqueuedBytes + _ = system.enqueuedBytes + _ at henqueued
      refine ⟨?_, ?_⟩
      · rw [hcurrent]
        congr 1
        omega
      · rw [hqueue]
        congr 1
        omega
  | strays apart running tasks books =>
      exact h.of_tasks tasks books.currentSize books.enqueuedSize
  | receives message pipe tasks received =>
      obtain ⟨hcurrent, henqueued, -⟩ := MemoryCache.receive_counters received
      exact h.of_tasks tasks hcurrent henqueued

def everCommitted (id : Nat) (system : CacheSystem Device) : Nat :=
  if (standingOf id system).everCommitted then 1 else 0

def everFreed (id : Nat) (system : CacheSystem Device) : Nat :=
  if standingOf id system = .freed then 1 else 0

theorem standing_step {system next : CacheSystem Device} {event : CacheEvent Device}
    (hstep : system.step event = some next) (id : Nat) :
    everCommitted id next = everCommitted id system + (if commitsOf id system event then 1 else 0) ∧
      everFreed id next = everFreed id system + (if freesOf id system event then 1 else 0) := by
  unfold everCommitted everFreed
  cases step_effect hstep with
  | opens task scheduled cache tasks =>
      rw [standingOf_opens scheduled tasks]
      exact ⟨rfl, rfl⟩
  | @steps other taskEvent task task' found tasks allocSize descriptors effect =>
      by_cases hid : other = id
      · subst hid
        obtain ⟨hbefore, hafter⟩ := standingOf_set_self found tasks
        rw [hbefore, hafter]
        cases effect with
        | stays books standing kept =>
            rw [standing]
            rcases kept with ⟨hfree, hgranted⟩ | rfl
            · cases taskEvent <;> simp_all [commitsOf, freesOf]
            · exact ⟨rfl, rfl⟩
        | enqueues before after books =>
            have hstanding : task.phase.standing = .scheduled := by rw [before]; rfl
            rw [after, hstanding]
            simp [commitsOf, freesOf, found, before, Standing.everCommitted]
        | dequeues before after books =>
            have hphase : task.phase ≠ .granted := by
              intro hgranted
              rw [hgranted] at before
              cases before
            rcases after with after | after
            · simp [commitsOf, freesOf, found, before, after, hphase, Standing.everCommitted]
            · simp [commitsOf, freesOf, found, before, after, hphase, Standing.everCommitted]
        | commits before after books =>
            have hstanding : task.phase.standing = .granted := by rw [before]; rfl
            rw [after, hstanding]
            simp [commitsOf, freesOf, found, before, Standing.everCommitted]
        | frees handles before after books =>
            have hstanding : task.phase.standing = .live handles := by rw [before]; rfl
            rw [after, hstanding]
            simp [commitsOf, freesOf, Standing.everCommitted]
      · rw [standingOf_set_ne tasks hid]
        have hcommits : commitsOf id system (.task other taskEvent) = false := by
          cases taskEvent <;> simp [commitsOf, hid]
        have hfrees : freesOf id system (.task other taskEvent) = false := by
          cases taskEvent <;> simp [freesOf, hid]
        rw [hcommits, hfrees]
        exact ⟨rfl, rfl⟩
  | strays apart running tasks books =>
      rw [standingOf_of_tasks tasks]
      cases event with
      | task other taskEvent => exact absurd rfl (apart other taskEvent)
      | allocate descriptors timeout | strayWaits position | strayGivesUp position | strayAcquires |
          receive => exact ⟨rfl, rfl⟩
  | receives message pipe tasks received =>
      rw [standingOf_of_tasks tasks]
      exact ⟨rfl, rfl⟩

/-- In every state of every run both counters are exact, and no context counts its bytes in or
out more than once. A context that is over has counted out what it counted in. -/
theorem accounted_run {maxSizeBytes : Option Nat} {maxAllocTimeout : Option (WithTop ℚ)}
    {events : List (CacheEvent Device)} {system : CacheSystem Device}
    (h : LeadsTo step (new maxSizeBytes maxAllocTimeout) events system) :
    (system.committedBytes < 2 ^ 63 → system.cache.currentSize = system.committedBytes) ∧
      (system.enqueuedBytes < 2 ^ 63 → system.cache.enqueuedSize = system.enqueuedBytes) ∧
      (∀ id,
        let commits := countSteps step (commitsOf id) (new maxSizeBytes maxAllocTimeout) events
        let frees := countSteps step (freesOf id) (new maxSizeBytes maxAllocTimeout) events
        commits ≤ 1 ∧ frees ≤ commits ∧
          ∀ task, system.tasks[id]? = some task → task.Exited → frees = commits) ∧
      ((∀ task ∈ system.tasks, task.Exited) →
        system.cache.currentSize = 0 ∧ system.cache.enqueuedSize = 0) := by
  have haccounted : system.Accounted := 
    h.invariant (fun _ _ _ => accounted_step) (accounted_new maxSizeBytes maxAllocTimeout)
  refine ⟨?_, ?_, ?_, ?_⟩
  · intro hint64
    rw [haccounted.committed, toInt64_natCast hint64]
  · intro hint64
    rw [haccounted.enqueued, toInt64_natCast hint64]
  · intro id commits frees
    have hstart : standingOf id (new maxSizeBytes maxAllocTimeout : CacheSystem Device) =
        .scheduled := by
      simp [standingOf, new]
    have hcommits := h.measure fun _ _ _ hstep => (standing_step hstep id).1
    have hfrees := h.measure fun _ _ _ hstep => (standing_step hstep id).2
    unfold everCommitted at hcommits
    unfold everFreed at hfrees
    rw [hstart] at hcommits hfrees
    change _ = 0 + commits at hcommits
    change _ = 0 + frees at hfrees
    have hfreed : standingOf id system = .freed → (standingOf id system).everCommitted = true := by
      intro hfreed
      rw [hfreed]
      rfl
    refine ⟨?_, ?_, ?_⟩
    · split at hcommits <;> omega
    · by_cases hstands : standingOf id system = .freed
      · rw [if_pos hstands] at hfrees
        rw [if_pos (hfreed hstands)] at hcommits
        omega
      · rw [if_neg hstands] at hfrees
        omega
    · intro task htask hexited
      have hstanding : standingOf id system = task.phase.standing := by
        simp [standingOf, htask]
      rw [hstanding] at hcommits hfrees
      rcases hexited with hphase | hphase
      · rw [hphase] at hcommits hfrees
        exact Nat.add_left_cancel (hfrees.symm.trans hcommits)
      · rw [hphase] at hcommits hfrees
        exact Nat.add_left_cancel (hfrees.symm.trans hcommits)
  · intro hexited
    have hcommitted : system.committedBytes = 0 := by
      apply List.sum_eq_zero
      intro bytes hbytes
      obtain ⟨task, htask, rfl⟩ := List.mem_map.mp hbytes
      apply AllocTask.committedBytes_of_false
      rcases hexited task htask with hphase | hphase
      · rw [hphase]
        rfl
      · rw [hphase]
        rfl
    have henqueued : system.enqueuedBytes = 0 := by
      apply List.sum_eq_zero
      intro bytes hbytes
      obtain ⟨task, htask, rfl⟩ := List.mem_map.mp hbytes
      unfold AllocTask.enqueuedBytes
      apply if_neg
      rcases hexited task htask with hphase | hphase
      · rw [hphase]
        exact nofun
      · rw [hphase]
        exact nofun
    have hzero : toInt64 0 = 0 := toInt64_natCast (Nat.two_pow_pos 63)
    rw [haccounted.committed, haccounted.enqueued, hcommitted, henqueued]
    exact ⟨hzero, hzero⟩

private def oneExpires : List (CacheEvent Unit) :=
  [.allocate [⟨[6], .uint8, some ()⟩] none, .allocate [⟨[6], .uint8, some ()⟩] (some 1)] ++
    List.replicate 7 (.task 0 .advance) ++ List.replicate 5 (.task 1 .advance) ++
    [.task 1 .cancel, .task 1 .expire, .task 1 .advance, .task 1 .advance, .task 0 .free,
      .task 0 .advance]

theorem accounted_run_oneExpires :
    ∃ system : CacheSystem Unit, LeadsTo step (new (some 10) none) oneExpires system ∧
      system.cache.currentSize = 0 ∧ system.cache.enqueuedSize = 0 := by
  have hruns : ((oneExpires.foldlM step (new (some 10) none)).map
      fun system : CacheSystem Unit => decide (∀ task ∈ system.tasks, task.Exited)) = some true := by
    decide +kernel
  obtain ⟨system, hrun, hexited⟩ := Option.map_eq_some_iff.mp hruns
  exact ⟨system, hrun, (accounted_run hrun).2.2.2 (of_decide_eq_true hexited)⟩

end CacheSystem
end Peerz.Server
