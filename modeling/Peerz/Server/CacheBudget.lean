import Mathlib.Algebra.Order.BigOperators.Group.List
import Peerz.Library.Runs
import Peerz.Server.CacheContexts

/-! The budget of the attention cache. A request is checked under one lock and counted under
another one; between the two it is promised its bytes, which no other check can see. -/
namespace Peerz.Server
open Library

section sizes
variable {Device : Type} [DecidableEq Device]

def bytesOn (device : Option Device) (descriptors : List (TensorDescriptor Device)) : Nat :=
  (descriptors.map fun descriptor =>
    if descriptor.device = device then descriptor.tensorSize else 0).sum

theorem allocSizeByDevice_get? (device : Option Device)
    (descriptors : List (TensorDescriptor Device)) :
    ((allocSizeByDevice descriptors).get? device).getD 0 = bytesOn device descriptors := by
  have hfold : ∀ (descriptors : List (TensorDescriptor Device)) (sizes : Dict (Option Device) Nat),
      ((descriptors.foldl (fun sizes descriptor => sizes.insert descriptor.device
        ((sizes.get? descriptor.device).getD 0 + descriptor.tensorSize)) sizes).get? device).getD 0 =
        (sizes.get? device).getD 0 + bytesOn device descriptors := by
    intro descriptors
    induction descriptors with
    | nil => simp [bytesOn]
    | cons descriptor descriptors ih =>
        intro sizes
        rw [List.foldl_cons, ih, Dict.get?_insert]
        unfold bytesOn
        rw [List.map_cons, List.sum_cons]
        by_cases hdevice : descriptor.device = device
        · subst hdevice
          simp [add_assoc]
        · rw [if_neg fun h => hdevice h.symm, if_neg hdevice, zero_add]
  rw [allocSizeByDevice, hfold]
  simp

theorem bytesOn_le {descriptors : List (TensorDescriptor Device)} {allocSize : Nat}
    (h : getAllocationSize descriptors = some allocSize) (device : Option Device) :
    bytesOn device descriptors ≤ allocSize := by
  obtain ⟨-, hgreatest⟩ := List.max?_eq_some_iff.mp h
  rw [← allocSizeByDevice_get?]
  cases hget : (allocSizeByDevice descriptors).get? device with
  | none => exact Nat.zero_le _
  | some size => exact hgreatest size (Dict.mem_values_iff.mpr ⟨device, hget⟩)

theorem bytesOn_append (device : Option Device) (left right : List (TensorDescriptor Device)) :
    bytesOn device (left ++ right) = bytesOn device left + bytesOn device right := by
  unfold bytesOn
  rw [List.map_append, List.sum_append]

end sizes

def AllocPhase.committed : AllocPhase → Bool
  | .live _ => true
  | _ => false

def AllocPhase.promised : AllocPhase → Bool
  | .waiting .done | .fits | .released | .granted => true
  | _ => false

variable {Device : Type} [DecidableEq Device]

def AllocTask.committedBytes (task : AllocTask Device) : Nat :=
  if task.phase.committed then task.allocSize else 0

def AllocTask.promisedBytes (task : AllocTask Device) : Nat :=
  if task.phase.promised then task.allocSize else 0

section bytes
variable {task : AllocTask Device}

theorem AllocTask.committedBytes_of_true (h : task.phase.committed = true) :
    task.committedBytes = task.allocSize :=
  if_pos h

theorem AllocTask.committedBytes_of_false (h : task.phase.committed = false) :
    task.committedBytes = 0 :=
  if_neg (by simp [h])

theorem AllocTask.promisedBytes_of_true (h : task.phase.promised = true) :
    task.promisedBytes = task.allocSize :=
  if_pos h

theorem AllocTask.promisedBytes_of_false (h : task.phase.promised = false) :
    task.promisedBytes = 0 :=
  if_neg (by simp [h])

end bytes

/-- The next step of the task finds that its bytes fit. -/
def MemoryCache.PassesCheck (cache : MemoryCache Device) (task : AllocTask Device) : Prop :=
  (task.phase = .checking ∨ task.phase = .waiting .testing) ∧
    cache.currentSize + task.allocSize ≤ cache.maxSizeBytes

instance (cache : MemoryCache Device) (task : AllocTask Device) :
    Decidable (cache.PassesCheck task) :=
  inferInstanceAs (Decidable (_ ∧ _))

section tasks
variable {cache cache' : MemoryCache Device} {task task' : AllocTask Device}

omit [DecidableEq Device] in
theorem MemoryCache.waitStep_cases {allocSize : Nat} {phase phase' : WaitPhase}
    (h : cache.waitStep allocSize phase = some (cache', phase')) :
    cache'.currentSize = cache.currentSize ∧ cache'.maxSizeBytes = cache.maxSizeBytes ∧
      (phase' = .done → phase = .testing ∧ cache.currentSize + allocSize ≤ cache.maxSizeBytes) := by
  unfold MemoryCache.waitStep at h
  cases phase with
  | testing =>
      cases h
      refine ⟨rfl, rfl, fun hdone => ⟨rfl, ?_⟩⟩
      split at hdone
      · cases hdone
      · omega
  | blocked =>
      dsimp only at h
      split at h
      · cases h
        exact ⟨rfl, rfl, nofun⟩
      · cases h
  | woken =>
      cases h
      exact ⟨rfl, rfl, nofun⟩
  | done => cases h

/-- The step leaves the counted size alone and promises nothing that has not passed a check. -/
def Quiet (cache cache' : MemoryCache Device) (task task' : AllocTask Device)
    (event : TaskEvent) : Prop :=
  cache'.currentSize = cache.currentSize ∧ task'.phase.committed = task.phase.committed ∧
    (task'.phase.promised = true →
      task.phase.promised = true ∨ event = .advance ∧ cache.PassesCheck task)

def Commits (cache cache' : MemoryCache Device) (task task' : AllocTask Device) : Prop :=
  cache'.currentSize = toInt64 (cache.currentSize + task.allocSize) ∧
    (task.phase.committed = false ∧ task.phase.promised = true) ∧
    task'.phase.committed = true ∧ task'.phase.promised = false

def Frees (cache cache' : MemoryCache Device) (task task' : AllocTask Device) : Prop :=
  cache'.currentSize = toInt64 (cache.currentSize - task.allocSize) ∧
    (task.phase.committed = true ∧ task.phase.promised = false) ∧
    task'.phase.committed = false ∧ task'.phase.promised = false

theorem MemoryCache.act_cases {id : Nat} {event : TaskEvent}
    (h : cache.act id task event = some (cache', task')) :
    cache'.maxSizeBytes = cache.maxSizeBytes ∧ task'.allocSize = task.allocSize ∧
      task'.descriptors = task.descriptors ∧
      (Quiet cache cache' task task' event ∨ Commits cache cache' task task' ∨
        Frees cache cache' task task') := by
  cases MemoryCache.act_move h with
  | commits found =>
      refine ⟨rfl, rfl, rfl, .inr (.inl ⟨rfl, ?_, rfl, rfl⟩)⟩
      rw [found]
      exact ⟨rfl, rfl⟩
  | frees found =>
      refine ⟨rfl, rfl, rfl, .inr (.inr ⟨rfl, ?_, rfl, rfl⟩)⟩
      rw [found]
      exact ⟨rfl, rfl⟩
  | cancels => exact ⟨rfl, rfl, rfl, .inl ⟨rfl, rfl, .inl⟩⟩
  | waits found waited =>
      rename_i phase'
      obtain ⟨hcurrent, hmax, hdone⟩ := waitStep_cases waited
      refine ⟨hmax, rfl, rfl, .inl ⟨hcurrent, by rw [found]; rfl, fun hpromised => .inr ?_⟩⟩
      have hphase' : phase' = .done := by
        cases phase' <;> first | rfl | cases hpromised
      obtain ⟨htesting, hfits⟩ := hdone hphase'
      exact ⟨rfl, .inr (by rw [found, htesting]), hfits⟩
  | checks found =>
      refine ⟨rfl, rfl, rfl, .inl ⟨rfl, ?_, fun hpromised => .inr ⟨rfl, .inl found, ?_⟩⟩⟩
      · rw [found]
        dsimp only
        split_ifs <;> rfl
      · by_contra hfits
        dsimp only at hpromised
        rw [if_neg hfits] at hpromised
        split_ifs at hpromised <;> cases hpromised
  | looks found =>
      refine ⟨rfl, rfl, rfl, .inl ⟨rfl, ?_, fun hpromised => ?_⟩⟩
      · rw [found]
        dsimp only
        split_ifs <;> rfl
      · dsimp only at hpromised
        split_ifs at hpromised <;> cases hpromised
  | returns found | unlocks found | grants found =>
      refine ⟨rfl, rfl, rfl, .inl ⟨rfl, by rw [found]; rfl, fun _ => .inl ?_⟩⟩
      rw [found]
      rfl
  | enqueues found | acquires found | signals found | unlocksFailing found | fails found
  | expiresAcquiring found | expiresDone found | expiresWaiting found | givesUp found =>
      exact ⟨rfl, rfl, rfl, .inl ⟨rfl, by rw [found]; rfl, fun hpromised => by cases hpromised⟩⟩

end tasks

namespace CacheSystem

def committedBytes (system : CacheSystem Device) : Nat :=
  (system.tasks.map AllocTask.committedBytes).sum

def promisedBytes (system : CacheSystem Device) : Nat :=
  (system.tasks.map AllocTask.promisedBytes).sum

def liveTensors (system : CacheSystem Device) : List (TensorDescriptor Device) :=
  (system.tasks.filter fun task => task.phase.committed).flatMap AllocTask.descriptors

theorem bytesOn_liveTensors_le (system : CacheSystem Device) (device : Option Device) :
    bytesOn device system.liveTensors ≤ system.committedBytes := by
  unfold liveTensors committedBytes
  induction system.tasks with
  | nil => simp [bytesOn]
  | cons task tasks ih =>
      rw [List.map_cons, List.sum_cons]
      cases hcommitted : task.phase.committed with
      | false =>
          rw [List.filter_cons_of_neg (by simp [hcommitted])]
          exact ih.trans (Nat.le_add_left _ _)
      | true =>
          have htask : task.committedBytes = task.allocSize := if_pos hcommitted
          simp only [List.filter_cons, hcommitted, if_true]
          rw [List.flatMap_cons, bytesOn_append, htask]
          exact Nat.add_le_add (bytesOn_le task.sized device) ih

theorem step_cases {system next : CacheSystem Device} {event : CacheEvent Device}
    (h : system.step event = some next) :
    (∃ task, task.phase = .scheduled ∧ next.cache = system.cache ∧
        next.tasks = system.tasks ++ [task]) ∨
      (∃ id taskEvent task cache' task', event = .task id taskEvent ∧
        system.tasks[id]? = some task ∧ system.cache.act id task taskEvent = some (cache', task') ∧
        next = ⟨cache', system.tasks.set id task'⟩) ∨
      (next.tasks = system.tasks ∧ next.cache.currentSize = system.cache.currentSize ∧
        next.cache.maxSizeBytes = system.cache.maxSizeBytes) := by
  cases event with
  | allocate descriptors timeout =>
      unfold step allocate at h
      dsimp only at h
      split at h
      · split at h
        · cases h
        · split at h
          · cases h
          · cases h
            exact .inl ⟨_, rfl, rfl, rfl⟩
      · cases h
  | task id taskEvent =>
      obtain ⟨task, htask, h⟩ := Option.bind_eq_some_iff.mp h
      obtain ⟨⟨cache', task'⟩, hact, hnext⟩ := Option.bind_eq_some_iff.mp h
      cases hnext
      exact .inr (.inl ⟨id, taskEvent, task, cache', task', rfl, htask, hact, rfl⟩)
  | strayWaits position =>
      obtain ⟨stray, -, h⟩ := Option.bind_eq_some_iff.mp h
      obtain ⟨⟨cache', phase⟩, hwait, hnext⟩ := Option.bind_eq_some_iff.mp h
      obtain ⟨hcurrent, hmax, -⟩ := MemoryCache.waitStep_cases hwait
      cases hnext
      exact .inr (.inr ⟨rfl, hcurrent, hmax⟩)
  | strayGivesUp position =>
      obtain ⟨stray, -, h⟩ := Option.bind_eq_some_iff.mp h
      dsimp only at h
      split at h
      · cases h
        exact .inr (.inr ⟨rfl, rfl, rfl⟩)
      · cases h
  | strayAcquires =>
      unfold step at h
      dsimp only at h
      split at h
      · cases h
        exact .inr (.inr ⟨rfl, rfl, rfl⟩)
      · cases h
  | receive =>
      obtain ⟨cache', hreceive, hnext⟩ := Option.bind_eq_some_iff.mp h
      unfold MemoryCache.receive at hreceive
      cases hnext
      split at hreceive
      · cases hreceive
      · cases hreceive
        exact .inr (.inr ⟨rfl, rfl, rfl⟩)

def WithinBudget (system : CacheSystem Device) : Prop :=
  system.cache.currentSize ≤ system.cache.maxSizeBytes ∧
    ∀ device, (bytesOn device system.liveTensors : Int) ≤ system.cache.currentSize

/-- A request passes its check only where the promises made before leave it room. -/
def Fits (system : CacheSystem Device) : CacheEvent Device → Prop
  | .task id .advance =>
      match system.tasks[id]? with
      | some task => system.cache.PassesCheck task →
          system.cache.currentSize + system.promisedBytes + task.allocSize ≤
              system.cache.maxSizeBytes ∧
            system.cache.currentSize + system.promisedBytes + task.allocSize < 2 ^ 63
      | none => True
  | _ => True

instance (system : CacheSystem Device) : DecidablePred system.Fits
  | .task id .advance => by
      unfold Fits
      dsimp only
      split <;> infer_instance
  | .task _ .expire | .task _ .giveUp | .task _ .free | .task _ .cancel => .isTrue trivial
  | .allocate _ _ | .strayWaits _ | .strayGivesUp _ | .strayAcquires | .receive => .isTrue trivial

/-- The counter is exact, and what is counted and what is promised fit together. -/
structure Promising (system : CacheSystem Device) : Prop where
  counted : system.cache.currentSize = system.committedBytes
  room : system.committedBytes + system.promisedBytes ≤ system.cache.maxSizeBytes
  int64 : system.committedBytes + system.promisedBytes < 2 ^ 63

theorem Promising.withinBudget {system : CacheSystem Device} (h : system.Promising) :
    system.WithinBudget := by
  have hroom := h.room
  have hcounted := h.counted
  refine ⟨by omega, fun device => ?_⟩
  rw [hcounted]
  exact_mod_cast system.bytesOn_liveTensors_le device

section acting
variable {system : CacheSystem Device} {id : Nat} {task task' : AllocTask Device}
  {cache' : MemoryCache Device} (h : system.Promising) (htask : system.tasks[id]? = some task)
  (hmax : cache'.maxSizeBytes = system.cache.maxSizeBytes) (hsize : task'.allocSize = task.allocSize)

omit h hmax hsize in
include htask in
theorem committedBytes_set (cache' : MemoryCache Device) (task' : AllocTask Device) :
    committedBytes ⟨cache', system.tasks.set id task'⟩ +
    task.committedBytes = system.committedBytes + task'.committedBytes :=
  sum_map_set AllocTask.committedBytes task' htask

include htask in
theorem promisedBytes_set (cache' : MemoryCache Device) (task' : AllocTask Device) :
    promisedBytes ⟨cache', system.tasks.set id task'⟩ +
    task.promisedBytes = system.promisedBytes + task'.promisedBytes :=
  sum_map_set AllocTask.promisedBytes task' htask

include h htask hmax hsize

theorem promising_quiet {event : TaskEvent}
    (hquiet : Quiet system.cache cache' task task' event) (hfits : system.Fits (.task id event)) :
    Promising ⟨cache', system.tasks.set id task'⟩ := by
  obtain ⟨hcurrent, hsame, hpasses⟩ := hquiet
  obtain ⟨hcounted, hroom, hint64⟩ := h
  have hcommitted := committedBytes_set htask cache' task'
  have hpromised := promisedBytes_set htask cache' task'
  have hcommittedTask : task'.committedBytes = task.committedBytes := by
    unfold AllocTask.committedBytes
    rw [hsame, hsize]
  have hnew : task'.promisedBytes ≤ task.promisedBytes ∨
      (system.committedBytes + system.promisedBytes + task.allocSize ≤ system.cache.maxSizeBytes ∧
        system.committedBytes + system.promisedBytes + task.allocSize < 2 ^ 63 ∧
        task'.promisedBytes = task.allocSize) := by
    cases hphase' : task'.phase.promised with
    | false =>
        left
        rw [AllocTask.promisedBytes_of_false hphase']
        exact Nat.zero_le _
    | true =>
        rw [AllocTask.promisedBytes_of_true hphase', hsize]
        rcases hpasses hphase' with hbefore | ⟨rfl, hcheck⟩
        · left
          rw [AllocTask.promisedBytes_of_true hbefore]
        · right
          unfold Fits at hfits
          dsimp only at hfits
          rw [htask] at hfits
          have hfits := hfits hcheck
          omega
  refine ⟨?_, ?_, ?_⟩
  · change cache'.currentSize = _
    omega
  · change _ ≤ cache'.maxSizeBytes
    omega
  · omega

theorem promising_commits (hcommits : Commits system.cache cache' task task') :
    Promising ⟨cache', system.tasks.set id task'⟩ := by
  obtain ⟨hcurrent, ⟨hfresh, hbefore⟩, hlive, hafter⟩ := hcommits
  obtain ⟨hcounted, hroom, hint64⟩ := h
  have hcommitted := committedBytes_set htask cache' task'
  have hpromised := promisedBytes_set htask cache' task'
  rw [AllocTask.committedBytes_of_false hfresh, AllocTask.committedBytes_of_true hlive, hsize]
    at hcommitted
  rw [AllocTask.promisedBytes_of_true hbefore, AllocTask.promisedBytes_of_false hafter]
    at hpromised
  rw [hcounted, ← Nat.cast_add, toInt64_natCast (by omega)] at hcurrent
  refine ⟨?_, ?_, ?_⟩
  · change cache'.currentSize = _
    omega
  · change _ ≤ cache'.maxSizeBytes
    omega
  · omega

theorem promising_frees (hfrees : Frees system.cache cache' task task') :
    Promising ⟨cache', system.tasks.set id task'⟩ := by
  obtain ⟨hcurrent, ⟨hlive, hbefore⟩, hfreed, hafter⟩ := hfrees
  obtain ⟨hcounted, hroom, hint64⟩ := h
  have hcommitted := committedBytes_set htask cache' task'
  have hpromised := promisedBytes_set htask cache' task'
  rw [AllocTask.committedBytes_of_true hlive, AllocTask.committedBytes_of_false hfreed]
    at hcommitted
  rw [AllocTask.promisedBytes_of_false hbefore, AllocTask.promisedBytes_of_false hafter]
    at hpromised
  rw [hcounted, ← Nat.cast_sub (by omega), toInt64_natCast (by omega)] at hcurrent
  refine ⟨?_, ?_, ?_⟩
  · change cache'.currentSize = _
    omega
  · change _ ≤ cache'.maxSizeBytes
    omega
  · omega

end acting

theorem promising_step {system next : CacheSystem Device} {event : CacheEvent Device}
    (h : system.Promising) (hstep : system.step event = some next) (hfits : system.Fits event) :
    next.Promising := by
  rcases step_cases hstep with ⟨task, hphase, hcache, htasks⟩ |
    ⟨id, taskEvent, task, cache', task', rfl, htask, hact, rfl⟩ | ⟨htasks, hcurrent, hmax⟩
  · have hcommitted : next.committedBytes = system.committedBytes := by
      unfold committedBytes
      simp [htasks, AllocTask.committedBytes, hphase, AllocPhase.committed]
    have hpromised : next.promisedBytes = system.promisedBytes := by
      unfold promisedBytes
      simp [htasks, AllocTask.promisedBytes, hphase, AllocPhase.promised]
    refine ⟨?_, ?_, ?_⟩
    · rw [hcache, hcommitted, h.counted]
    · rw [hcache, hcommitted, hpromised]
      exact h.room
    · rw [hcommitted, hpromised]
      exact h.int64
  · obtain ⟨hmax, hsize, -, hquiet | hcommits | hfrees⟩ := MemoryCache.act_cases hact
    · exact promising_quiet h htask hmax hsize hquiet hfits
    · exact promising_commits h htask hmax hsize hcommits
    · exact promising_frees h htask hmax hsize hfrees
  · have hcommitted : next.committedBytes = system.committedBytes := by
      unfold committedBytes
      rw [htasks]
    have hpromised : next.promisedBytes = system.promisedBytes := by
      unfold promisedBytes
      rw [htasks]
    refine ⟨?_, ?_, ?_⟩
    · rw [hcurrent, hcommitted, h.counted]
    · rw [hmax, hcommitted, hpromised]
      exact h.room
    · rw [hcommitted, hpromised]
      exact h.int64

theorem promising_new (maxSizeBytes : Option Nat) (maxAllocTimeout : Option (WithTop ℚ)) :
    (new maxSizeBytes maxAllocTimeout : CacheSystem Device).Promising :=
  ⟨rfl, Nat.zero_le _, Nat.two_pow_pos 63⟩

/-! Conversely, what was promised can always be committed, whether it fits or not. -/

section overshoot

def stepsLeft : AllocPhase → Nat
  | .waiting .done => 4
  | .fits => 3
  | .released => 2
  | .granted => 1
  | _ => 0

theorem act_promised (cache : MemoryCache Device) {task : AllocTask Device} (id : Nat)
    (h : task.phase.promised = true) :
    ∃ cache' task', cache.act id task .advance = some (cache', task') ∧
      stepsLeft task'.phase < stepsLeft task.phase ∧
      (cache'.currentSize = cache.currentSize ∧ task.phase.committed = false ∧
          task'.phase.committed = false ∧ task'.phase.promised = true ∨
        Commits cache cache' task task') := by
  unfold MemoryCache.act MemoryCache.advance Commits
  cases hphase : task.phase with
  | waiting phase =>
      cases phase with
      | done => exact ⟨_, _, rfl, Nat.lt_succ_self 3, .inl ⟨rfl, rfl, rfl, rfl⟩⟩
      | testing | blocked | woken =>
          rw [hphase] at h
          cases h
  | fits => exact ⟨_, _, rfl, Nat.lt_succ_self 2, .inl ⟨rfl, rfl, rfl, rfl⟩⟩
  | released => exact ⟨_, _, rfl, Nat.lt_succ_self 1, .inl ⟨rfl, rfl, rfl, rfl⟩⟩
  | granted => exact ⟨_, _, rfl, Nat.lt_succ_self 0, .inr ⟨rfl, ⟨rfl, rfl⟩, rfl, rfl⟩⟩
  | _ =>
      rw [hphase] at h
      cases h

theorem act_passes {cache : MemoryCache Device} {task : AllocTask Device} (id : Nat)
    (h : cache.PassesCheck task) :
    ∃ task', cache.act id task .advance = some (cache, task') ∧
      task'.allocSize = task.allocSize ∧
      task.phase.committed = false ∧ task'.phase.committed = false ∧
      task.phase.promised = false ∧ task'.phase.promised = true := by
  obtain ⟨hphase | hphase, hfits⟩ := h
  · refine ⟨{ task with phase := .fits }, ?_, rfl, by rw [hphase]; rfl, rfl, by rw [hphase]; rfl, rfl⟩
    unfold MemoryCache.act MemoryCache.advance
    rw [hphase]
    simp [hfits]
  · refine ⟨{ task with phase := .waiting .done }, ?_, rfl, by rw [hphase]; rfl, rfl,
      by rw [hphase]; rfl, rfl⟩
    unfold MemoryCache.act MemoryCache.advance MemoryCache.waitStep
    rw [hphase]
    simp [hfits.not_gt]

theorem exists_promised {system : CacheSystem Device} (h : 0 < system.promisedBytes) :
    ∃ (id : Nat) (task : AllocTask Device), system.tasks[id]? = some task ∧
      task.phase.promised = true := by
  by_contra hnone
  refine h.ne' (List.sum_eq_zero fun bytes hbytes => ?_)
  obtain ⟨task, hmem, rfl⟩ := List.mem_map.mp hbytes
  obtain ⟨id, htask⟩ := List.mem_iff_getElem?.mp hmem
  refine AllocTask.promisedBytes_of_false (Bool.eq_false_iff.mpr fun hpromised => ?_)
  exact hnone ⟨id, task, htask, hpromised⟩

/-- One commit too many breaks the bound: the counter is too large, or it has wrapped. -/
theorem not_withinBudget {system : CacheSystem Device} {task : AllocTask Device}
    (hmem : task ∈ system.tasks) (hlive : task.phase.committed = true) {before : Nat}
    (hbefore : before < 2 ^ 63)
    (hcurrent : system.cache.currentSize = toInt64 (before + task.allocSize : Nat))
    (hover : system.cache.maxSizeBytes < before + task.allocSize ∨
      2 ^ 63 ≤ before + task.allocSize) : ¬ system.WithinBudget := by
  rintro ⟨hbudget, hdevices⟩
  obtain ⟨hsized, -⟩ := List.max?_eq_some_iff.mp task.sized
  obtain ⟨device, hdevice⟩ := Dict.mem_values_iff.mp hsized
  have hbytes : bytesOn device task.descriptors = task.allocSize := by
    rw [← allocSizeByDevice_get?, hdevice]
    rfl
  have hpart : bytesOn device task.descriptors ≤ bytesOn device system.liveTensors := by
    obtain ⟨left, right, htasks⟩ := List.append_of_mem hmem
    unfold liveTensors
    rw [htasks, List.filter_append, List.filter_cons, if_pos hlive, List.flatMap_append,
      List.flatMap_cons, bytesOn_append, bytesOn_append]
    omega
  have hlarge := hdevices device
  unfold toInt64 at hcurrent
  rw [Int.bmod_def] at hcurrent
  omega

theorem overshoots {system : CacheSystem Device}
    (hcounted : system.cache.currentSize = system.committedBytes)
    (hroom : system.committedBytes ≤ system.cache.maxSizeBytes)
    (hint64 : system.committedBytes < 2 ^ 63)
    (hover : system.cache.maxSizeBytes < system.committedBytes + system.promisedBytes ∨
      2 ^ 63 ≤ system.committedBytes + system.promisedBytes) :
    ∃ later final, LeadsTo step system later final ∧ EveryStep step Fits system later ∧
      ¬ final.WithinBudget := by
  induction hleft : (system.tasks.map fun task => stepsLeft task.phase).sum
    using Nat.strong_induction_on generalizing system with
  | _ left ih =>
      obtain ⟨id, task, htask, hpromised⟩ := exists_promised (by omega : 0 < system.promisedBytes)
      obtain ⟨cache', task', hact, hless, hcases⟩ := act_promised system.cache id hpromised
      obtain ⟨hmax, hsize, -, -⟩ := MemoryCache.act_cases hact
      have hstep : system.step (.task id .advance) = some ⟨cache', system.tasks.set id task'⟩ :=
        Option.bind_eq_some_iff.mpr ⟨task, htask, Option.bind_eq_some_iff.mpr ⟨_, hact, rfl⟩⟩
      have hok : system.Fits (.task id .advance) := by
        unfold Fits
        dsimp only
        rw [htask]
        rintro ⟨hphase | hphase, -⟩ <;> rw [hphase] at hpromised <;> cases hpromised
      have hsum : ((⟨cache', system.tasks.set id task'⟩ : CacheSystem Device).tasks.map
          fun task => stepsLeft task.phase).sum < left := by
        have hset := sum_map_set (fun task => stepsLeft task.phase) task' htask
        dsimp only
        omega
      have hcommitted := committedBytes_set htask cache' task'
      have hkept := promisedBytes_set htask cache' task'
      rw [AllocTask.promisedBytes_of_true hpromised] at hkept
      suffices hfinish : ∃ later final, LeadsTo step ⟨cache', system.tasks.set id task'⟩ later final ∧
          EveryStep step Fits ⟨cache', system.tasks.set id task'⟩ later ∧ ¬ final.WithinBudget by
        obtain ⟨later, final, hleads, hfits, hbroken⟩ := hfinish
        refine ⟨.task id .advance :: later, final, leadsTo_cons.mpr ⟨_, hstep, hleads⟩, ?_, hbroken⟩
        intro next hnext
        cases hstep.symm.trans hnext
        exact ⟨hok, hfits⟩
      rcases hcases with ⟨hcurrent, hfresh, hstill, hkeeps⟩ | ⟨hcurrent, ⟨hfresh, -⟩, hlive, hdone⟩
      · rw [AllocTask.committedBytes_of_false hfresh, AllocTask.committedBytes_of_false hstill]
          at hcommitted
        rw [AllocTask.promisedBytes_of_true hkeeps, hsize] at hkept
        refine ih _ hsum ?_ ?_ ?_ ?_ rfl
        · change cache'.currentSize = _
          omega
        · change _ ≤ cache'.maxSizeBytes
          omega
        · omega
        · change cache'.maxSizeBytes < _ ∨ _
          omega
      · rw [AllocTask.committedBytes_of_false hfresh, AllocTask.committedBytes_of_true hlive, hsize]
          at hcommitted
        rw [AllocTask.promisedBytes_of_false hdone] at hkept
        rw [hcounted, ← Nat.cast_add] at hcurrent
        by_cases hbroken : system.cache.maxSizeBytes < system.committedBytes + task.allocSize ∨
            2 ^ 63 ≤ system.committedBytes + task.allocSize
        · refine ⟨[], _, leadsTo_nil.mpr rfl, trivial, ?_⟩
          have hmem : task' ∈ system.tasks.set id task' :=
            List.mem_set (List.getElem?_eq_some_iff.mp htask).1 task'
          refine not_withinBudget hmem hlive hint64 (hsize ▸ hcurrent) ?_
          change cache'.maxSizeBytes < _ ∨ _
          rwa [hmax, hsize]
        · rw [toInt64_natCast (by omega)] at hcurrent
          refine ih _ hsum ?_ ?_ ?_ ?_ rfl
          · change cache'.currentSize = _
            omega
          · change _ ≤ cache'.maxSizeBytes
            omega
          · omega
          · change cache'.maxSizeBytes < _ ∨ _
            omega

theorem unfit_overshoots {system next : CacheSystem Device} {event : CacheEvent Device}
    (h : system.Promising) (hstep : system.step event = some next) (hunfit : ¬ system.Fits event) :
    ∃ later final, LeadsTo step next later final ∧ EveryStep step Fits next later ∧
      ¬ final.WithinBudget := by
  have hevent : ∃ id task, event = .task id .advance ∧ system.tasks[id]? = some task ∧
      system.cache.PassesCheck task ∧
      (system.cache.maxSizeBytes < system.committedBytes + system.promisedBytes + task.allocSize ∨
        2 ^ 63 ≤ system.committedBytes + system.promisedBytes + task.allocSize) := by
    unfold Fits at hunfit
    split at hunfit
    · rename_i id
      split at hunfit
      · rename_i task htask
        obtain ⟨hcheck, hover⟩ := Classical.not_imp.mp hunfit
        rw [h.counted] at hover
        exact ⟨id, task, rfl, htask, hcheck, by omega⟩
      · exact absurd trivial hunfit
    · exact absurd trivial hunfit
  obtain ⟨id, task, rfl, htask, hcheck, hover⟩ := hevent
  obtain ⟨task', hact, hsize, hfresh, hfresh', hnone, hpromised⟩ := act_passes id hcheck
  have hnext : system.step (.task id .advance) = some ⟨system.cache, system.tasks.set id task'⟩ :=
    Option.bind_eq_some_iff.mpr ⟨task, htask, Option.bind_eq_some_iff.mpr ⟨_, hact, rfl⟩⟩
  cases hnext.symm.trans hstep
  have hcommitted := committedBytes_set htask system.cache task'
  have hkept := promisedBytes_set htask system.cache task'
  rw [AllocTask.committedBytes_of_false hfresh, AllocTask.committedBytes_of_false hfresh']
    at hcommitted
  rw [AllocTask.promisedBytes_of_false hnone, AllocTask.promisedBytes_of_true hpromised, hsize]
    at hkept
  obtain ⟨hcounted, hroom, hint64⟩ := h
  refine overshoots ?_ ?_ ?_ ?_
  · change system.cache.currentSize = _
    omega
  · change _ ≤ system.cache.maxSizeBytes
    omega
  · omega
  · change system.cache.maxSizeBytes < _ ∨ _
    omega

end overshoot

/-- Where every check that passes leaves room for what was promised, the budget holds. A
check that does not can be followed by a run that breaks it. -/
theorem withinBudget_of_fits {maxSizeBytes : Option Nat} {maxAllocTimeout : Option (WithTop ℚ)}
    {events : List (CacheEvent Device)}
    (h : EveryStep step Fits (new maxSizeBytes maxAllocTimeout) events) :
    EveryState step WithinBudget (new maxSizeBytes maxAllocTimeout) events ∧
      ∀ system event next, LeadsTo step (new maxSizeBytes maxAllocTimeout) events system →
        system.step event = some next → ¬ system.Fits event →
        ∃ later final, LeadsTo step next later final ∧ EveryStep step Fits next later ∧
          ¬ final.WithinBudget := by
  have hstart : (new maxSizeBytes maxAllocTimeout : CacheSystem Device).Promising :=
    promising_new maxSizeBytes maxAllocTimeout
  have hpromising := everyState_of_everyStep (fun _ _ _ => promising_step) hstart h
  refine ⟨hpromising.mono fun _ => Promising.withinBudget, ?_⟩
  intro system event next hreach hstep hunfit
  rw [← List.append_nil events] at hpromising
  exact unfit_overshoots (hpromising.leadsTo hreach) hstep hunfit

private def twoChecks : List (CacheEvent Unit) :=
  [.allocate [⟨[6], .uint8, some ()⟩] none, .allocate [⟨[6], .uint8, some ()⟩] none] ++
    [0, 1].flatMap fun id => List.replicate 5 (.task id .advance)

private def twoCommits : List (CacheEvent Unit) :=
  [0, 1].flatMap fun id => List.replicate 2 (.task id .advance)

/-- Twelve bytes hold both. -/
theorem withinBudget_twoChecks :
    EveryState step WithinBudget (new (some 12) none : CacheSystem Unit) (twoChecks ++ twoCommits) :=
  (withinBudget_of_fits (by decide +kernel)).1

theorem twoChecks_overshoot :
    ∃ system : CacheSystem Unit, LeadsTo step (new (some 10) none) (twoChecks ++ twoCommits) system ∧
      system.cache.currentSize = 12 ∧ ¬ system.WithinBudget := by
  have hruns : (((twoChecks ++ twoCommits).foldlM step (new (some 10) none)).map
      fun system : CacheSystem Unit => (system.cache.currentSize, system.cache.maxSizeBytes)) =
      some (12, 10) := by decide +kernel
  obtain ⟨system, hrun, hsizes⟩ := Option.map_eq_some_iff.mp hruns
  obtain ⟨hcurrent, hmax⟩ := Prod.mk.inj hsizes
  refine ⟨system, hrun, hcurrent, fun hbudget => ?_⟩
  have hle := hbudget.1
  rw [hcurrent, hmax] at hle
  exact absurd hle (by decide)

end CacheSystem
end Peerz.Server
