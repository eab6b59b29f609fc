import Mathlib.Algebra.Field.Rat
import Mathlib.Algebra.Order.BigOperators.Group.List
import Mathlib.Algebra.Order.Ring.Rat
import Mathlib.Algebra.Order.Ring.WithTop
import Mathlib.Data.Rat.Defs
import Peerz.Library.Dict

/-! The attention cache that the handler processes share: `allocate_cache` contexts, each at
a place in its code between two lock sections, over the counters, locks and pipe they share.
Contexts of one process interleave here as those of different ones do, which allows more. -/
namespace Peerz.Server
open Library

/-- The dtypes that have a size: those of `SPECIAL_DTYPE_SIZES`, and those that
`torch.finfo` or `torch.iinfo` describes. -/
inductive DType where
  | bool | qint8 | qint32
  | uint8 | int8 | int16 | int32 | int64
  | float16 | bfloat16 | float32 | float64
deriving DecidableEq

/-- `get_info(dtype).bits`. -/
def DType.bits : DType → Nat
  | .bool | .qint8 | .uint8 | .int8 => 8
  | .int16 | .float16 | .bfloat16 => 16
  | .qint32 | .int32 | .float32 => 32
  | .int64 | .float64 => 64

def getSizeInBytes : DType → Nat
  | .bool => 1
  | .qint8 => 1
  | .qint32 => 4
  | dtype => dtype.bits / 8

structure TensorDescriptor (Device : Type) where
  shape : List Nat
  dtype : DType
  device : Option Device

namespace TensorDescriptor

variable {Device : Type}

def numel (descriptor : TensorDescriptor Device) : Nat := descriptor.shape.prod

def tensorSize (descriptor : TensorDescriptor Device) : Nat :=
  descriptor.numel * getSizeInBytes descriptor.dtype

end TensorDescriptor

variable {Device : Type} [DecidableEq Device]

def allocSizeByDevice (descriptors : List (TensorDescriptor Device)) : Dict (Option Device) Nat :=
  descriptors.foldl
    (fun sizes descriptor =>
      sizes.insert descriptor.device ((sizes.get? descriptor.device).getD 0 + descriptor.tensorSize))
    Dict.empty

/-- The largest size over the devices; `max` raises where there are no descriptors. -/
def getAllocationSize (descriptors : List (TensorDescriptor Device)) : Option Nat :=
  (allocSizeByDevice descriptors).values.max?

/-- `None`, infinity or a number of seconds. -/
abbrev Timeout := Option (WithTop ℚ)

/-- `min(timeout, max_alloc_timeout)`, which raises on a timeout of `None`. -/
def effectiveTimeout : Option (WithTop ℚ) → Timeout → Option Timeout
  | none, timeout => some timeout
  | some maxAllocTimeout, some timeout => some (some (min timeout maxAllocTimeout))
  | some _, none => none

def Timeout.Limited (timeout : Timeout) : Prop := timeout ≠ none ∧ timeout ≠ some ⊤

instance (timeout : Timeout) : Decidable timeout.Limited := inferInstanceAs (Decidable (_ ∧ _))

/-- What a `c_int64` holds after an assignment. -/
def toInt64 (value : Int) : Int := value.bmod (2 ^ 64)

/-- Where a thread is in the loop of `_wait_until_available`. -/
inductive WaitPhase where
  | testing
  /-- in `_memory_freed_event.wait` -/
  | blocked
  /-- `wait` has returned `True`, the event is not cleared yet -/
  | woken
  | done
deriving DecidableEq

/-- Where a context is: the phases up to `granted` are those of its `alloc_task`. -/
inductive AllocPhase where
  | scheduled
  | enqueued
  | acquiring
  /-- from here to `fits`, and in `failingLocked`, it holds `_lock_acquire_memory` -/
  | checking
  | waiting (phase : WaitPhase)
  | fits
  | released
  | granted
  | live (handles : List Int)
  /-- freed, `_memory_freed_event` not set yet -/
  | signalling
  | freed
  | failingLocked
  | failing
  | failed
deriving DecidableEq

structure AllocTask (Device : Type) [DecidableEq Device] where
  descriptors : List (TensorDescriptor Device)
  allocSize : Nat
  sized : getAllocationSize descriptors = some allocSize
  timeout : Timeout
  phase : AllocPhase
  /-- the caller was cancelled; `shield_and_wait` keeps that from the task -/
  cancelled : Bool

/-- A message to the runtime: handles with descriptors to create, or without to delete. -/
structure PipeMessage (Device : Type) where
  handles : List Int
  descriptors : Option (List (TensorDescriptor Device))

inductive LockHolder where
  | task (id : Nat)
  /-- a thread whose coroutine was cancelled while it acquired the lock; it never releases it -/
  | stray
deriving DecidableEq

structure MemoryCache (Device : Type) where
  maxSizeBytes : Nat
  maxAllocTimeout : Option (WithTop ℚ)
  currentSize : Int := 0
  enqueuedSize : Int := 0
  handleCounter : Int := 0
  lockAcquireMemory : Option LockHolder := none
  memoryFreedEvent : Bool := false
  pipe : List (PipeMessage Device) := []
  allocatedTensors : Dict Int (TensorDescriptor Device) := Dict.empty
  /-- threads whose coroutine was cancelled in `_wait_until_available` -/
  strayWaiters : List (Nat × WaitPhase) := []
  /-- threads whose coroutine was cancelled while they acquired the lock -/
  strayAcquirers : Nat := 0

namespace MemoryCache

def new (maxSizeBytes : Option Nat) (maxAllocTimeout : Option (WithTop ℚ)) : MemoryCache Device where
  maxSizeBytes := maxSizeBytes.getD (2 ^ 64 - 1)
  maxAllocTimeout := maxAllocTimeout

def waitStep (cache : MemoryCache Device) (allocSize : Nat) :
    WaitPhase → Option (MemoryCache Device × WaitPhase)
  | .testing =>
      some (cache, if cache.maxSizeBytes < cache.currentSize + allocSize then .blocked else .done)
  | .blocked => if cache.memoryFreedEvent then some (cache, .woken) else none
  | .woken => some ({ cache with memoryFreedEvent := false }, .testing)
  | .done => none

def advance (cache : MemoryCache Device) (id : Nat) (task : AllocTask Device) :
    Option (MemoryCache Device × AllocTask Device) :=
  match task.phase with
  | .scheduled =>
      some ({ cache with enqueuedSize := toInt64 (cache.enqueuedSize + task.allocSize) },
        { task with phase := .enqueued })
  | .enqueued =>
      some (cache, { task with
        phase := if task.timeout = some 0 ∧
            cache.maxSizeBytes < cache.currentSize + cache.enqueuedSize
          then .failing else .acquiring })
  | .acquiring =>
      if cache.lockAcquireMemory = none then
        some ({ cache with lockAcquireMemory := some (.task id) }, { task with phase := .checking })
      else none
  | .checking =>
      some (cache, { task with
        phase :=
          if cache.currentSize + task.allocSize ≤ cache.maxSizeBytes then .fits
          else if task.timeout = some 0 then .failingLocked
          else if cache.maxSizeBytes < task.allocSize then .failingLocked
          else .waiting .testing })
  | .waiting .done => some (cache, { task with phase := .fits })
  | .waiting phase => do
      let (cache, phase) ← cache.waitStep task.allocSize phase
      return (cache, { task with phase := .waiting phase })
  | .fits => some ({ cache with lockAcquireMemory := none }, { task with phase := .released })
  | .released =>
      some ({ cache with enqueuedSize := toInt64 (cache.enqueuedSize - task.allocSize) },
        { task with phase := .granted })
  | .granted =>
      let handles := (List.range task.descriptors.length).map fun i : Nat => cache.handleCounter + i
      some ({ cache with
          currentSize := toInt64 (cache.currentSize + task.allocSize)
          handleCounter := toInt64 (cache.handleCounter + handles.length)
          pipe := cache.pipe ++ [⟨handles, some task.descriptors⟩] },
        { task with phase := .live handles })
  | .signalling => some ({ cache with memoryFreedEvent := true }, { task with phase := .freed })
  | .failingLocked => some ({ cache with lockAcquireMemory := none }, { task with phase := .failing })
  | .failing =>
      some ({ cache with enqueuedSize := toInt64 (cache.enqueuedSize - task.allocSize) },
        { task with phase := .failed })
  | .live _ | .freed | .failed => none

/-- `async_timeout` cancels the coroutine at an `await`; the thread it awaits goes on. -/
def expire (cache : MemoryCache Device) (task : AllocTask Device) :
    Option (MemoryCache Device × AllocTask Device) :=
  if task.timeout.Limited ∧ task.timeout ≠ some 0 then
    match task.phase with
    | .acquiring =>
        some ({ cache with strayAcquirers := cache.strayAcquirers + 1 },
          { task with phase := .failing })
    | .waiting .done => some (cache, { task with phase := .failingLocked })
    | .waiting phase =>
        some ({ cache with strayWaiters := cache.strayWaiters ++ [(task.allocSize, phase)] },
          { task with phase := .failingLocked })
    | _ => none
  else none

/-- `wait` returns `False`: its time is up, or a stray waiter has cleared the event. -/
def giveUp (cache : MemoryCache Device) (task : AllocTask Device) :
    Option (MemoryCache Device × AllocTask Device) :=
  if task.phase = .waiting .blocked ∧ (task.timeout.Limited ∨ cache.strayWaiters ≠ []) then
    some (cache, { task with phase := .failingLocked })
  else none

def free (cache : MemoryCache Device) (task : AllocTask Device) :
    Option (MemoryCache Device × AllocTask Device) :=
  match task.phase with
  | .live handles =>
      some ({ cache with
          pipe := cache.pipe ++ [⟨handles, none⟩]
          currentSize := toInt64 (cache.currentSize - task.allocSize) },
        { task with phase := .signalling })
  | _ => none

def cancel (cache : MemoryCache Device) (task : AllocTask Device) :
    Option (MemoryCache Device × AllocTask Device) :=
  match task.phase with
  | .live _ | .signalling | .freed | .failed => none
  | _ => some (cache, { task with cancelled := true })

def receive (cache : MemoryCache Device) : Option (MemoryCache Device) :=
  match cache.pipe with
  | [] => none
  | message :: pipe =>
      some { cache with
        pipe := pipe
        allocatedTensors :=
          match message.descriptors with
          | some descriptors => (message.handles.zip descriptors).foldl
              (fun tensors entry => tensors.insert entry.1 entry.2) cache.allocatedTensors
          | none => message.handles.foldl Dict.erase cache.allocatedTensors }

end MemoryCache

inductive TaskEvent where
  | advance
  | expire
  | giveUp
  | free
  | cancel
deriving DecidableEq

inductive CacheEvent (Device : Type) where
  | allocate (descriptors : List (TensorDescriptor Device)) (timeout : Timeout)
  | task (id : Nat) (event : TaskEvent)
  | strayWaits (position : Nat)
  | strayGivesUp (position : Nat)
  | strayAcquires
  | receive

def MemoryCache.act (cache : MemoryCache Device) (id : Nat) (task : AllocTask Device) :
    TaskEvent → Option (MemoryCache Device × AllocTask Device)
  | .advance => cache.advance id task
  | .expire => cache.expire task
  | .giveUp => cache.giveUp task
  | .free => cache.free task
  | .cancel => cache.cancel task

/-- The shared cache and the contexts that were ever opened on it. -/
structure CacheSystem (Device : Type) [DecidableEq Device] where
  cache : MemoryCache Device
  tasks : List (AllocTask Device)

namespace CacheSystem

def new (maxSizeBytes : Option Nat) (maxAllocTimeout : Option (WithTop ℚ)) : CacheSystem Device where
  cache := .new maxSizeBytes maxAllocTimeout
  tasks := []

/-- `allocate_cache` up to the creation of the task. Without a device, without descriptors,
over a cache of size zero or where `min` fails on the timeout, it raises before that. -/
def allocate (system : CacheSystem Device) (descriptors : List (TensorDescriptor Device))
    (timeout : Timeout) : Option (CacheSystem Device) :=
  if descriptors.all (fun descriptor => descriptor.device.isSome) ∧
      system.cache.maxSizeBytes ≠ 0 then
    match effectiveTimeout system.cache.maxAllocTimeout timeout with
    | none => none
    | some timeout =>
        match hsize : getAllocationSize descriptors with
        | none => none
        | some allocSize => some { system with
            tasks := system.tasks ++ [⟨descriptors, allocSize, hsize, timeout, .scheduled, false⟩] }
  else none

def step (system : CacheSystem Device) : CacheEvent Device → Option (CacheSystem Device)
  | .allocate descriptors timeout => system.allocate descriptors timeout
  | .task id event => do
      let task ← system.tasks[id]?
      let (cache, task) ← system.cache.act id task event
      return ⟨cache, system.tasks.set id task⟩
  | .strayWaits position => do
      let (allocSize, phase) ← system.cache.strayWaiters[position]?
      let (cache, phase) ← system.cache.waitStep allocSize phase
      return { system with
        cache := { cache with strayWaiters := cache.strayWaiters.set position (allocSize, phase) } }
  | .strayGivesUp position => do
      let (allocSize, phase) ← system.cache.strayWaiters[position]?
      if phase = .blocked then
        return { system with
          cache := { system.cache with
            strayWaiters := system.cache.strayWaiters.set position (allocSize, .done) } }
      else none
  | .strayAcquires =>
      if system.cache.lockAcquireMemory = none ∧ 0 < system.cache.strayAcquirers then
        some { system with
          cache := { system.cache with
            lockAcquireMemory := some .stray
            strayAcquirers := system.cache.strayAcquirers - 1 } }
      else none
  | .receive => do
      let cache ← system.cache.receive
      return { system with cache }

end CacheSystem
end Peerz.Server
