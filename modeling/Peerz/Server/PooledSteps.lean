import Peerz.Server.InferencePools

/-! The sessions of the runtime follow the sessions of the blocks' own caches, in any interleaving
of their tasks. -/
namespace Peerz.Server
open Library

variable {Token Slot Handle SessionId : Type} {width : Nat}

section blocks
variable {Cache : Type} [Add Token]

theorem runBlocks_append (hypoIds : List Nat)
    (left right : List (Block Token Cache × Cache × List Token)) (hiddenStates : List Token) :
    runBlocks hypoIds (left ++ right) hiddenStates =
      (runBlocks hypoIds left hiddenStates).bind fun done =>
        (runBlocks hypoIds right done.1).map fun later => (later.1, done.2 ++ later.2) := by
  induction left generalizing hiddenStates with
  | nil => simp [runBlocks]
  | cons entry rest ih =>
      obtain ⟨block, cache, prompt⟩ := entry
      rw [List.cons_append, runBlocks, runBlocks]
      split
      · simp only [ih, Option.bind_eq_bind]
        cases runBlocks hypoIds rest (block.inferenceStep hypoIds cache prompt hiddenStates).1 with
        | none => rfl
        | some done =>
            cases hright : runBlocks hypoIds right done.1 with
            | none => simp [hright]
            | some later => simp [hright]
      · rfl

end blocks

structure PooledBlock (Token Slot Handle : Type) (width : Nat) where
  info : InferenceMetadata Handle width
  prompt : List Token
  past : Past Slot width

namespace PooledBlock

def task (block : PooledBlock Token Slot Handle width) : InferenceMetadata Handle width × List Token :=
  (block.info, block.prompt)

def cached (backends : ModuleUID → AttentionBlock Token Slot width)
    (block : PooledBlock Token Slot Handle width) :
    Block Token (Past Slot width) × Past Slot width × List Token :=
  ((backends block.info.uid).toBlock, block.past, block.prompt)

/-- Nothing but the block's past matters of its tensors. -/
def Ready (tensors : Tensors Handle Slot) (prefixLength maxLength : Nat)
    (block : PooledBlock Token Slot Handle width) : Prop :=
  block.info.prefixLength = prefixLength ∧
    Holds (fun i => tensors (block.info.cacheHandles i)) block.past prefixLength maxLength

theorem Ready.congr {tensors other : Tensors Handle Slot} {prefixLength maxLength : Nat}
    {block : PooledBlock Token Slot Handle width} (h : block.Ready tensors prefixLength maxLength)
    (hsame : ∀ i, other (block.info.cacheHandles i) = tensors (block.info.cacheHandles i)) :
    block.Ready other prefixLength maxLength := by
  refine ⟨h.1, ?_⟩
  rw [funext hsame]
  exact h.2

end PooledBlock

def handlesOf (blocks : List (Fin width → Handle)) : List Handle :=
  blocks.flatMap fun handles => (List.finRange width).map handles

theorem mem_handlesOf {blocks : List (Fin width → Handle)} {handle : Handle} :
    handle ∈ handlesOf blocks ↔ ∃ handles ∈ blocks, ∃ i, handles i = handle := by
  simp [handlesOf]

theorem handlesOf_cons (first : Fin width → Handle) (rest : List (Fin width → Handle)) :
    handlesOf (first :: rest) = (List.finRange width).map first ++ handlesOf rest :=
  List.flatMap_cons

theorem nodup_handlesOf_cons {first : Fin width → Handle} {rest : List (Fin width → Handle)}
    (h : (handlesOf (first :: rest)).Nodup) :
    Function.Injective first ∧ (handlesOf rest).Nodup ∧ ∀ i, first i ∉ handlesOf rest := by
  rw [handlesOf_cons, List.nodup_append] at h
  obtain ⟨hfirst, hrest, hdisjoint⟩ := h
  refine ⟨fun i j hij => ?_, hrest, fun i hmem => ?_⟩
  · exact List.inj_on_of_nodup_map hfirst (List.mem_finRange i) (List.mem_finRange j) hij
  · exact hdisjoint _ (List.mem_map_of_mem (List.mem_finRange i)) _ hmem rfl

def AllHold (tensors : Tensors Handle Slot) (count maxLength : Nat)
    (handles : List (Fin width → Handle)) (pasts : List (Past Slot width)) : Prop :=
  List.Forall₂ (fun handles past => Holds (fun i => tensors (handles i)) past count maxLength)
    handles pasts

theorem AllHold.congr {tensors other : Tensors Handle Slot} {count maxLength : Nat}
    {handles : List (Fin width → Handle)} {pasts : List (Past Slot width)}
    (h : AllHold tensors count maxLength handles pasts)
    (hsame : ∀ handle ∈ handlesOf handles, other handle = tensors handle) :
    AllHold other count maxLength handles pasts := by
  unfold AllHold at h ⊢
  induction h with
  | nil => exact .nil
  | @cons first past rest later hfirst hrest ih =>
      refine .cons ?_ (ih fun handle hmem => hsame handle ?_)
      · have hfirstSame : (fun i => other (first i)) = fun i => tensors (first i) := by
          funext i
          exact hsame _ (mem_handlesOf.mpr ⟨first, List.mem_cons_self, i, rfl⟩)
        rw [hfirstSame]
        exact hfirst
      · obtain ⟨member, hmember, i, hi⟩ := mem_handlesOf.mp hmem
        exact mem_handlesOf.mpr ⟨member, List.mem_cons_of_mem _ hmember, i, hi⟩

section tasks
variable [Add Token] [DecidableEq Handle]

theorem mergedInferenceStep_other (backends : ModuleUID → AttentionBlock Token Slot width)
    (batchSize : Nat) (hypoIds : List Nat)
    (blocks : List (InferenceMetadata Handle width × List Token)) (hiddenStates : List Token)
    (tensors : Tensors Handle Slot) {handle : Handle}
    (hother : handle ∉ handlesOf (blocks.map fun block => block.1.cacheHandles)) :
    (mergedInferenceStep backends batchSize hypoIds blocks hiddenStates tensors).2 handle =
      tensors handle := by
  induction blocks generalizing hiddenStates tensors with
  | nil => rfl
  | cons entry rest ih =>
      obtain ⟨info, prompt⟩ := entry
      rw [List.map_cons, handlesOf, List.flatMap_cons, List.mem_append, not_or] at hother
      rw [mergedInferenceStep]
      split
      · rw [ih _ _ hother.2]
        apply inferenceStep_other
        intro i hi
        exact hother.1 (List.mem_map.mpr ⟨i, List.mem_finRange i, hi⟩)
      · rfl

/-- A task computes what the blocks compute over their own caches. -/
theorem mergedInferenceStep_spec (backends : ModuleUID → AttentionBlock Token Slot width)
    (batchSize : Nat) (hypoIds : List Nat) {prefixLength maxLength : Nat}
    {blocks : List (PooledBlock Token Slot Handle width)}
    (hdistinct : (handlesOf (blocks.map fun block => block.info.cacheHandles)).Nodup)
    {tensors : Tensors Handle Slot}
    (hready : ∀ block ∈ blocks, block.Ready tensors prefixLength maxLength)
    {hiddenStates : List Token} (hlength : prefixLength + hiddenStates.length ≤ maxLength) :
    let stepped := mergedInferenceStep backends batchSize hypoIds (blocks.map PooledBlock.task)
      hiddenStates tensors
    match runBlocks hypoIds (blocks.map (PooledBlock.cached backends)) hiddenStates with
    | none => stepped.1 = none
    | some (outputs, pasts) => stepped.1 = some outputs ∧
        AllHold stepped.2 (prefixLength + hiddenStates.length) maxLength
          (blocks.map fun block => block.info.cacheHandles) pasts := by
  induction blocks generalizing hiddenStates tensors with
  | nil => exact ⟨rfl, .nil⟩
  | cons block rest ih =>
      obtain ⟨hinjective, hrestDistinct, hdisjoint⟩ := nodup_handlesOf_cons hdistinct
      obtain ⟨hstarts, hholds⟩ := hready block List.mem_cons_self
      subst hstarts
      intro stepped
      rw [List.map_cons, PooledBlock.cached, runBlocks]
      by_cases hfits : block.prompt.length ≤ hiddenStates.length
      · have hprompted := addPrompt_length block.prompt hiddenStates
        obtain ⟨houtputs, hfirst⟩ := inferenceStep_spec (backends block.info.uid) batchSize hypoIds
          hinjective hholds (hprompted.symm ▸ hlength)
        set first := inferenceStep (backends block.info.uid) batchSize
          (addPrompt block.prompt hiddenStates) hypoIds block.info tensors with hfirstDef
        set run := (backends block.info.uid).toBlock.inferenceStep hypoIds block.past block.prompt
          hiddenStates with hrunDef
        change first.1 = run.1 at houtputs
        change Holds _ run.2 _ _ at hfirst
        have hrunLength : run.1.length = hiddenStates.length := Block.inferenceStep_length ..
        have hstepped : stepped = mergedInferenceStep backends batchSize hypoIds
            (rest.map PooledBlock.task) run.1 first.2 := by
          change mergedInferenceStep backends batchSize hypoIds
            ((block.info, block.prompt) :: rest.map PooledBlock.task) hiddenStates tensors = _
          rw [mergedInferenceStep, if_pos hfits, ← houtputs]
        have hrest := @ih hrestDistinct first.2 (by
          intro other hmem
          apply (hready other (List.mem_cons_of_mem _ hmem)).congr
          intro i
          apply inferenceStep_other
          intro j hj
          exact hdisjoint j (mem_handlesOf.mpr ⟨_, List.mem_map_of_mem hmem, i, hj.symm⟩))
          run.1 (hrunLength.symm ▸ hlength)
        rw [if_pos hfits, hstepped]
        cases hrun : runBlocks hypoIds (rest.map (PooledBlock.cached backends)) run.1 with
        | none =>
            rw [hrun] at hrest
            simp only [Option.bind_eq_bind, hrun, Option.bind_none]
            exact hrest
        | some done =>
            rw [hrun] at hrest
            obtain ⟨hresult, hall⟩ := hrest
            simp only [Option.bind_eq_bind, hrun, Option.bind_some]
            rw [hrunLength] at hall
            refine ⟨hresult, .cons ?_ hall⟩
            rw [hprompted] at hfirst
            have hsame : (fun i => (mergedInferenceStep backends batchSize hypoIds
                (rest.map PooledBlock.task) run.1 first.2).2 (block.info.cacheHandles i)) =
                fun i => first.2 (block.info.cacheHandles i) := by
              funext i
              apply mergedInferenceStep_other
              rw [List.map_map]
              exact hdisjoint i
            rw [hsame]
            exact hfirst
      · have hstepped : stepped.1 = none := by
          change (mergedInferenceStep backends batchSize hypoIds
            ((block.info, block.prompt) :: rest.map PooledBlock.task) hiddenStates tensors).1 = none
          rw [mergedInferenceStep, if_neg hfits]
        rw [if_neg hfits]
        exact hstepped

end tasks

theorem AllHold.append {tensors : Tensors Handle Slot} {count maxLength : Nat}
    {left right : List (Fin width → Handle)} {leftPasts rightPasts : List (Past Slot width)}
    (hleft : AllHold tensors count maxLength left leftPasts)
    (hright : AllHold tensors count maxLength right rightPasts) :
    AllHold tensors count maxLength (left ++ right) (leftPasts ++ rightPasts) := by
  unfold AllHold at hleft ⊢
  induction hleft with
  | nil => exact hright
  | cons hfirst _ ih => exact .cons hfirst ih

theorem handlesOf_append (left right : List (Fin width → Handle)) :
    handlesOf (left ++ right) = handlesOf left ++ handlesOf right :=
  List.flatMap_append

namespace StepLoop

def opened (server : InferenceServer Token Slot width) (loop : StepLoop Token Handle width) :
    ServerSession Token (Past Slot width) :=
  ServerSession.new (loop.requestedUids.map fun uid => (server.moduleBackends uid).toBlock)
    loop.maxLength

/-- The merged pool accepts tasks of this size. -/
def Admissible (server : InferenceServer Token Slot width) (loop : StepLoop Token Handle width)
    (request : InferenceTensors Token) : Prop :=
  loop.batchSize * request.hiddenStates.length ≤ server.maxBatchSize

/-- Between two steps the caches of the session are what the cache tensors hold. -/
structure InStep (server : InferenceServer Token Slot width) (tensors : Tensors Handle Slot)
    (loop : StepLoop Token Handle width) (session : ServerSession Token (Past Slot width)) :
    Prop where
  backends : session.backends =
    loop.requestedUids.map fun uid => (server.moduleBackends uid).toBlock
  maxLength : session.maxLength = loop.maxLength
  prefixLength : session.prefixLength = loop.prefixLength
  hold : AllHold tensors loop.prefixLength loop.maxLength loop.cacheHandles session.caches

variable [Add Token]

/-- Some blocks of a step have run, and running the others gives what the session computes. -/
structure Partway (server : InferenceServer Token Slot width) (tensors : Tensors Handle Slot)
    (loop : StepLoop Token Handle width) (session : ServerSession Token (Past Slot width))
    (request : InferenceTensors Token) (hiddenStates : List Token)
    (done : List (Fin width → Handle)) (donePasts : List (Past Slot width))
    (blocks : List (PooledBlock Token Slot Handle width)) : Prop where
  backends : session.backends =
    loop.requestedUids.map fun uid => (server.moduleBackends uid).toBlock
  maxLength : session.maxLength = loop.maxLength
  prefixLength : session.prefixLength = loop.prefixLength
  layout : loop.cacheHandles = done ++ blocks.map fun block => block.info.cacheHandles
  doneHold : AllHold tensors (loop.prefixLength + request.hiddenStates.length) loop.maxLength done
    donePasts
  ready : ∀ block ∈ blocks, block.Ready tensors loop.prefixLength loop.maxLength
  sameLength : hiddenStates.length = request.hiddenStates.length
  within : loop.prefixLength + request.hiddenStates.length ≤ loop.maxLength
  result : session.process request =
    (runBlocks request.hypoIds (blocks.map (PooledBlock.cached server.moduleBackends))
      hiddenStates).map fun run => (run.1, { session with
        caches := donePasts ++ run.2
        prefixLength := session.prefixLength + request.hiddenStates.length })

/-- The tasks of a step hold the blocks that have not run. -/
structure Pending (request : InferenceTensors Token)
    (tasks : List (InferenceTask Token Handle width))
    (blocks : List (PooledBlock Token Slot Handle width)) : Prop where
  blocks : tasks.flatMap InferenceTask.blocks = blocks.map PooledBlock.task
  sameHypoIds : ∀ task ∈ tasks, task.hypoIds = request.hypoIds

/-- The loop has done with the requests what the session with its own caches does. -/
def Follows (server : InferenceServer Token Slot width) (tensors : Tensors Handle Slot)
    (loop : StepLoop Token Handle width) (requests : List (InferenceTensors Token)) : Prop :=
  match loop.phase with
  | .waiting => (∀ request ∈ requests, loop.Admissible server request) ∧
      ∃ session, (loop.opened server).processAll requests = some (loop.yielded, session) ∧
        loop.InStep server tensors session
  | .running lengthIncrement hiddenStates tasks =>
      ∃ earlier request session done donePasts blocks, requests = earlier ++ [request] ∧
        lengthIncrement = request.hiddenStates.length ∧
        (∀ request ∈ earlier, loop.Admissible server request) ∧
        (loop.opened server).processAll earlier = some (loop.yielded, session) ∧
        tasks ≠ [] ∧ Pending request tasks blocks ∧
        loop.Partway server tensors session request hiddenStates done donePasts blocks
  | .failed => ¬ ((∀ request ∈ requests, loop.Admissible server request) ∧
      ((loop.opened server).processAll requests).isSome = true)

variable {server : InferenceServer Token Slot width} {tensors other : Tensors Handle Slot}
  {loop : StepLoop Token Handle width} {requests : List (InferenceTensors Token)}

theorem Follows.congr (h : loop.Follows server tensors requests)
    (hsame : ∀ handle ∈ handlesOf loop.cacheHandles, other handle = tensors handle) :
    loop.Follows server other requests := by
  unfold Follows at h ⊢
  split
  · rename_i hphase
    rw [hphase] at h
    obtain ⟨hadmissible, session, hprocessed, hstep⟩ := h
    exact ⟨hadmissible, session, hprocessed,
      ⟨hstep.backends, hstep.maxLength, hstep.prefixLength, hstep.hold.congr hsame⟩⟩
  · rename_i lengthIncrement hiddenStates tasks hphase
    rw [hphase] at h
    obtain ⟨earlier, request, session, done, donePasts, blocks, hrequests, hlength, hadmissible,
      hprocessed, htasks, hpending, hpartway⟩ := h
    rw [hpartway.layout, handlesOf_append] at hsame
    refine ⟨earlier, request, session, done, donePasts, blocks, hrequests, hlength, hadmissible,
      hprocessed, htasks, hpending, { hpartway with doneHold := ?_, ready := ?_ }⟩
    · exact hpartway.doneHold.congr fun handle hmem =>
        hsame handle (List.mem_append_left _ hmem)
    · intro block hblock
      apply PooledBlock.Ready.congr (hpartway.ready block hblock)
      intro i
      exact hsame _ (List.mem_append_right _
        (mem_handlesOf.mpr ⟨_, List.mem_map_of_mem hblock, i, rfl⟩))
  · rename_i hphase
    rw [hphase] at h
    exact h

def pooledBlocks (loop : StepLoop Token Handle width) (prompts : List (List Token))
    (caches : List (Past Slot width)) : List (PooledBlock Token Slot Handle width) :=
  ((loop.infos.zip prompts).zip caches).map fun entry => ⟨entry.1.1, entry.1.2, entry.2⟩

omit [Add Token] in
theorem infos_length (loop : StepLoop Token Handle width) :
    loop.infos.length = loop.requestedUids.length := by
  rw [infos, List.length_map, List.length_zip, loop.sameCount, Nat.min_self]

section pooled
variable {prompts : List (List Token)} {caches : List (Past Slot width)}
  (hprompts : loop.requestedUids.length = prompts.length)
  (hcaches : loop.requestedUids.length = caches.length)
include hprompts hcaches

omit [Add Token] in
theorem pooledBlocks_length :
    (loop.pooledBlocks prompts caches).length = loop.requestedUids.length := by
  rw [pooledBlocks, List.length_map, List.length_zip, List.length_zip, infos_length, ← hprompts,
    ← hcaches, Nat.min_self, Nat.min_self]

omit [Add Token] hprompts in
theorem pooledBlocks_task :
    (loop.pooledBlocks prompts caches).map PooledBlock.task = loop.infos.zip prompts := by
  have hlength : (loop.infos.zip prompts).length ≤ caches.length := by
    rw [List.length_zip, infos_length, ← hcaches]
    exact Nat.min_le_left _ _
  rw [pooledBlocks, List.map_map]
  exact List.map_fst_zip hlength

omit [Add Token] in
theorem pooledBlocks_cacheHandles :
    (loop.pooledBlocks prompts caches).map (fun block => block.info.cacheHandles) =
      loop.cacheHandles := by
  apply List.ext_getElem
  · rw [List.length_map, pooledBlocks_length hprompts hcaches, loop.sameCount]
  · intro i hleft hright
    simp [pooledBlocks, infos]

omit [Add Token] in
theorem pooledBlocks_cached {session : ServerSession Token (Past Slot width)}
    (hbackends : session.backends =
      loop.requestedUids.map fun uid => (server.moduleBackends uid).toBlock) :
    (loop.pooledBlocks prompts caches).map (PooledBlock.cached server.moduleBackends) =
      session.backends.zip (caches.zip prompts) := by
  have hlength := pooledBlocks_length hprompts hcaches
  rw [hbackends]
  apply List.ext_getElem
  · rw [List.length_map, hlength, List.length_zip, List.length_zip, List.length_map, ← hprompts,
      ← hcaches, Nat.min_self, Nat.min_self]
  · intro i hleft hright
    simp [pooledBlocks, infos, PooledBlock.cached]

omit [Add Token] in
theorem pooledBlocks_ready
    (hhold : AllHold tensors loop.prefixLength loop.maxLength loop.cacheHandles caches) :
    ∀ block ∈ loop.pooledBlocks prompts caches,
      block.Ready tensors loop.prefixLength loop.maxLength := by
  intro block hblock
  obtain ⟨i, hi, rfl⟩ := List.getElem_of_mem hblock
  have hindex := hi
  rw [pooledBlocks_length hprompts hcaches] at hindex
  have hholds := (List.forall₂_iff_get.mp hhold).2 i (by rw [loop.sameCount]; exact hindex)
    (hcaches ▸ hindex)
  simp only [List.get_eq_getElem] at hholds
  constructor
  · simp [pooledBlocks, infos]
  · simpa [pooledBlocks, infos] using hholds

end pooled

omit [Add Token] in
/-- One task or one for each block: the blocks and their order are the same. -/
theorem tasks_blocks (hypoIds : List Nat) (prompts : List (List Token)) (lengthIncrement : Nat) :
    (loop.tasks server hypoIds prompts lengthIncrement).flatMap InferenceTask.blocks =
      loop.infos.zip prompts := by
  unfold tasks
  dsimp only
  split
  · simp
  · rw [List.flatMap_map]
    exact List.flatMap_singleton' _

omit [Add Token] in
theorem hypoIds_of_mem_tasks {hypoIds : List Nat} {prompts : List (List Token)}
    {lengthIncrement : Nat} {task : InferenceTask Token Handle width}
    (h : task ∈ loop.tasks server hypoIds prompts lengthIncrement) : task.hypoIds = hypoIds := by
  unfold tasks at h
  dsimp only at h
  split at h
  · rw [List.mem_singleton.mp h]
  · obtain ⟨block, -, rfl⟩ := List.mem_map.mp h
    rfl

omit [Add Token] in
theorem tasks_ne_nil {prompts : List (List Token)}
    (hprompts : loop.requestedUids.length = prompts.length) (hypoIds : List Nat)
    (lengthIncrement : Nat) : loop.tasks server hypoIds prompts lengthIncrement ≠ [] := by
  have hblocks : loop.infos.zip prompts ≠ [] := by
    apply List.ne_nil_of_length_pos
    rw [List.length_zip, infos_length, ← hprompts, Nat.min_self]
    exact List.length_pos_of_ne_nil loop.nonempty
  unfold tasks
  dsimp only
  split
  · exact List.cons_ne_nil _ _
  · exact fun h => hblocks (List.map_eq_nil_iff.mp h)

theorem processAll_request {session : ServerSession Token (Past Slot width)}
    {earlier : List (InferenceTensors Token)} {yielded : List (List Token)}
    (h : (loop.opened server).processAll earlier = some (yielded, session))
    (request : InferenceTensors Token) :
    (loop.opened server).processAll (earlier ++ [request]) =
      (session.process request).map fun last => (yielded ++ [last.1], last.2) := by
  rw [ServerSession.processAll_concat, h]
  rfl

theorem follows_failed {session : ServerSession Token (Past Slot width)}
    {earlier : List (InferenceTensors Token)} {yielded : List (List Token)}
    (hprocessed : (loop.opened server).processAll earlier = some (yielded, session))
    {request : InferenceTensors Token}
    (hrejected : session.process request = none ∨ ¬ loop.Admissible server request) :
    Follows server tensors { loop with phase := .failed } (earlier ++ [request]) := by
  rintro ⟨hadmissible, hall⟩
  rcases hrejected with hnone | hnot
  · have hlast : (loop.opened server).processAll (earlier ++ [request]) = none := by
      rw [processAll_request hprocessed, hnone]
      rfl
    exact absurd (hlast ▸ hall : (none : Option _).isSome = true) Bool.false_ne_true
  · exact hnot (hadmissible request (by simp))

theorem Follows.receive (hphase : loop.phase = .waiting) (h : loop.Follows server tensors requests)
    (request : InferenceTensors Token) :
    (loop.receive server request).Follows server tensors (requests ++ [request]) := by
  unfold Follows at h
  rw [hphase] at h
  obtain ⟨hadmissible, session, hprocessed, hstep⟩ := h
  have hprompts : (if request.prompts.all List.isEmpty then loop.requestedUids.map fun _ => []
      else request.prompts) = session.blockPrompts request := by
    rw [ServerSession.blockPrompts, hstep.backends, List.map_map]
    rfl
  have hbackends : session.backends.length = loop.requestedUids.length := by
    rw [hstep.backends, List.length_map]
  have hprocess := session.process_eq request
  rw [hbackends, hstep.maxLength, hstep.prefixLength] at hprocess
  unfold StepLoop.receive
  dsimp only
  rw [hprompts]
  split
  · rename_i hcount
    rw [if_pos hcount] at hprocess
    exact follows_failed hprocessed (.inl hprocess)
  · rename_i hcount
    rw [if_neg hcount] at hprocess
    split
    · rename_i hexceeds
      rw [if_pos hexceeds] at hprocess
      exact follows_failed hprocessed (.inl hprocess)
    · rename_i hwithin
      rw [if_neg hwithin] at hprocess
      split
      · rename_i hempty
        rw [if_pos hempty] at hprocess
        have hnil := List.length_eq_zero_iff.mp hempty
        have hall := processAll_request hprocessed request
        rw [hprocess] at hall
        unfold Follows
        dsimp only
        rw [hphase]
        refine ⟨?_, session, hnil ▸ hall,
          ⟨hstep.backends, hstep.maxLength, hstep.prefixLength, hstep.hold⟩⟩
        intro other hother
        rcases List.mem_append.mp hother with hother | hother
        · exact hadmissible other hother
        · rw [List.mem_singleton.mp hother]
          unfold Admissible
          dsimp only
          rw [hempty]
          exact Nat.zero_le _
      · rename_i htokens
        rw [if_neg htokens] at hprocess
        have hcount := not_not.mp hcount
        have hcaches : loop.requestedUids.length = session.caches.length :=
          loop.sameCount.symm.trans hstep.hold.length_eq
        have hblocks := pooledBlocks_cached hcount hcaches hstep.backends
        refine ⟨requests, request, session, [], [],
          loop.pooledBlocks (session.blockPrompts request) session.caches, rfl, rfl, hadmissible,
          hprocessed, tasks_ne_nil hcount _ _, ?_, ?_⟩
        · constructor
          · rw [tasks_blocks, pooledBlocks_task hcaches]
          · exact fun task htask => hypoIds_of_mem_tasks htask
        constructor
        · exact hstep.backends
        · exact hstep.maxLength
        · exact hstep.prefixLength
        · exact (pooledBlocks_cacheHandles hcount hcaches).symm
        · exact .nil
        · exact pooledBlocks_ready hcount hcaches hstep.hold
        · rfl
        · exact Nat.le_of_not_lt hwithin
        · rw [hblocks, hprocess, hstep.prefixLength, hstep.maxLength, Option.map_eq_bind]
          rfl

section resuming
variable [DecidableEq Handle] {session : ServerSession Token (Past Slot width)}
  {request : InferenceTensors Token} {hiddenStates : List Token}
  {task : InferenceTask Token Handle width} {later : List (InferenceTask Token Handle width)}
  {done : List (Fin width → Handle)} {donePasts : List (Past Slot width)}
  {blocks : List (PooledBlock Token Slot Handle width)}

omit [Add Token] [DecidableEq Handle] in
theorem Pending.split (h : Pending request (task :: later) blocks) :
    ∃ now rest, blocks = now ++ rest ∧ task.blocks = now.map PooledBlock.task ∧
      Pending request later rest := by
  have hblocks := h.blocks
  rw [List.flatMap_cons] at hblocks
  obtain ⟨now, rest, hsplit, hnow, hrest⟩ := List.map_eq_append_iff.mp hblocks.symm
  exact ⟨now, rest, hsplit, hnow.symm, hrest.symm,
    fun other hmem => h.sameHypoIds other (List.mem_cons_of_mem _ hmem)⟩

theorem Partway.run {now rest : List (PooledBlock Token Slot Handle width)}
    (h : loop.Partway server tensors session request hiddenStates done donePasts (now ++ rest))
    (hdistinct : (handlesOf loop.cacheHandles).Nodup) :
    let stepped := mergedInferenceStep server.moduleBackends loop.batchSize request.hypoIds
      (now.map PooledBlock.task) hiddenStates tensors
    stepped.1 = none ∧ session.process request = none ∨
    ∃ outputs nowPasts, stepped.1 = some outputs ∧
      loop.Partway server stepped.2 session request outputs
        (done ++ now.map fun block => block.info.cacheHandles) (donePasts ++ nowPasts) rest := by
  intro stepped
  have hlayout := h.layout
  rw [List.map_append, ← List.append_assoc] at hlayout
  rw [hlayout, handlesOf_append, handlesOf_append, List.nodup_append, List.nodup_append] at hdistinct
  obtain ⟨⟨-, hnowDistinct, hdoneNow⟩, -, hnowRest⟩ := hdistinct
  have hspec := mergedInferenceStep_spec server.moduleBackends loop.batchSize request.hypoIds
    hnowDistinct (fun block hmem => h.ready block (List.mem_append_left _ hmem))
    (h.sameLength.symm ▸ h.within)
  have hresult := h.result
  rw [List.map_append, runBlocks_append] at hresult
  have hkept {handle : Handle}
      (hother : handle ∉ handlesOf (now.map fun block => block.info.cacheHandles)) :
      stepped.2 handle = tensors handle := by
    apply mergedInferenceStep_other
    rw [List.map_map]
    exact hother
  cases hrun : runBlocks request.hypoIds (now.map (PooledBlock.cached server.moduleBackends))
      hiddenStates with
  | none =>
      rw [hrun] at hspec hresult
      exact .inl ⟨hspec, hresult⟩
  | some run =>
      rw [hrun] at hspec hresult
      obtain ⟨houtputs, hhold⟩ := hspec
      rw [h.sameLength] at hhold
      refine .inr ⟨run.1, run.2, houtputs, { h with
        layout := hlayout
        doneHold := ?_
        ready := ?_
        sameLength := (runBlocks_length hrun).1.trans h.sameLength
        result := ?_ }⟩
      · refine (h.doneHold.congr fun handle hdone => hkept fun hnow => ?_).append hhold
        exact hdoneNow _ hdone _ hnow rfl
      · intro block hblock
        apply PooledBlock.Ready.congr (h.ready block (List.mem_append_right _ hblock))
        intro i
        apply hkept
        intro hnow
        refine hnowRest _ (List.mem_append_right _ hnow) _ ?_ rfl
        exact mem_handlesOf.mpr ⟨_, List.mem_map_of_mem hblock, i, rfl⟩
      · rw [hresult, Option.bind_some, Option.map_map]
        congr 1
        funext later
        simp only [Function.comp, List.append_assoc]

omit [DecidableEq Handle] in
theorem Partway.finished
    (h : loop.Partway server tensors session request hiddenStates done donePasts []) :
    session.process request = some (hiddenStates, { session with
        caches := donePasts
        prefixLength := session.prefixLength + request.hiddenStates.length }) ∧
      AllHold tensors (loop.prefixLength + request.hiddenStates.length) loop.maxLength
        loop.cacheHandles donePasts := by
  have hresult := h.result
  have hlayout := h.layout
  rw [List.map_nil, List.append_nil] at hlayout
  refine ⟨?_, hlayout ▸ h.doneHold⟩
  rw [hresult]
  simp [runBlocks]

omit [Add Token] [DecidableEq Handle] in
theorem Pending.eq_nil (h : Pending request [] blocks) : blocks = [] :=
  List.map_eq_nil_iff.mp h.blocks.symm

theorem Follows.resolve {lengthIncrement : Nat}
    (hphase : loop.phase = .running lengthIncrement hiddenStates (task :: later))
    (h : loop.Follows server tensors requests) (hdistinct : (handlesOf loop.cacheHandles).Nodup) :
    let result := InferenceRuntime.runTask server loop.batchSize task hiddenStates tensors
    (loop.resume lengthIncrement later result.1).Follows server result.2 requests := by
  unfold Follows at h
  rw [hphase] at h
  obtain ⟨earlier, request, session, done, donePasts, blocks, rfl, rfl, hadmissible, hprocessed, -,
    hpending, hpartway⟩ := h
  intro result
  by_cases hlarge : server.maxBatchSize < loop.batchSize * hiddenStates.length
  · have hresult : result = (none, tensors) := if_pos hlarge
    rw [hresult]
    rw [hpartway.sameLength] at hlarge
    exact follows_failed hprocessed (.inr (Nat.not_le_of_lt hlarge))
  · obtain ⟨now, rest, rfl, hnow, hlater⟩ := hpending.split
    have hresult : result = mergedInferenceStep server.moduleBackends loop.batchSize
        request.hypoIds (now.map PooledBlock.task) hiddenStates tensors := by
      rw [← hnow, ← hpending.sameHypoIds task List.mem_cons_self]
      exact if_neg hlarge
    rw [hpartway.sameLength] at hlarge
    rcases hpartway.run hdistinct with ⟨hnone, hrejected⟩ | ⟨outputs, nowPasts, hsome, hfurther⟩
    · rw [hresult, hnone]
      exact follows_failed hprocessed (.inl hrejected)
    · rw [hresult, hsome]
      unfold resume
      dsimp only
      split
      · rename_i hlast
        subst hlast
        cases hlater.eq_nil
        obtain ⟨hprocess, hhold⟩ := hfurther.finished
        have hall := processAll_request hprocessed request
        rw [hprocess] at hall
        refine ⟨?_, _, hall, ⟨hfurther.backends, hfurther.maxLength, ?_, hhold⟩⟩
        · intro other hother
          rcases List.mem_append.mp hother with hother | hother
          · exact hadmissible other hother
          · rw [List.mem_singleton.mp hother]
            exact Nat.le_of_not_lt hlarge
        · exact congrArg (· + request.hiddenStates.length) hfurther.prefixLength
      · rename_i hmore
        exact ⟨earlier, request, session, _, _, rest, rfl, rfl, hadmissible, hprocessed, hmore,
          hlater, { hfurther with }⟩

end resuming

end StepLoop
end Peerz.Server
