import Mathlib.Data.List.Nodup
import Peerz.Client.PushPipeline

/-! Each server of the chain yields each step once, in the order of issue, whichever copy of it
comes first, and the client reads the responses in the same order. -/
namespace Peerz.Client
open Library Server

variable {PeerID SessionId StepId Token Wire : Type}

theorem take_succ_of_new {ids : List StepId} {count : Nat} (hbehind : ids.length ≤ count + 1)
    {stepId : StepId} (hissued : stepId ∈ ids) (hnew : stepId ∉ ids.take count) :
    ids.take (count + 1) = ids.take count ++ [stepId] := by
  obtain ⟨index, hindex, rfl⟩ := List.mem_iff_getElem.mp hissued
  have hlate : count ≤ index := by
    apply Nat.le_of_not_lt
    intro hearly
    exact hnew (List.mem_take_iff_getElem.mpr ⟨index, by omega, rfl⟩)
  obtain rfl : index = count := by omega
  exact (List.take_append_getElem hindex).symm

def Known (ids : List StepId) (request : StepRequest PeerID SessionId StepId Token Wire) : Prop :=
  ∃ stepId ∈ ids, request.metadata.stepId = some stepId

theorem Known.mono {ids : List StepId} {request : StepRequest PeerID SessionId StepId Token Wire}
    (h : Known ids request) (stepId : StepId) : Known (ids ++ [stepId]) request := by
  obtain ⟨known, hmem, heq⟩ := h
  exact ⟨known, List.mem_append_left _ hmem, heq⟩

def answers (serve : List (RequestTensors Token Wire) → Wire)
    (requests : List (StepRequest PeerID SessionId StepId Token Wire)) : List Wire :=
  (List.range requests.length).map fun index =>
    InferenceStream.answer serve (requests.take (index + 1))

theorem answers_concat (serve : List (RequestTensors Token Wire) → Wire)
    (requests : List (StepRequest PeerID SessionId StepId Token Wire))
    (request : StepRequest PeerID SessionId StepId Token Wire) :
    answers serve (requests ++ [request]) =
      answers serve requests ++ [InferenceStream.answer serve (requests ++ [request])] := by
  unfold answers
  rw [List.length_append, List.length_singleton, List.range_succ, List.map_append]
  congr 1
  · apply List.map_congr_left
    intro index hindex
    rw [List.take_append_of_le_length (List.mem_range.mp hindex)]
  · rw [List.map_singleton, List.take_of_length_le (by simp)]

@[simp] theorem answers_length (serve : List (RequestTensors Token Wire) → Wire)
    (requests : List (StepRequest PeerID SessionId StepId Token Wire)) :
    (answers serve requests).length = requests.length := by
  simp [answers]

/-- The stream of a server, when the client has issued the steps, sent some of them to the server
and read some of its responses. The handler may have a request in its hand. -/
structure Aligned (serve : List (RequestTensors Token Wire) → Wire) (ids : List StepId)
    (reads sends : Nat) (hand : List (StepRequest PeerID SessionId StepId Token Wire))
    (stream : InferenceStream PeerID SessionId StepId Token Wire) : Prop where
  yieldedIds : stream.yielded.map (fun request => request.metadata.stepId) =
    (ids.take stream.yielded.length).map some
  processed : stream.processedStepIds = ids.take stream.yielded.length
  behind : ids.length ≤ reads + 1
  answered : stream.read ++ stream.responses = answers serve stream.yielded
  readCount : stream.read.length = reads
  known : ∀ request ∈ hand ++ stream.requests ++ stream.sessionQueue, Known ids request
  reaches : ∀ stepId ∈ ids.take sends, stepId ∈ ids.take stream.yielded.length ∨
    ∃ request ∈ hand ++ stream.requests, request.metadata.stepId = some stepId
  conserved : (stream.sent ++ stream.queued).Perm
    (stream.yielded ++ stream.discarded ++ (hand ++ stream.requests ++ stream.sessionQueue))
  repeated : ∀ request ∈ stream.discarded,
    ∃ other ∈ stream.yielded, other.metadata.stepId = request.metadata.stepId

namespace Aligned

variable {serve : List (RequestTensors Token Wire) → Wire} {ids : List StepId} {reads sends : Nat}
  {hand : List (StepRequest PeerID SessionId StepId Token Wire)}
  {stream : InferenceStream PeerID SessionId StepId Token Wire}

theorem yielded_le (h : Aligned serve ids reads sends hand stream) :
    stream.yielded.length ≤ ids.length := by
  have hlength := congrArg List.length h.yieldedIds
  rw [List.length_map, List.length_map, List.length_take] at hlength
  omega

theorem reads_le (h : Aligned serve ids reads sends hand stream) :
    reads ≤ stream.yielded.length := by
  have hlength := congrArg List.length h.answered
  rw [List.length_append, answers_length, h.readCount] at hlength
  omega

theorem exists_yielded (h : Aligned serve ids reads sends hand stream) {stepId : StepId}
    (hmem : stepId ∈ ids.take stream.yielded.length) :
    ∃ request ∈ stream.yielded, request.metadata.stepId = some stepId := by
  have hsome : some stepId ∈ (ids.take stream.yielded.length).map some :=
    List.mem_map_of_mem hmem
  rw [← h.yieldedIds] at hsome
  obtain ⟨request, hrequest, heq⟩ := List.mem_map.mp hsome
  exact ⟨request, hrequest, heq⟩

theorem yielded_stepId (h : Aligned serve ids reads sends hand stream) {index : Nat}
    {request : StepRequest PeerID SessionId StepId Token Wire}
    (hrequest : stream.yielded[index]? = some request) :
    ∃ stepId, ids[index]? = some stepId ∧ request.metadata.stepId = some stepId := by
  have hbound := (List.getElem?_eq_some_iff.mp hrequest).1
  have hat : (stream.yielded.map (fun request => request.metadata.stepId))[index]? =
      ((ids.take stream.yielded.length).map some)[index]? := by rw [h.yieldedIds]
  rw [List.getElem?_map, List.getElem?_map, hrequest, List.getElem?_take_of_lt hbound] at hat
  obtain ⟨stepId, hstepId, hsame⟩ := Option.map_eq_some_iff.mp hat.symm
  exact ⟨stepId, hstepId, hsame.symm⟩

variable [DecidableEq StepId]

theorem turn {request : StepRequest PeerID SessionId StepId Token Wire}
    (h : Aligned serve ids reads sends [request] stream) (opening : RequestTensors Token Wire) :
    Aligned serve ids reads sends [] (stream.turn serve opening request).1 := by
  obtain ⟨stepId, hissued, hstepId⟩ := h.known request (by simp)
  have hbehind : ids.length ≤ stream.yielded.length + 1 := by
    have hreads := h.reads_le
    have hreadsBehind := h.behind
    omega
  have hisNew : stream.isNew request = true ↔ stepId ∉ ids.take stream.yielded.length := by
    simp [InferenceStream.isNew, hstepId, h.processed]
  unfold InferenceStream.turn
  by_cases hnew : stepId ∈ ids.take stream.yielded.length
  · rw [if_neg fun htrue => hisNew.mp htrue hnew]
    obtain ⟨other, hother, hotherId⟩ := h.exists_yielded hnew
    refine { h with known := ?_, reaches := ?_, conserved := ?_, repeated := ?_ }
    · intro waiting hwaiting
      exact h.known waiting (List.mem_cons_of_mem _ hwaiting)
    · intro sent hsent
      obtain hdone | ⟨waiting, hwaiting, hwaitingId⟩ := h.reaches sent hsent
      · exact .inl hdone
      · obtain rfl | hwaiting := List.mem_cons.mp hwaiting
        · obtain rfl : stepId = sent := Option.some.inj (hstepId.symm.trans hwaitingId)
          exact .inl hnew
        · exact .inr ⟨waiting, hwaiting, hwaitingId⟩
    · refine h.conserved.trans ?_
      simp
    · intro seen hseen
      obtain hseen | hseen := List.mem_append.mp hseen
      · exact h.repeated seen hseen
      · obtain rfl := List.mem_singleton.mp hseen
        exact ⟨other, hother, hotherId.trans hstepId.symm⟩
  · rw [if_pos (hisNew.mpr hnew)]
    have hnext := take_succ_of_new hbehind hissued hnew
    refine { h with
      yieldedIds := ?_, processed := ?_, answered := ?_, known := ?_, reaches := ?_
      conserved := ?_, repeated := ?_ }
    · simp only [List.map_append, List.map_cons, List.map_nil, List.length_append,
        List.length_singleton, hnext, h.yieldedIds, hstepId]
    · simp only [List.length_append, List.length_singleton, hnext, h.processed, hstepId,
        Option.toList_some]
    · rw [answers_concat, ← h.answered, List.append_assoc]
    · intro waiting hwaiting
      exact h.known waiting (List.mem_cons_of_mem _ hwaiting)
    · intro sent hsent
      simp only [List.length_append, List.length_singleton, hnext]
      obtain hdone | ⟨waiting, hwaiting, hwaitingId⟩ := h.reaches sent hsent
      · exact .inl (List.mem_append_left _ hdone)
      · obtain rfl | hwaiting := List.mem_cons.mp hwaiting
        · obtain rfl : stepId = sent := Option.some.inj (hstepId.symm.trans hwaitingId)
          exact .inl (by simp)
        · exact .inr ⟨waiting, hwaiting, hwaitingId⟩
    · refine h.conserved.trans ?_
      simp only [List.append_assoc, List.singleton_append, List.nil_append]
      exact List.Perm.append_left _ List.perm_middle
    · intro seen hseen
      obtain ⟨other, hother, hotherId⟩ := h.repeated seen hseen
      exact ⟨other, List.mem_append_left _ hother, hotherId⟩

omit [DecidableEq StepId] in
theorem pop_request {request : StepRequest PeerID SessionId StepId Token Wire}
    {rest : List (StepRequest PeerID SessionId StepId Token Wire)}
    (h : Aligned serve ids reads sends [] stream) (hrequests : stream.requests = request :: rest)
    (opening : Option (RequestTensors Token Wire)) :
    Aligned serve ids reads sends [request]
      { stream with requests := rest, opening := opening } := by
  refine { h with known := ?_, reaches := ?_, conserved := ?_ }
  · simpa [hrequests] using h.known
  · simpa [hrequests] using h.reaches
  · simpa [hrequests] using h.conserved

omit [DecidableEq StepId] in
theorem pop_push {request : StepRequest PeerID SessionId StepId Token Wire}
    {rest : List (StepRequest PeerID SessionId StepId Token Wire)}
    (h : Aligned serve ids reads sends [] stream)
    (hqueue : stream.sessionQueue = request :: rest) :
    Aligned serve ids reads sends [request] { stream with sessionQueue := rest } := by
  refine { h with known := ?_, reaches := ?_, conserved := ?_ }
  · intro waiting hwaiting
    apply h.known
    rw [hqueue]
    simp only [List.mem_append, List.mem_cons] at hwaiting ⊢
    tauto
  · intro stepId hsent
    obtain hdone | ⟨waiting, hwaiting, hwaitingId⟩ := h.reaches stepId hsent
    · exact .inl hdone
    · exact .inr ⟨waiting, List.mem_cons_of_mem _ hwaiting, hwaitingId⟩
  · refine h.conserved.trans ?_
    simp only [hqueue, List.append_assoc, List.nil_append, List.singleton_append]
    exact List.Perm.append_left _ (List.Perm.append_left _ List.perm_middle)

omit [DecidableEq StepId] in
theorem finish (h : Aligned serve ids reads sends [] stream) (hrequests : stream.requests = [])
    (hall : ids.length ≤ reads) :
    Aligned serve ids reads sends []
      { stream with
        ended := true
        sessionQueue := []
        discarded := stream.discarded ++ stream.sessionQueue } := by
  have hyielded : ids.take stream.yielded.length = ids :=
    List.take_of_length_le (hall.trans h.reads_le)
  refine { h with known := ?_, conserved := ?_, repeated := ?_ }
  · simp [hrequests]
  · refine h.conserved.trans ?_
    simp [hrequests]
  · intro seen hseen
    obtain hseen | hseen := List.mem_append.mp hseen
    · exact h.repeated seen hseen
    · obtain ⟨stepId, hissued, hstepId⟩ := h.known seen (List.mem_append_right _ hseen)
      rw [← hyielded] at hissued
      obtain ⟨other, hother, hotherId⟩ := h.exists_yielded hissued
      exact ⟨other, hother, hotherId.trans hstepId.symm⟩

omit [DecidableEq StepId] in
theorem rpcPush {request : StepRequest PeerID SessionId StepId Token Wire}
    (h : Aligned serve ids reads sends [] stream) (hknown : Known ids request) :
    Aligned serve ids reads sends [] (stream.rpcPush request) := by
  unfold InferenceStream.rpcPush
  split
  · refine { h with known := ?_, conserved := ?_ }
    · intro waiting hwaiting
      rw [← List.append_assoc, List.mem_append, List.mem_singleton] at hwaiting
      obtain hwaiting | rfl := hwaiting
      · exact h.known waiting hwaiting
      · exact hknown
    · have happended := h.conserved.append_right [request]
      simpa only [List.append_assoc, List.nil_append] using happended
  · exact h

omit [DecidableEq StepId] in
theorem issue (h : Aligned serve ids ids.length ids.length [] stream) (stepId : StepId) :
    Aligned serve (ids ++ [stepId]) ids.length ids.length [] stream := by
  have htake : (ids ++ [stepId]).take stream.yielded.length = ids.take stream.yielded.length :=
    List.take_append_of_le_length h.yielded_le
  refine { h with yieldedIds := ?_, processed := ?_, behind := ?_, known := ?_, reaches := ?_ }
  · rw [htake]
    exact h.yieldedIds
  · rw [htake]
    exact h.processed
  · rw [List.length_append, List.length_singleton]
  · intro waiting hwaiting
    exact (h.known waiting hwaiting).mono stepId
  · rw [htake, List.take_append_of_le_length (Nat.le_refl _)]
    exact h.reaches

omit [DecidableEq StepId] in
theorem send {request : StepRequest PeerID SessionId StepId Token Wire}
    (h : Aligned serve ids reads (ids.length - 1) [] stream)
    (hlast : ids.getLast? = request.metadata.stepId) (hissued : ids ≠ []) :
    Aligned serve ids reads ids.length []
      { stream with
        requests := stream.requests ++ [request]
        sent := stream.sent ++ [request] } := by
  have hlastId : request.metadata.stepId = some (ids.getLast hissued) := by
    rw [← hlast, List.getLast?_eq_getLast_of_ne_nil hissued]
  refine { h with known := ?_, reaches := ?_, conserved := ?_ }
  · intro waiting hwaiting
    simp only [List.nil_append, List.append_assoc, List.mem_append, List.mem_singleton] at hwaiting
    obtain hwaiting | rfl | hwaiting := hwaiting
    · exact h.known waiting (by simp [hwaiting])
    · exact ⟨_, List.getLast_mem hissued, hlastId⟩
    · exact h.known waiting (by simp [hwaiting])
  · intro stepId hsent
    rw [List.take_length, ← List.dropLast_append_getLast hissued, List.mem_append,
      List.mem_singleton, List.dropLast_eq_take] at hsent
    obtain hsent | rfl := hsent
    · obtain hdone | ⟨waiting, hwaiting, hwaitingId⟩ := h.reaches stepId hsent
      · exact .inl hdone
      · exact .inr ⟨waiting, by simpa using .inl hwaiting, hwaitingId⟩
    · exact .inr ⟨request, by simp, hlastId⟩
  · have hmoved : (stream.sent ++ [request] ++ stream.queued).Perm
        (request :: (stream.sent ++ stream.queued)) := by
      rw [List.append_assoc, List.singleton_append]
      exact List.perm_middle
    have hplaced : (request :: (stream.yielded ++ stream.discarded ++ stream.requests ++
        stream.sessionQueue)).Perm (stream.yielded ++ stream.discarded ++ stream.requests ++
          request :: stream.sessionQueue) := List.perm_middle.symm
    refine hmoved.trans ((h.conserved.cons request).trans ?_)
    simpa only [List.nil_append, List.append_assoc, List.singleton_append] using hplaced

omit [DecidableEq StepId] in
theorem receive {response : Wire} {rest : List Wire}
    (h : Aligned serve ids reads sends [] stream)
    (hresponses : stream.responses = response :: rest) :
    Aligned serve ids (reads + 1) sends []
      { stream with responses := rest, read := stream.read ++ [response] } := by
  refine { h with behind := ?_, answered := ?_, readCount := ?_ }
  · exact Nat.le_succ_of_le h.behind
  · rw [← h.answered, hresponses, List.append_assoc, List.singleton_append]
  · rw [List.length_append, List.length_singleton, h.readCount]

omit [DecidableEq StepId] in
theorem close (h : Aligned serve ids reads sends [] stream) (doneSending : Bool) :
    Aligned serve ids reads sends [] { stream with doneSending := doneSending } := by
  exact { h with }

end Aligned

namespace ClientPhase

def step? : ClientPhase StepId Token → Option (ClientStep StepId Token)
  | .idle | .closed => none
  | .sending step _ _ => some step
  | .awaiting step _ => some step

def reads (issued serverIdx : Nat) : ClientPhase StepId Token → Nat
  | .idle | .closed => issued
  | .sending _ current _ => if serverIdx < current then issued else issued - 1
  | .awaiting _ current => if serverIdx < current then issued else issued - 1

def sends (issued serverIdx : Nat) : ClientPhase StepId Token → Nat
  | .idle | .closed => issued
  | .sending _ current _ => if serverIdx < current then issued else issued - 1
  | .awaiting _ current => if serverIdx ≤ current then issued else issued - 1

end ClientPhase

structure Kept (pipeline : Pipeline PeerID SessionId StepId Token Wire) (ids : List StepId)
    (phase : ClientPhase StepId Token) (sessionId : SessionId)
    (stream : InferenceStream PeerID SessionId StepId Token Wire) : Prop where
  known : ∀ request ∈ stream.requests ++ stream.sessionQueue, Known ids request
  closing : stream.doneSending = true → phase = .closed
  ending : stream.ended = true → stream.doneSending = true
  aligned : ∀ serverIdx session, pipeline.chain[serverIdx]? = some session →
    session.sessionId = sessionId → Aligned (pipeline.serve sessionId) ids
      (phase.reads ids.length serverIdx) (phase.sends ids.length serverIdx) [] stream

namespace Kept

variable [DecidableEq StepId] {pipeline : Pipeline PeerID SessionId StepId Token Wire}
  {ids : List StepId} {phase : ClientPhase StepId Token} {sessionId : SessionId}
  {stream : InferenceStream PeerID SessionId StepId Token Wire}
  {result : InferenceStream PeerID SessionId StepId Token Wire ×
    List (NextServer PeerID SessionId × StepRequest PeerID SessionId StepId Token Wire)}

theorem turn_pushes {serve : List (RequestTensors Token Wire) → Wire}
    {request : StepRequest PeerID SessionId StepId Token Wire} (hknown : Known ids request)
    (opening : RequestTensors Token Wire) :
    ∀ push ∈ (stream.turn serve opening request).2, Known ids push.2 := by
  intro push hpush
  obtain ⟨hpush, -⟩ := InferenceStream.mem_turn_pushes serve stream hpush
  obtain ⟨-, hstepId, -⟩ := pushOutputs_eq_some hpush
  obtain ⟨stepId, hissued, hrequest⟩ := hknown
  exact ⟨stepId, hissued, hstepId.trans hrequest⟩

theorem takeRequest (h : Kept pipeline ids phase sessionId stream)
    (htake : stream.takeRequest (pipeline.serve sessionId) = some result) :
    Kept pipeline ids phase sessionId result.1 ∧ ∀ push ∈ result.2, Known ids push.2 := by
  unfold InferenceStream.takeRequest at htake
  split at htake
  · cases htake
  · rename_i hopen
    split at htake
    · rename_i request rest hrequests
      cases htake
      have hknown : Known ids request := h.known request (by simp [hrequests])
      refine ⟨?_, turn_pushes hknown _⟩
      obtain ⟨hrest, hqueue, hdone, hended, -, -, -⟩ := InferenceStream.turn_frame
        (pipeline.serve sessionId) { stream with
          requests := rest
          opening := some (stream.opening.getD request.tensors) }
        (stream.opening.getD request.tensors) request
      constructor
      · intro waiting hwaiting
        rw [hrest, hqueue] at hwaiting
        apply h.known
        rw [hrequests]
        exact List.mem_cons_of_mem _ hwaiting
      · rw [hdone]
        exact h.closing
      · rw [hdone, hended]
        exact h.ending
      · intro serverIdx session hsession hid
        exact ((h.aligned serverIdx session hsession hid).pop_request hrequests _).turn _
    · rename_i hrequests
      split at htake
      · rename_i hdone
        cases htake
        refine ⟨?_, fun _ hmem => absurd hmem List.not_mem_nil⟩
        have hclosed := h.closing hdone.1
        subst hclosed
        constructor
        · simp [hrequests]
        · exact h.closing
        · exact fun _ => hdone.1
        · intro serverIdx session hsession hid
          exact (h.aligned serverIdx session hsession hid).finish hrequests (Nat.le_refl _)
      · cases htake

theorem takePush (h : Kept pipeline ids phase sessionId stream)
    (htake : stream.takePush (pipeline.serve sessionId) = some result) :
    Kept pipeline ids phase sessionId result.1 ∧ ∀ push ∈ result.2, Known ids push.2 := by
  unfold InferenceStream.takePush at htake
  split at htake
  · cases htake
  · split at htake
    · rename_i opening request rest hopening hqueue
      cases htake
      have hknown : Known ids request := h.known request (by simp [hqueue])
      refine ⟨?_, turn_pushes hknown _⟩
      obtain ⟨hrequests, hrest, hdone, hended, -, -, -⟩ := InferenceStream.turn_frame
        (pipeline.serve sessionId) { stream with sessionQueue := rest } opening request
      constructor
      · intro waiting hwaiting
        rw [hrequests, hrest] at hwaiting
        apply h.known
        rw [hqueue]
        simp only [List.mem_append, List.mem_cons] at hwaiting ⊢
        tauto
      · rw [hdone]
        exact h.closing
      · rw [hdone, hended]
        exact h.ending
      · intro serverIdx session hsession hid
        exact ((h.aligned serverIdx session hsession hid).pop_push hqueue).turn _
    · cases htake

omit [DecidableEq StepId] in
theorem rpcPush (h : Kept pipeline ids phase sessionId stream)
    {request : StepRequest PeerID SessionId StepId Token Wire} (hknown : Known ids request) :
    Kept pipeline ids phase sessionId (stream.rpcPush request) := by
  constructor
  · unfold InferenceStream.rpcPush
    split
    · intro waiting hwaiting
      rw [← List.append_assoc, List.mem_append, List.mem_singleton] at hwaiting
      obtain hwaiting | rfl := hwaiting
      · exact h.known waiting hwaiting
      · exact hknown
    · exact h.known
  · unfold InferenceStream.rpcPush
    split
    · exact h.closing
    · exact h.closing
  · unfold InferenceStream.rpcPush
    split
    · exact h.ending
    · exact h.ending
  · intro serverIdx session hsession hid
    exact (h.aligned serverIdx session hsession hid).rpcPush hknown

end Kept

structure Orderly (pipeline : Pipeline PeerID SessionId StepId Token Wire)
    (state : PipelineState PeerID SessionId StepId Token Wire) : Prop where
  unique : state.stepIds.Nodup
  current : ∀ step, state.phase.step? = some step → state.steps.getLast? = some step
  flying : ∀ push ∈ state.inFlight, Known state.stepIds push.2
  streams : ∀ sessionId,
    Kept pipeline state.stepIds state.phase sessionId (state.streams sessionId)

namespace Orderly

variable [DecidableEq SessionId] [DecidableEq StepId]
  {pipeline : Pipeline PeerID SessionId StepId Token Wire}
  {state next : PipelineState PeerID SessionId StepId Token Wire}

omit [DecidableEq StepId] in
theorem turned (h : Orderly pipeline state) {sessionId : SessionId}
    {result : InferenceStream PeerID SessionId StepId Token Wire ×
      List (NextServer PeerID SessionId × StepRequest PeerID SessionId StepId Token Wire)}
    (hresult : Kept pipeline state.stepIds state.phase sessionId result.1 ∧
      ∀ push ∈ result.2, Known state.stepIds push.2) :
    Orderly pipeline (Pipeline.turned state sessionId result) := by
  refine { h with flying := ?_, streams := ?_ }
  · intro push hpush
    obtain hpush | hpush := List.mem_append.mp hpush
    · exact h.flying push hpush
    · exact hresult.2 push hpush
  · apply (Function.forall_update_iff _ (fun id stream =>
      Kept pipeline state.stepIds state.phase id stream)).mpr
    exact ⟨hresult.1, fun other _ => h.streams other⟩

omit [DecidableEq SessionId] [DecidableEq StepId] in
theorem index_unique (pipeline : Pipeline PeerID SessionId StepId Token Wire) {left right : Nat}
    {first second : NextServer PeerID SessionId} (hfirst : pipeline.chain[left]? = some first)
    (hsecond : pipeline.chain[right]? = some second) (hid : first.sessionId = second.sessionId) :
    left = right := by
  apply (List.getElem?_inj _ pipeline.uniqueSessionIds).mp
  · rw [List.getElem?_map, List.getElem?_map, hfirst, hsecond, Option.map_some, Option.map_some,
      hid]
  · rw [List.length_map]
    exact (List.getElem?_eq_some_iff.mp hfirst).1

omit [DecidableEq SessionId] [DecidableEq StepId] in
theorem stepIds_getLast? (h : Orderly pipeline state) {step : ClientStep StepId Token}
    (hstep : state.phase.step? = some step) : state.stepIds.getLast? = some step.stepId := by
  rw [PipelineState.stepIds, List.getLast?_map, h.current step hstep]
  rfl

omit [DecidableEq SessionId] [DecidableEq StepId] in
theorem stepIds_pos (h : Orderly pipeline state) {step : ClientStep StepId Token}
    (hstep : state.phase.step? = some step) : 0 < state.stepIds.length := by
  have hlast := h.stepIds_getLast? hstep
  apply List.length_pos_of_ne_nil
  rintro hempty
  rw [hempty] at hlast
  cases hlast

theorem beginStep (h : Orderly pipeline state) {step : ClientStep StepId Token}
    (hstep : pipeline.step state (.beginStep step) = some next) : Orderly pipeline next := by
  unfold Pipeline.step at hstep
  dsimp only at hstep
  split at hstep
  · rename_i hphase
    split at hstep
    · cases hstep
    · rename_i hnew
      cases hstep
      have hids : (state.steps ++ [step]).map ClientStep.stepId =
          state.stepIds ++ [step.stepId] := by
        rw [List.map_append, List.map_singleton, PipelineState.stepIds]
      constructor
      · rw [PipelineState.stepIds, hids, List.nodup_append]
        refine ⟨h.unique, List.pairwise_singleton _ _, ?_⟩
        rintro stepId hissued other hother rfl
        exact hnew (List.mem_singleton.mp hother ▸ hissued)
      · intro other hother
        cases hother
        exact List.getLast?_concat
      · intro push hpush
        rw [PipelineState.stepIds, hids]
        exact (h.flying push hpush).mono step.stepId
      · intro sessionId
        have hkept := h.streams sessionId
        rw [PipelineState.stepIds, hids]
        constructor
        · intro request hrequest
          exact (hkept.known request hrequest).mono step.stepId
        · intro hdone
          have hclosed := hkept.closing hdone
          rw [hphase] at hclosed
          cases hclosed
        · exact hkept.ending
        · intro serverIdx session hsession hid
          have haligned := hkept.aligned serverIdx session hsession hid
          rw [hphase] at haligned
          simpa [ClientPhase.reads, ClientPhase.sends] using haligned.issue step.stepId
  · cases hstep

theorem send (h : Orderly pipeline state) (hstep : pipeline.step state .send = some next) :
    Orderly pipeline next := by
  unfold Pipeline.step at hstep
  dsimp only at hstep
  split at hstep
  · rename_i step serverIdx inputs hphase
    obtain ⟨session, hsession, rfl⟩ := Option.map_eq_some_iff.mp hstep
    have hcurrent : state.phase.step? = some step := by rw [hphase]; rfl
    have hlast := h.stepIds_getLast? hcurrent
    have hissued := List.ne_nil_of_length_pos (h.stepIds_pos hcurrent)
    refine { h with current := ?_, streams := ?_ }
    · intro other hother
      apply h.current
      rw [hphase]
      exact hother
    · have hkept := h.streams
      rw [hphase] at hkept
      apply (Function.forall_update_iff _ (fun id stream => Kept pipeline state.stepIds
        (.awaiting step serverIdx) id stream)).mpr
      constructor
      · have hstream := hkept session.sessionId
        constructor
        · intro request hrequest
          simp only [List.append_assoc, List.mem_append, List.mem_singleton] at hrequest
          obtain hrequest | rfl | hrequest := hrequest
          · exact hstream.known request (by simp [hrequest])
          · exact ⟨step.stepId, List.mem_of_getLast? hlast, rfl⟩
          · exact hstream.known request (by simp [hrequest])
        · intro hdone
          cases hstream.closing hdone
        · exact hstream.ending
        · intro other otherSession hother hid
          obtain rfl := index_unique pipeline hother hsession hid
          have haligned := hstream.aligned other otherSession hother hid
          simp only [ClientPhase.reads, ClientPhase.sends, Nat.lt_irrefl, if_false] at haligned
          simp only [ClientPhase.reads, ClientPhase.sends, Nat.lt_irrefl, if_false, Nat.le_refl,
            if_true]
          exact haligned.send hlast hissued
      · intro sessionId hne
        have hstream := hkept sessionId
        refine { hstream with closing := ?_, aligned := ?_ }
        · intro hdone
          cases hstream.closing hdone
        · intro other otherSession hother hid
          have hindex : other ≠ serverIdx := by
            rintro rfl
            rw [hother] at hsession
            cases hsession
            exact hne hid.symm
          have hsends : (other ≤ serverIdx) = (other < serverIdx) := by
            apply propext
            omega
          have haligned := hstream.aligned other otherSession hother hid
          simpa only [ClientPhase.reads, ClientPhase.sends, hsends] using haligned
  · cases hstep

theorem receive (h : Orderly pipeline state) (hstep : pipeline.step state .receive = some next) :
    Orderly pipeline next := by
  unfold Pipeline.step at hstep
  dsimp only at hstep
  split at hstep
  · rename_i step serverIdx hphase
    obtain ⟨session, hsession, hstep⟩ := Option.bind_eq_some_iff.mp hstep
    split at hstep
    · cases hstep
    · rename_i response rest hresponses
      cases hstep
      have hcurrent : state.phase.step? = some step := by rw [hphase]; rfl
      have hissued := h.stepIds_pos hcurrent
      refine { h with current := ?_, streams := ?_ }
      · intro other hother
        apply h.current
        rw [hphase]
        dsimp only at hother
        split at hother
        · exact hother
        · cases hother
      · have hkept := h.streams
        rw [hphase] at hkept
        set phase : ClientPhase StepId Token :=
          if serverIdx + 1 < pipeline.chain.length then
            .sending step (serverIdx + 1) (pipeline.deserialize response)
          else .idle with hphaseNext
        have hreads : ∀ other < pipeline.chain.length, phase.reads state.stepIds.length other =
            if other ≤ serverIdx then state.stepIds.length else state.stepIds.length - 1 := by
          intro other hother
          rw [hphaseNext]
          split
          · simp only [ClientPhase.reads, Nat.lt_succ_iff]
          · rw [if_pos (by omega)]
            rfl
        have hsends : ∀ other < pipeline.chain.length, phase.sends state.stepIds.length other =
            if other ≤ serverIdx then state.stepIds.length else state.stepIds.length - 1 := by
          intro other hother
          rw [hphaseNext]
          split
          · simp only [ClientPhase.sends, Nat.lt_succ_iff]
          · rw [if_pos (by omega)]
            rfl
        apply (Function.forall_update_iff _ (fun id stream => Kept pipeline state.stepIds
          phase id stream)).mpr
        constructor
        · have hstream := hkept session.sessionId
          refine { hstream with closing := ?_, aligned := ?_ }
          · intro hdone
            cases hstream.closing hdone
          · intro other otherSession hother hid
            obtain rfl := index_unique pipeline hother hsession hid
            have haligned := hstream.aligned other otherSession hother hid
            simp only [ClientPhase.reads, ClientPhase.sends, Nat.lt_irrefl, if_false, Nat.le_refl,
              if_true] at haligned
            have hreceived := haligned.receive hresponses
            rw [Nat.sub_add_cancel hissued] at hreceived
            have hbound := (List.getElem?_eq_some_iff.mp hother).1
            rw [hreads other hbound, hsends other hbound, if_pos (Nat.le_refl _)]
            exact hreceived
        · intro sessionId hne
          have hstream := hkept sessionId
          refine { hstream with closing := ?_, aligned := ?_ }
          · intro hdone
            cases hstream.closing hdone
          · intro other otherSession hother hid
            have hindex : other ≠ serverIdx := by
              rintro rfl
              rw [hother] at hsession
              cases hsession
              exact hne hid.symm
            have hbefore : (other < serverIdx) = (other ≤ serverIdx) := by
              apply propext
              omega
            have hbound := (List.getElem?_eq_some_iff.mp hother).1
            have haligned := hstream.aligned other otherSession hother hid
            rw [hreads other hbound, hsends other hbound]
            simpa only [ClientPhase.reads, ClientPhase.sends, hbefore] using haligned
  · cases hstep

theorem close (h : Orderly pipeline state) (hstep : pipeline.step state .close = some next) :
    Orderly pipeline next := by
  unfold Pipeline.step at hstep
  dsimp only at hstep
  split at hstep
  · rename_i hphase
    cases hstep
    refine { h with current := ?_, streams := ?_ }
    · intro other hother
      cases hother
    · intro sessionId
      have hstream := h.streams sessionId
      rw [hphase] at hstream
      refine { hstream with closing := ?_, ending := ?_, aligned := ?_ }
      · exact fun _ => rfl
      · intro hended
        cases hstream.closing (hstream.ending hended)
      · intro serverIdx session hsession hid
        exact (hstream.aligned serverIdx session hsession hid).close _
  · cases hstep

/-- Every step of the client, of a server or of the network keeps the sessions in order. -/
theorem step (h : Orderly pipeline state) {event : PipelineEvent SessionId StepId Token}
    (hstep : pipeline.step state event = some next) : Orderly pipeline next := by
  cases event with
  | beginStep step => exact h.beginStep hstep
  | send => exact h.send hstep
  | receive => exact h.receive hstep
  | close => exact h.close hstep
  | takeRequest sessionId =>
      obtain ⟨result, htake, rfl⟩ := Option.map_eq_some_iff.mp hstep
      exact h.turned ((h.streams sessionId).takeRequest htake)
  | takePush sessionId =>
      obtain ⟨result, htake, rfl⟩ := Option.map_eq_some_iff.mp hstep
      exact h.turned ((h.streams sessionId).takePush htake)
  | arrive index =>
      obtain ⟨push, hpush, rfl⟩ := Option.map_eq_some_iff.mp hstep
      have hknown := h.flying push (List.mem_of_getElem? hpush)
      refine { h with flying := ?_, streams := ?_ }
      · intro other hother
        exact h.flying other (List.mem_of_mem_eraseIdx hother)
      · apply (Function.forall_update_iff _ (fun id stream =>
          Kept pipeline state.stepIds state.phase id stream)).mpr
        exact ⟨(h.streams push.1.sessionId).rpcPush hknown, fun other _ => h.streams other⟩
  | drop index =>
      obtain ⟨push, -, rfl⟩ := Option.map_eq_some_iff.mp hstep
      refine { h with flying := ?_ }
      intro other hother
      exact h.flying other (List.mem_of_mem_eraseIdx hother)

omit [DecidableEq SessionId] [DecidableEq StepId] in
theorem start (pipeline : Pipeline PeerID SessionId StepId Token Wire) : Orderly pipeline {} := by
  constructor
  · exact List.nodup_nil
  · intro step hstep
    cases hstep
  · exact fun _ hmem => absurd hmem List.not_mem_nil
  · intro sessionId
    constructor
    · exact fun _ hmem => absurd hmem List.not_mem_nil
    · intro hdone
      cases hdone
    · intro hended
      cases hended
    · intro serverIdx session hsession hid
      constructor
      · rfl
      · rfl
      · exact Nat.zero_le _
      · rfl
      · rfl
      · exact fun _ hmem => absurd hmem List.not_mem_nil
      · exact fun _ hmem => absurd hmem List.not_mem_nil
      · exact List.Perm.refl _
      · exact fun _ hmem => absurd hmem List.not_mem_nil

theorem run {final : PipelineState PeerID SessionId StepId Token Wire}
    {events : List (PipelineEvent SessionId StepId Token)}
    (hrun : LeadsTo pipeline.step {} events final) : Orderly pipeline final :=
  hrun.invariant (fun _ _ _ h hstep => h.step hstep) (start pipeline)

omit [DecidableEq SessionId] [DecidableEq StepId] in
theorem awaited (h : Orderly pipeline state) {step : ClientStep StepId Token} {serverIdx : Nat}
    {session : NextServer PeerID SessionId} (hphase : state.phase = .awaiting step serverIdx)
    (hsession : pipeline.chain[serverIdx]? = some session) :
    state.stepIds[(state.streams session.sessionId).read.length]? = some step.stepId := by
  have haligned := (h.streams session.sessionId).aligned serverIdx session hsession rfl
  have hcurrent : state.phase.step? = some step := by rw [hphase]; rfl
  have hlast := h.stepIds_getLast? hcurrent
  rw [haligned.readCount, hphase, ClientPhase.reads, if_neg (Nat.lt_irrefl _),
    ← List.getLast?_eq_getElem?]
  exact hlast

omit [DecidableEq SessionId] [DecidableEq StepId] in
theorem awaited_waits (h : Orderly pipeline state) {step : ClientStep StepId Token}
    {serverIdx : Nat} {session : NextServer PeerID SessionId}
    (hphase : state.phase = .awaiting step serverIdx)
    (hsession : pipeline.chain[serverIdx]? = some session)
    (hresponses : (state.streams session.sessionId).responses = []) :
    (state.streams session.sessionId).requests ≠ [] ∧
      (state.streams session.sessionId).ended = false := by
  have hkept := h.streams session.sessionId
  have haligned := hkept.aligned serverIdx session hsession rfl
  constructor
  · have hcount : (state.streams session.sessionId).yielded.length =
        (state.streams session.sessionId).read.length := by
      have hanswered := congrArg List.length haligned.answered
      rw [hresponses, List.append_nil, answers_length] at hanswered
      exact hanswered.symm
    obtain ⟨hbound, hawaited⟩ := List.getElem?_eq_some_iff.mp (h.awaited hphase hsession)
    have hsent : step.stepId ∈ state.stepIds.take (state.phase.sends state.stepIds.length
        serverIdx) := by
      rw [hphase, ClientPhase.sends, if_pos (Nat.le_refl _), List.take_length, ← hawaited]
      exact List.getElem_mem hbound
    obtain hdone | ⟨request, hrequest, -⟩ := haligned.reaches step.stepId hsent
    · obtain ⟨index, hindex, heq⟩ := List.mem_take_iff_getElem.mp hdone
      have hsame := (List.Nodup.getElem_inj_iff h.unique).mp (heq.trans hawaited.symm)
      omega
    · exact List.ne_nil_of_mem hrequest
  · apply Bool.eq_false_iff.mpr
    intro hended
    have hclosed := hkept.closing (hkept.ending hended)
    rw [hphase] at hclosed
    cases hclosed

/-- The server answers the step that the client waits for, once it has read the client's
requests. -/
theorem awaited_answered (h : Orderly pipeline state) {step : ClientStep StepId Token}
    {serverIdx : Nat} {session : NextServer PeerID SessionId}
    (hphase : state.phase = .awaiting step serverIdx)
    (hsession : pipeline.chain[serverIdx]? = some session) :
    ∃ count after, LeadsTo pipeline.step state
        (List.replicate count (.takeRequest session.sessionId)) after ∧
      after.phase = state.phase ∧ (after.streams session.sessionId).responses ≠ [] := by
  induction hrequests : (state.streams session.sessionId).requests generalizing state with
  | nil =>
      refine ⟨0, state, leadsTo_nil.mpr rfl, rfl, fun hresponses => ?_⟩
      exact (h.awaited_waits hphase hsession hresponses).1 hrequests
  | cons request rest ih =>
      by_cases hresponses : (state.streams session.sessionId).responses = []
      · obtain ⟨-, hopen⟩ := h.awaited_waits hphase hsession hresponses
        let opening := (state.streams session.sessionId).opening.getD request.tensors
        let popped : InferenceStream PeerID SessionId StepId Token Wire :=
          { state.streams session.sessionId with requests := rest, opening := some opening }
        let turned := popped.turn (pipeline.serve session.sessionId) opening request
        have hstep : pipeline.step state (.takeRequest session.sessionId) =
            some (Pipeline.turned state session.sessionId turned) := by
          unfold Pipeline.step
          dsimp only
          rw [InferenceStream.takeRequest_cons _ hopen hrequests]
          rfl
        have hrest : ((Pipeline.turned state session.sessionId turned).streams
            session.sessionId).requests = rest := by
          change (Function.update state.streams session.sessionId turned.1
            session.sessionId).requests = rest
          rw [Function.update_self]
          exact (InferenceStream.turn_frame _ popped opening request).1
        obtain ⟨count, after, hleads, hsame, hanswered⟩ := ih (h.step hstep) hphase hrest
        refine ⟨count + 1, after, ?_, hsame, hanswered⟩
        exact leadsTo_cons.mpr ⟨_, hstep, hleads⟩
      · exact ⟨0, state, leadsTo_nil.mpr rfl, rfl, hresponses⟩

end Orderly

/-- What a server has done with the steps, of which the client has read some of the responses. -/
structure ExactlyOnce (serve : List (RequestTensors Token Wire) → Wire) (ids : List StepId)
    (stream : InferenceStream PeerID SessionId StepId Token Wire) : Prop where
  inOrder : ∃ count, stream.read.length ≤ count ∧ count ≤ ids.length ∧
    stream.yielded.map (fun request => request.metadata.stepId) = (ids.take count).map some
  repeated : ∀ request ∈ stream.discarded,
    ∃ other ∈ stream.yielded, other.metadata.stepId = request.metadata.stepId
  conserved : (stream.sent ++ stream.queued).Perm
    (stream.yielded ++ stream.discarded ++ (stream.requests ++ stream.sessionQueue))
  answered : stream.read ++ stream.responses = answers serve stream.yielded

theorem Aligned.exactlyOnce {serve : List (RequestTensors Token Wire) → Wire} {ids : List StepId}
    {reads sends : Nat} {stream : InferenceStream PeerID SessionId StepId Token Wire}
    (h : Aligned serve ids reads sends [] stream) : ExactlyOnce serve ids stream where
  inOrder := ⟨stream.yielded.length, h.readCount ▸ h.reads_le, h.yielded_le, h.yieldedIds⟩
  repeated := h.repeated
  conserved := h.conserved
  answered := h.answered

/-- Over any run, every server yields each step once and in the order of issue, discards nothing
but further copies and loses nothing. The responses come in the same order, and the one that the
client waits for is that of the current step. -/
theorem steps_exactlyOnce [DecidableEq SessionId] [DecidableEq StepId]
    {pipeline : Pipeline PeerID SessionId StepId Token Wire}
    {final : PipelineState PeerID SessionId StepId Token Wire}
    {events : List (PipelineEvent SessionId StepId Token)}
    (hrun : LeadsTo pipeline.step {} events final) :
    final.stepIds.Nodup ∧ ∀ serverIdx session, pipeline.chain[serverIdx]? = some session →
      ExactlyOnce (pipeline.serve session.sessionId) final.stepIds
        (final.streams session.sessionId) ∧
      (final.phase = .idle ∨ final.phase = .closed →
        (final.streams session.sessionId).read.length = final.stepIds.length) ∧
      ∀ step, final.phase = .awaiting step serverIdx →
        final.stepIds[(final.streams session.sessionId).read.length]? = some step.stepId ∧
        ∃ count after, LeadsTo pipeline.step final
            (List.replicate count (.takeRequest session.sessionId)) after ∧
          after.phase = final.phase ∧ (after.streams session.sessionId).responses ≠ [] := by
  have horderly := Orderly.run hrun
  refine ⟨horderly.unique, fun serverIdx session hsession => ?_⟩
  have haligned := (horderly.streams session.sessionId).aligned serverIdx session hsession rfl
  refine ⟨haligned.exactlyOnce, ?_, ?_⟩
  · rw [haligned.readCount]
    rintro (hphase | hphase)
    · rw [hphase]
      rfl
    · rw [hphase]
      rfl
  · intro step hphase
    exact ⟨horderly.awaited hphase hsession, horderly.awaited_answered hphase hsession⟩

def twoServers : Pipeline Unit Nat Nat Nat (List Nat) where
  chain := [⟨(), 1, 0, 1⟩, ⟨(), 2, 1, 2⟩]
  uniqueSessionIds := by decide
  serialize inputs := inputs
  deserialize wire := wire
  compute _ requests := (requests.getLast?.map InferenceTensors.hiddenStates).getD []
  useServerToServer := true

/-- Two steps; the second server takes the second one from the first server. -/
def pushFirst : List (PipelineEvent Nat Nat Nat) :=
  [.beginStep ⟨10, [5, 6], [], []⟩, .send, .takeRequest 1, .receive, .send, .takeRequest 2,
    .receive, .beginStep ⟨11, [7], [], []⟩, .send, .takeRequest 1, .arrive 0, .takePush 2,
    .receive, .send, .takeRequest 2]

def afterEvents (events : List (PipelineEvent Nat Nat Nat)) :
    PipelineState Unit Nat Nat Nat (List Nat) :=
  (events.foldlM twoServers.step {}).getD {}

theorem leadsTo_afterEvents {events : List (PipelineEvent Nat Nat Nat)}
    (h : (events.foldlM twoServers.step {}).isSome = true) :
    LeadsTo twoServers.step {} events (afterEvents events) := by
  obtain ⟨final, hfinal⟩ := Option.isSome_iff_exists.mp h
  rw [afterEvents, hfinal]
  exact hfinal

theorem steps_exactlyOnce_pushFirst :
    (afterEvents pushFirst).stepIds = [10, 11] ∧
    ((afterEvents pushFirst).streams 2).yielded.map (fun request => request.metadata.pushed) =
      [false, true] ∧
    ((afterEvents pushFirst).streams 2).discarded.length = 1 ∧
    ExactlyOnce (twoServers.serve 2) (afterEvents pushFirst).stepIds
      ((afterEvents pushFirst).streams 2) := by
  have hrun := @leadsTo_afterEvents pushFirst (by decide +kernel)
  refine ⟨by decide +kernel, by decide +kernel, by decide +kernel, ?_⟩
  exact ((steps_exactlyOnce hrun).2 1 ⟨(), 2, 1, 2⟩ rfl).1

end Peerz.Client
