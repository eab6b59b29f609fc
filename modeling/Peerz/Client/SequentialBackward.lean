import Peerz.Client.SequentialForward

/-! The backward pass with retries: however often it splits a span again, the gradients are those
of one server that holds all the blocks. -/
namespace Peerz.Client
open Library Server

variable {PeerID Token : Type} [Add Token]

/-- What a server answers in place of gradients of prompts that are all empty. -/
def promptGradients (gradPrompts : List (List Token)) : List (List Token) :=
  if gradPrompts.all List.isEmpty then [] else gradPrompts

def GradientsAt (model : RemoteModel Token) (prompts : List (List Token)) (start stop : Nat)
    (inputs gradOutputs : List Token) (block : Nat) (state : BackwardState PeerID Token) : Prop :=
  ∃ middle later, chainForward model prompts start (block - start) inputs = some middle ∧
    chainBackward model prompts block (stop - block) middle gradOutputs =
      some (state.gradOutputs, later) ∧
    state.gradPromptsReversed.reverse.flatten = promptGradients later

/-- The spans that are left tile the way up to the given block, with their inputs. -/
structure Unfinished (model : RemoteModel Token) (prompts : List (List Token)) (start : Nat)
    (inputs : List Token) (block : Int) (state : BackwardState PeerID Token) : Prop where
  tiles : Tiles RemoteSpanInfo.start RemoteSpanInfo.stop start state.forwardSequences block
  aligned : List.Forall₂ (IsInputOf model prompts start inputs) state.intermediateInputs
    state.forwardSequences

structure BackwardInv (model : RemoteModel Token) (prompts : List (List Token)) (start stop : Nat)
    (inputs gradOutputs : List Token) (loop : BackwardLoop PeerID Token) : Prop where
  unfinished : Unfinished model prompts start inputs loop.span.start loop.state
  nonempty : loop.span.start < loop.span.stop
  bounded : loop.span.stop ≤ stop
  input : IsInputOf model prompts start inputs loop.inputs loop.span
  gradients : GradientsAt model prompts start stop inputs gradOutputs loop.span.stop.toNat loop.state

variable {config : ClientConfig} {model : RemoteModel Token} {prompts : List (List Token)}

theorem addPrompt?_length {prompt inputs prompted : List Token}
    (h : addPrompt? prompt inputs = some prompted) : prompted.length = inputs.length := by
  unfold addPrompt? at h
  split at h
  · cases h
    exact addPrompt_length prompt inputs
  · cases h

theorem chainForward_length {start length : Nat} {inputs outputs : List Token}
    (h : chainForward model prompts start length inputs = some outputs) :
    outputs.length = inputs.length := by
  induction length generalizing start inputs with
  | zero =>
      cases h
      rfl
  | succ length ih =>
      obtain ⟨prompted, hprompted, hrest⟩ := chainForward_succ.mp h
      rw [ih hrest, (model.backend start).length_forward, addPrompt?_length hprompted]

/-- Either none of the gradients of the prompts is empty or there are no inputs at all. -/
theorem chainBackward_gradPrompts {start length : Nat} {inputs gradOutputs gradInputs : List Token}
    {gradPrompts : List (List Token)}
    (h : chainBackward model prompts start length inputs gradOutputs =
      some (gradInputs, gradPrompts)) :
    ∀ gradPrompt ∈ gradPrompts, gradPrompt = [] ↔ inputs = [] := by
  induction length generalizing start inputs gradInputs gradPrompts with
  | zero =>
      cases h
      exact fun _ hmem => absurd hmem List.not_mem_nil
  | succ length ih =>
      obtain ⟨prompted, gradMiddle, later, hprompted, hlater, rfl, rfl⟩ := chainBackward_succ.mp h
      have hlength := addPrompt?_length hprompted
      have hrest : ∀ gradPrompt ∈ later, gradPrompt = [] ↔ inputs = [] := by
        intro gradPrompt hmem
        rw [ih hlater gradPrompt hmem, ← List.length_eq_zero_iff, ← List.length_eq_zero_iff,
          (model.backend start).length_forward, hlength]
      split
      · exact hrest
      · rename_i hprompt
        refine List.forall_mem_cons.mpr ⟨?_, hrest⟩
        rw [List.take_eq_nil_iff, or_iff_right (by simpa using hprompt), ← List.length_eq_zero_iff,
          (model.backend start).length_backward, hlength, List.length_eq_zero_iff]

omit [Add Token] in
theorem promptGradients_append {earlier later : List (List Token)} {empty : Prop}
    (hearlier : ∀ gradPrompt ∈ earlier, gradPrompt = [] ↔ empty)
    (hlater : ∀ gradPrompt ∈ later, gradPrompt = [] ↔ empty) :
    promptGradients (earlier ++ later) = promptGradients earlier ++ promptGradients later := by
  unfold promptGradients
  rw [List.all_append]
  by_cases hempty : empty
  · have hall : ∀ grads : List (List Token), (∀ gradPrompt ∈ grads, gradPrompt = [] ↔ empty) →
        grads.all List.isEmpty = true := by
      intro grads hgrads
      rw [List.all_eq_true]
      intro gradPrompt hmem
      rw [List.isEmpty_iff, hgrads gradPrompt hmem]
      exact hempty
    rw [hall earlier hearlier, hall later hlater]
    rfl
  · have hnone : ∀ grads : List (List Token), (∀ gradPrompt ∈ grads, gradPrompt = [] ↔ empty) →
        (if grads.all List.isEmpty then [] else grads) = grads := by
      intro grads hgrads
      cases grads with
      | nil => rfl
      | cons gradPrompt grads =>
          have hhead : gradPrompt ≠ [] := by
            rw [Ne, hgrads gradPrompt List.mem_cons_self]
            exact hempty
          rw [List.all_cons, if_neg]
          simp [hhead]
    have happend := hnone (earlier ++ later) fun gradPrompt hmem =>
      (List.mem_append.mp hmem).elim (hearlier gradPrompt) (hlater gradPrompt)
    rw [List.all_append] at happend
    rw [hnone earlier hearlier, hnone later hlater, happend]

omit [Add Token] in
theorem flatten_collected (gradPrompts : List (List Token))
    (collected : List (List (List Token))) :
    (collected ++ if gradPrompts = [] then [] else [gradPrompts]).reverse.flatten =
      gradPrompts ++ collected.reverse.flatten := by
  rw [List.reverse_append, List.flatten_append]
  congr 1
  split
  · rename_i hnil
    rw [hnil]
    rfl
  · exact List.append_nil gradPrompts

section passing
variable {start stop : Nat} {inputs gradOutputs : List Token} {block : Int}
  {state : BackwardState PeerID Token} {loop : BackwardLoop PeerID Token}

theorem IsInputOf.trans {span inner : RemoteSpanInfo PeerID} {intermediate recovered : List Token}
    (h : IsInputOf model prompts start inputs intermediate span)
    (hinner : IsInputOf model prompts span.start.toNat intermediate recovered inner)
    (hstart : start ≤ span.start) (hle : span.start ≤ inner.start) :
    IsInputOf model prompts start inputs recovered inner := by
  have hsplit : inner.start.toNat - start =
      (span.start.toNat - start) + (inner.start.toNat - span.start.toNat) := by omega
  unfold IsInputOf at h hinner ⊢
  rw [hsplit, chainForward_add, h, Option.bind_some,
    show start + (span.start.toNat - start) = span.start.toNat by omega]
  exact hinner

theorem Unfinished.of_pop_eq_none (h : Unfinished model prompts start inputs block state)
    (hpop : state.pop = none) : block = start := by
  rcases List.eq_nil_or_concat' state.forwardSequences with hnil | ⟨front, span, hconcat⟩
  · exact (h.tiles.eq_nil_iff.mp hnil).symm
  · have hlength := h.aligned.length_eq
    rcases List.eq_nil_or_concat' state.intermediateInputs with hnil | ⟨earlier, last, hlast⟩
    · rw [hnil, hconcat, List.length_append] at hlength
      cases hlength
    · unfold BackwardState.pop at hpop
      rw [hconcat, hlast, List.getLast?_concat, List.getLast?_concat] at hpop
      cases hpop

theorem Unfinished.pop (h : Unfinished model prompts start inputs block state)
    (hbounded : block ≤ stop)
    (hgradients : GradientsAt model prompts start stop inputs gradOutputs block.toNat state)
    (hpop : state.pop = some loop) :
    BackwardInv model prompts start stop inputs gradOutputs loop := by
  have htiles := h.tiles
  have haligned := h.aligned
  unfold BackwardState.pop at hpop
  split at hpop
  · rename_i last span hlast hspan
    cases hpop
    obtain ⟨earlier, hearlier⟩ := List.getLast?_eq_some_iff.mp hlast
    obtain ⟨front, hfront⟩ := List.getLast?_eq_some_iff.mp hspan
    rw [hfront] at htiles haligned
    rw [hearlier, ← List.forall₂_reverse_iff] at haligned
    simp only [List.reverse_append, List.reverse_cons, List.reverse_nil, List.nil_append,
      List.cons_append, List.forall₂_cons, List.forall₂_reverse_iff] at haligned
    obtain ⟨hinput, hrest⟩ := haligned
    obtain ⟨hfronttiles, hlt, rfl⟩ := tiles_concat.mp htiles
    refine ⟨⟨?_, ?_⟩, hlt, hbounded, hinput, hgradients⟩
    · simpa only [hfront, List.dropLast_concat] using hfronttiles
    · simpa only [hfront, hearlier, List.dropLast_concat] using hrest
  · cases hpop

theorem IsInputOf.forall₂ {span : RemoteSpanInfo PeerID} {intermediate : List Token}
    {inner : List (RemoteSpanInfo PeerID)} {recovered : List (List Token)} {last : Int}
    (h : IsInputOf model prompts start inputs intermediate span) (hstart : start ≤ span.start)
    (htiles : Tiles RemoteSpanInfo.start RemoteSpanInfo.stop span.start inner last)
    (haligned : List.Forall₂ (IsInputOf model prompts span.start.toNat intermediate) recovered inner) :
    List.Forall₂ (IsInputOf model prompts start inputs) recovered inner := by
  apply List.Forall₂.flip
  have hinside : ∀ span' ∈ inner, span.start ≤ span'.start :=
    fun _ hmem => (htiles.mem_bounds hmem).1
  have hflipped : List.Forall₂ (flip (IsInputOf model prompts span.start.toNat intermediate))
      inner recovered := haligned.flip
  apply List.Forall₂.imp _ ((List.forall₂_and_left _ _).mpr ⟨hinside, hflipped⟩)
  rintro span' recovered ⟨hle, hinput⟩
  exact h.trans hinput hstart hle

theorem BackwardInv.withAttempt (h : BackwardInv model prompts start stop inputs gradOutputs loop)
    (attemptNo : Nat) :
    BackwardInv model prompts start stop inputs gradOutputs { loop with attemptNo := attemptNo } :=
  ⟨h.unfinished, h.nonempty, h.bounded, h.input, h.gradients⟩

section stepping
variable (h : BackwardInv model prompts start stop inputs gradOutputs loop)
  (hstop : stop ≤ model.numBlocks)
include h

theorem BackwardInv.recover {attempts : List (ForwardAttempt PeerID)}
    {next : BackwardLoop PeerID Token}
    (hcontiguous : ∀ attempt ∈ attempts, attempt.Contiguous model)
    (hnext : loop.recover config model prompts attempts = .returned next) :
    BackwardInv model prompts start stop inputs gradOutputs next := by
  have hstart := h.unfinished.tiles.le
  have hlt := h.nonempty
  unfold BackwardLoop.recover at hnext
  split at hnext
  · cases hnext
  · cases hnext
  · rename_i outputs backupInputs backupSequences hforward
    split at hnext
    · dsimp only at hnext
      split at hnext
      · cases hnext
      · rename_i popped hpop
        cases hnext
        obtain ⟨-, htiles, haligned⟩ := sequentialForward_returned hcontiguous hforward
        rw [Option.getD_some, max_eq_right hlt.le] at htiles
        have hextended : Unfinished model prompts start inputs loop.span.stop
            { loop.state with
              intermediateInputs := loop.state.intermediateInputs ++ backupInputs
              forwardSequences := loop.state.forwardSequences ++ backupSequences } :=
          ⟨tiles_append.mpr ⟨_, h.unfinished.tiles, htiles⟩,
            List.rel_append h.unfinished.aligned (h.input.forall₂ hstart htiles haligned)⟩
        exact (hextended.pop h.bounded h.gradients hpop).withAttempt _
    · cases hnext

theorem BackwardInv.request {answered : Bool} {state : BackwardState PeerID Token}
    (hprompts : prompts.all List.isEmpty = true ∨ prompts.length = model.numBlocks)
    (hstop : stop ≤ model.numBlocks)
    (hrequest : loop.request model prompts answered = some state) :
    Unfinished model prompts start inputs loop.span.start state ∧
      GradientsAt model prompts start stop inputs gradOutputs loop.span.start.toNat state := by
  have hstart := h.unfinished.tiles.le
  have hlt := h.nonempty
  have hbounded := h.bounded
  have hinput := h.input
  obtain ⟨middle, later, hforward, hlater, hcollected⟩ := h.gradients
  obtain ⟨first, hfirst⟩ := Int.eq_ofNat_of_zero_le (show 0 ≤ loop.span.start by omega)
  obtain ⟨last, hlast⟩ := Int.eq_ofNat_of_zero_le (show 0 ≤ loop.span.stop by omega)
  unfold IsInputOf at hinput
  rw [hfirst, Int.toNat_natCast] at hinput
  rw [hlast, Int.toNat_natCast] at hforward hlater
  -- the stretch from the span on is the span and what comes after it
  have hspan : chainForward model prompts first (last - first) loop.inputs = some middle := by
    rw [show last - start = (first - start) + (last - first) by omega, chainForward_add, hinput,
      Option.bind_some, show start + (first - start) = first by omega] at hforward
    exact hforward
  unfold BackwardLoop.request at hrequest
  split at hrequest
  · rw [backends_eq (by omega) (by omega) loop.span hfirst hlast, hfirst, hlast,
      runRpcBackward_eq hprompts (by omega) (by omega), Option.map_map,
      Option.map_eq_some_iff] at hrequest
    obtain ⟨⟨gradInputs, earlier⟩, hearlier, rfl⟩ := hrequest
    refine ⟨⟨h.unfinished.tiles, h.unfinished.aligned⟩, loop.inputs, earlier ++ later, h.input,
      ?_, ?_⟩
    · rw [hfirst, Int.toNat_natCast, show stop - first = (last - first) + (stop - last) by omega]
      apply chainBackward_append hspan _ hearlier
      rw [show first + (last - first) = last by omega]
      exact hlater
    · have hlength := chainForward_length hspan
      have hempty : ∀ gradPrompt ∈ later, gradPrompt = [] ↔ loop.inputs = [] := by
        intro gradPrompt hmem
        rw [chainBackward_gradPrompts hlater gradPrompt hmem, ← List.length_eq_zero_iff, hlength,
          List.length_eq_zero_iff]
      rw [promptGradients_append (chainBackward_gradPrompts hearlier) hempty, ← hcollected]
      exact flatten_collected (promptGradients earlier) loop.state.gradPromptsReversed
  · cases hrequest

end stepping

theorem BackwardInv.run_returned {attempts : List (BackwardAttempt PeerID)}
    {gradInputs : List Token} {gradPrompts : List (List Token)}
    (h : BackwardInv model prompts start stop inputs gradOutputs loop)
    (hprompts : prompts.all List.isEmpty = true ∨ prompts.length = model.numBlocks)
    (hstop : stop ≤ model.numBlocks)
    (hcontiguous : ∀ attempt ∈ attempts, ∀ recovery ∈ attempt.recovery, recovery.Contiguous model)
    (hrun : BackwardLoop.run config model prompts attempts loop =
      .returned (gradInputs, gradPrompts)) :
    ∃ later, chainBackward model prompts start (stop - start) inputs gradOutputs =
      some (gradInputs, later) ∧ gradPrompts = promptGradients later := by
  induction attempts generalizing loop with
  | nil =>
      unfold BackwardLoop.run at hrun
      cases hrun
  | cons attempt attempts ih =>
      obtain ⟨hfirst, hrest⟩ := List.forall_mem_cons.mp hcontiguous
      have hfail : ∀ failed : BackwardLoop PeerID Token,
          BackwardInv model prompts start stop inputs gradOutputs failed →
          (if config.maxRetries = some (failed.attemptNo + 1) then .raised
            else BackwardLoop.run config model prompts attempts
              { failed with attemptNo := failed.attemptNo + 1 }) =
            .returned (gradInputs, gradPrompts) →
          ∃ later, chainBackward model prompts start (stop - start) inputs gradOutputs =
            some (gradInputs, later) ∧ gradPrompts = promptGradients later := by
        intro failed hfailed hagain
        split at hagain
        · cases hagain
        · exact ih (hfailed.withAttempt _) hrest hagain
      unfold BackwardLoop.run at hrun
      dsimp only at hrun
      split at hrun
      · cases hrun
      · exact hfail loop h hrun
      · rename_i current hrecovered
        have hcurrent : BackwardInv model prompts start stop inputs gradOutputs current := by
          split at hrecovered
          · exact h.recover hfirst hrecovered
          · cases hrecovered
            exact h
        split at hrun
        · exact hfail current hcurrent hrun
        · rename_i state hrequest
          obtain ⟨hleft, hgradients⟩ := hcurrent.request hprompts hstop hrequest
          split at hrun
          · rename_i hpop
            cases hrun
            obtain ⟨middle, later, hforward, hlater, hcollected⟩ := hgradients
            have hstart := hleft.of_pop_eq_none hpop
            rw [hstart, Int.toNat_natCast] at hforward hlater
            rw [Nat.sub_self] at hforward
            cases hforward
            exact ⟨later, hlater, hcollected⟩
          · rename_i next hpop
            have hbounded := hcurrent.bounded
            have hlt := hcurrent.nonempty
            exact ih (hleft.pop (by omega) hgradients hpop) hrest hrun

end passing

/-- Whatever fails on the way, the gradients are those of one server over all the blocks. Over
no blocks at all, the gradient of the outputs comes back as it is. -/
theorem sequentialBackward_returned {inputs outputs gradOutputs gradInputs : List Token}
    {startIndex : Int} {endIndex : Option Int} {forwardAttempts : List (ForwardAttempt PeerID)}
    {backwardAttempts : List (BackwardAttempt PeerID)} {intermediate gradPrompts : List (List Token)}
    {done : List (RemoteSpanInfo PeerID)}
    (hforwardRoutes : ∀ attempt ∈ forwardAttempts, attempt.Contiguous model)
    (hbackwardRoutes :
      ∀ attempt ∈ backwardAttempts, ∀ recovery ∈ attempt.recovery, recovery.Contiguous model)
    (hforward : sequentialForward config model inputs prompts startIndex endIndex forwardAttempts =
      .returned (outputs, intermediate, done))
    (hbackward : sequentialBackward config model gradOutputs intermediate prompts done
      backwardAttempts = .returned (gradInputs, gradPrompts)) :
    let last := endIndex.getD model.numBlocks
    (startIndex < last → runRpcBackward
        ((pySlice (List.range model.numBlocks) startIndex last).map model.backend) inputs gradOutputs
        (pySlice prompts startIndex last) = some (gradInputs, gradPrompts)) ∧
      (last ≤ startIndex → gradInputs = gradOutputs ∧ gradPrompts = []) := by
  intro last
  obtain ⟨hchain, htiles, haligned⟩ := sequentialForward_returned hforwardRoutes hforward
  obtain ⟨hstart, hlast, hprompts⟩ : 0 ≤ startIndex ∧ last ≤ model.numBlocks ∧
      (prompts.all List.isEmpty = true ∨ prompts.length = model.numBlocks) := by
    unfold sequentialForward at hforward
    dsimp only at hforward
    split at hforward
    · assumption
    · cases hforward
  unfold sequentialBackward at hbackward
  rw [if_pos haligned.length_eq] at hbackward
  dsimp only at hbackward
  obtain ⟨first, rfl⟩ := Int.eq_ofNat_of_zero_le hstart
  constructor
  · intro hlt
    obtain ⟨stop, hstop⟩ := Int.eq_ofNat_of_zero_le (show 0 ≤ last by omega)
    rw [max_eq_right hlt.le] at htiles
    change Tiles _ _ _ _ last at htiles
    change chainForward _ _ _ (last.toNat - _) _ = _ at hchain
    rw [hstop] at htiles hlt hlast hchain ⊢
    have hleft : Unfinished model prompts first inputs stop ⟨gradOutputs, intermediate, done, []⟩ :=
      ⟨htiles, haligned⟩
    have hgradients : GradientsAt model prompts first stop inputs gradOutputs stop
        (⟨gradOutputs, intermediate, done, []⟩ : BackwardState PeerID Token) := by
      refine ⟨outputs, [], hchain, ?_, rfl⟩
      rw [Nat.sub_self, chainBackward]
    split at hbackward
    · rename_i hpop
      have := hleft.of_pop_eq_none hpop
      omega
    · rename_i loop hpop
      have hinv := hleft.pop le_rfl hgradients hpop
      obtain ⟨later, hlater, rfl⟩ :=
        hinv.run_returned hprompts (by omega) hbackwardRoutes hbackward
      rw [pySlice_range (by omega) (by omega), runRpcBackward_eq hprompts (by omega) (by omega),
        hlater]
      rfl
  · intro hle
    rw [max_eq_left hle] at htiles
    cases htiles.eq_nil_iff.mpr rfl
    split at hbackward
    · cases hbackward
      exact ⟨rfl, rfl⟩
    · rename_i loop hpop
      unfold BackwardState.pop at hpop
      split at hpop
      · rename_i hnone
        cases hnone
      · cases hpop

def oneServer : ForwardAttempt Nat where
  makeSequence := fun first last =>
    some [⟨7, first, last, { state := .online, throughput := 1 }⟩]
  answered := true

theorem oneServer_contiguous : oneServer.Contiguous addingModel := by
  intro first last spans hfirst hlt hlast hspans
  cases hspans
  exact ⟨[], _, rfl, rfl, hlt, le_rfl⟩

/-- The span of a server that fails on the way back is split anew over two others, of which the
last one fails once more. -/
theorem sequentialBackward_returned_resplit :
    ∃ outputs intermediate done,
      sequentialForward ⟨true, none⟩ addingModel [5, 6] [[1], [2], [3]] 0 none [oneServer] =
          .returned (outputs, intermediate, done) ∧
      sequentialBackward ⟨true, none⟩ addingModel [1, 2] intermediate [[1], [2], [3]] done
        [⟨[], false⟩, ⟨[splitAtOne true, splitAtOne true], false⟩, ⟨[splitAtOne true], true⟩,
          ⟨[], true⟩] = .returned ([756, 756], [[756], [126], [14]]) ∧
      runRpcBackward ((pySlice (List.range 3) (0 : Int) 3).map addingModel.backend) [5, 6] [1, 2]
        (pySlice [[1], [2], [3]] (0 : Int) 3) = some ([756, 756], [[756], [126], [14]]) := by
  have hgrads : (match sequentialForward ⟨true, none⟩ addingModel [5, 6] [[1], [2], [3]] 0 none
      [oneServer] with
    | .returned (_, intermediate, done) =>
        match sequentialBackward ⟨true, none⟩ addingModel [1, 2] intermediate [[1], [2], [3]] done
          [⟨[], false⟩, ⟨[splitAtOne true, splitAtOne true], false⟩, ⟨[splitAtOne true], true⟩,
            ⟨[], true⟩] with
        | .returned grads => some grads
        | _ => none
    | _ => none) = some ([756, 756], [[756], [126], [14]]) := by decide +kernel
  split at hgrads
  · rename_i outputs intermediate done hforward
    split at hgrads
    · rename_i grads hbackward
      cases hgrads
      have hroutes := sequentialBackward_returned (by simp [oneServer_contiguous])
        (by simp [splitAtOne_contiguous]) hforward hbackward
      exact ⟨outputs, intermediate, done, hforward, hbackward, hroutes.1 (by decide)⟩
    · cases hgrads
  · cases hgrads

end Peerz.Client
