import Mathlib.Algebra.Order.Ring.Rat
import Mathlib.Data.List.Nodup
import Mathlib.Data.List.Perm.Subperm
import Mathlib.Tactic.Linarith

/-! Directed graphs given by the list of their weighted edges, and searches for a path. -/
namespace Peerz.Library

structure Edge (V : Type*) where
  source : V
  target : V
  cost : ℚ

variable {V : Type*}

/-- `Walk graph first nodes last cost`: from `first`, the edges through `nodes` lead to
`last` and cost `cost` together. -/
def Walk (graph : List (Edge V)) : V → List V → V → ℚ → Prop
  | first, [], last, cost => first = last ∧ cost = 0
  | first, next :: rest, last, cost =>
      ∃ edge ∈ graph, edge.source = first ∧ edge.target = next ∧
        Walk graph next rest last (cost - edge.cost)

/-- What a search reports: all nodes of the path, both ends included, and its cost. -/
structure PathInfo (V : Type*) where
  nodes : List V
  totalCost : ℚ

abbrev PathSearch (V : Type*) := List (Edge V) → V → V → Option (PathInfo V)

def PathSearch.Sound (find : PathSearch V) : Prop :=
  ∀ graph first last path, find graph first last = some path →
    ∃ rest, path.nodes = first :: rest ∧ Walk graph first rest last path.totalCost

def PathSearch.Complete (find : PathSearch V) : Prop :=
  ∀ graph first last rest cost, Walk graph first rest last cost → (find graph first last).isSome

def PathSearch.LeastCost (find : PathSearch V) : Prop :=
  ∀ graph first last, (∀ edge ∈ graph, 0 ≤ edge.cost) →
    ∀ nodes cost, Walk graph first nodes last cost → ∃ path rest, find graph first last = some path ∧
      path.nodes = first :: rest ∧ Walk graph first rest last path.totalCost ∧ path.totalCost ≤ cost

theorem Walk.append {graph : List (Edge V)} {first middle last : V} {left right : List V}
    {costLeft costRight : ℚ} (hl : Walk graph first left middle costLeft)
    (hr : Walk graph middle right last costRight) :
    Walk graph first (left ++ right) last (costLeft + costRight) := by
  induction left generalizing first costLeft with
  | nil =>
      obtain ⟨rfl, rfl⟩ := hl
      simpa using hr
  | cons next rest ih =>
      obtain ⟨edge, hmem, hsource, htarget, hrest⟩ := hl
      refine ⟨edge, hmem, hsource, htarget, ?_⟩
      have := ih hrest
      rwa [sub_add_eq_add_sub] at this

theorem Walk.single {graph : List (Edge V)} {edge : Edge V} (h : edge ∈ graph) :
    Walk graph edge.source [edge.target] edge.target edge.cost :=
  ⟨edge, h, rfl, rfl, rfl, sub_self _⟩

theorem Walk.cost_nonneg {graph : List (Edge V)} (hcost : ∀ edge ∈ graph, 0 ≤ edge.cost)
    {first last : V} {nodes : List V} {cost : ℚ} (h : Walk graph first nodes last cost) :
    0 ≤ cost := by
  induction nodes generalizing first cost with
  | nil => exact h.2.ge
  | cons next rest ih =>
      obtain ⟨edge, hmem, -, -, hrest⟩ := h
      have := ih hrest
      have := hcost edge hmem
      linarith

/-- Where the cost of an edge depends on its ends only, that of a walk depends on its nodes. -/
theorem Walk.cost_unique {graph : List (Edge V)}
    (hunique : ∀ edge ∈ graph, ∀ other ∈ graph, edge.source = other.source →
      edge.target = other.target → edge.cost = other.cost)
    {first last : V} {nodes : List V} {cost other : ℚ} (h : Walk graph first nodes last cost)
    (hother : Walk graph first nodes last other) : cost = other := by
  induction nodes generalizing first cost other with
  | nil => exact h.2.trans hother.2.symm
  | cons next rest ih =>
      obtain ⟨edge, hmem, rfl, rfl, hrest⟩ := h
      obtain ⟨edge', hmem', hsource, htarget, hrest'⟩ := hother
      have hedge := hunique edge hmem edge' hmem' hsource.symm htarget.symm
      have := ih hrest hrest'
      linarith

theorem Walk.suffix {graph : List (Edge V)} {first middle last : V} {left right : List V} {cost : ℚ}
    (h : Walk graph first (left ++ middle :: right) last cost) :
    ∃ rest, Walk graph middle right last rest ∧
      ((∀ edge ∈ graph, 0 ≤ edge.cost) → rest ≤ cost) := by
  induction left generalizing first cost with
  | nil =>
      obtain ⟨edge, hmem, -, -, hrest⟩ := h
      exact ⟨_, hrest, fun hcost => sub_le_self _ (hcost edge hmem)⟩
  | cons next left ih =>
      obtain ⟨edge, hmem, -, -, hrest⟩ := h
      obtain ⟨rest, hsuffix, hle⟩ := ih hrest
      exact ⟨rest, hsuffix, fun hcost => (hle hcost).trans (sub_le_self _ (hcost edge hmem))⟩

theorem Walk.mem_targets {graph : List (Edge V)} {first last : V} {nodes : List V} {cost : ℚ}
    (h : Walk graph first nodes last cost) {node : V} (hnode : node ∈ nodes) :
    node ∈ graph.map Edge.target := by
  induction nodes generalizing first cost with
  | nil => cases hnode
  | cons next rest ih =>
      obtain ⟨edge, hmem, -, rfl, hrest⟩ := h
      rcases List.mem_cons.mp hnode with rfl | hnode
      · exact List.mem_map_of_mem hmem
      · exact ih hrest hnode

/-- Cutting out its loops leaves a walk between the same ends that costs no more. -/
theorem Walk.exists_nodup {graph : List (Edge V)} {first last : V} {nodes : List V} {cost : ℚ}
    (h : Walk graph first nodes last cost) :
    ∃ simple rest, Walk graph first simple last rest ∧ (first :: simple).Nodup ∧
      ((∀ edge ∈ graph, 0 ≤ edge.cost) → rest ≤ cost) := by
  induction nodes generalizing first cost with
  | nil => exact ⟨[], cost, h, List.nodup_singleton _, fun _ => le_rfl⟩
  | cons next nodes ih =>
      obtain ⟨edge, hmem, hsource, htarget, hrest⟩ := h
      obtain ⟨simple, rest, hwalk, hnodup, hle⟩ := ih hrest
      have hstep : Walk graph first (next :: simple) last (rest + edge.cost) :=
        ⟨edge, hmem, hsource, htarget, by rwa [add_sub_cancel_right]⟩
      have hstepLe (hcost : ∀ edge ∈ graph, 0 ≤ edge.cost) : rest + edge.cost ≤ cost :=
        le_sub_iff_add_le.mp (hle hcost)
      by_cases hloop : first ∈ next :: simple
      · obtain ⟨left, right, hsplit⟩ := List.append_of_mem hloop
        obtain ⟨suffixCost, hsuffix, hsuffixLe⟩ := (hsplit ▸ hstep).suffix
        rw [hsplit] at hnodup
        exact ⟨right, suffixCost, hsuffix, hnodup.sublist (List.sublist_append_right _ _),
          fun hcost => (hsuffixLe hcost).trans (hstepLe hcost)⟩
      · exact ⟨next :: simple, _, hstep, List.nodup_cons.mpr ⟨hloop, hnodup⟩, hstepLe⟩

/-! A search by the number of edges left. A walk without loops has no more edges than the
graph, so that number is enough. -/

def cheaper (left right : Option (PathInfo V)) : Option (PathInfo V) :=
  match left, right with
  | none, path | path, none => path
  | some left, some right => if left.totalCost ≤ right.totalCost then some left else some right

theorem cheaper_eq (left right : Option (PathInfo V)) :
    cheaper left right = left ∨ cheaper left right = right := by
  unfold cheaper
  split
  · exact .inr rfl
  · exact .inl rfl
  · split
    · exact .inl rfl
    · exact .inr rfl

theorem cheaper_isSome {left right : Option (PathInfo V)} (h : left.isSome ∨ right.isSome) :
    (cheaper left right).isSome := by
  cases left <;> cases right <;> simp_all [cheaper]
  split <;> rfl

theorem cheaper_le {left right : Option (PathInfo V)} {path : PathInfo V}
    (h : left = some path ∨ right = some path) :
    ∃ best, cheaper left right = some best ∧ best.totalCost ≤ path.totalCost := by
  unfold cheaper
  split
  · exact ⟨path, by simpa using h, le_rfl⟩
  · exact ⟨path, by simpa using h, le_rfl⟩
  · rename_i left right
    split
    · rename_i hle
      refine ⟨left, rfl, ?_⟩
      rcases h with h | h
      · rw [Option.some.inj h]
      · rwa [← Option.some.inj h]
    · rename_i hlt
      refine ⟨right, rfl, ?_⟩
      rcases h with h | h
      · rw [← Option.some.inj h]
        exact (not_le.mp hlt).le
      · rw [Option.some.inj h]

def PathInfo.prepend (edge : Edge V) (path : PathInfo V) : PathInfo V where
  nodes := edge.source :: path.nodes
  totalCost := edge.cost + path.totalCost

private theorem foldr_cheaper_eq_some {α : Type*} {candidates : List α}
    {f : α → Option (PathInfo V)} {path : PathInfo V}
    (h : candidates.foldr (fun candidate best => cheaper (f candidate) best) none = some path) :
    ∃ candidate ∈ candidates, f candidate = some path := by
  induction candidates with
  | nil => cases h
  | cons candidate rest ih =>
      rw [List.foldr_cons] at h
      rcases cheaper_eq (f candidate)
        (rest.foldr (fun candidate best => cheaper (f candidate) best) none) with heq | heq
      · exact ⟨candidate, List.mem_cons_self, heq.symm.trans h⟩
      · obtain ⟨other, hmem, hother⟩ := ih (heq.symm.trans h)
        exact ⟨other, List.mem_cons_of_mem _ hmem, hother⟩

private theorem foldr_cheaper_isSome {α : Type*} {candidates : List α}
    {f : α → Option (PathInfo V)} {candidate : α} (hmem : candidate ∈ candidates)
    (hsome : (f candidate).isSome) :
    (candidates.foldr (fun candidate best => cheaper (f candidate) best) none).isSome := by
  induction candidates with
  | nil => cases hmem
  | cons head rest ih =>
      rw [List.foldr_cons]
      apply cheaper_isSome
      rcases List.mem_cons.mp hmem with rfl | hmem
      · exact .inl hsome
      · exact .inr (ih hmem)

private theorem foldr_cheaper_le {α : Type*} {candidates : List α}
    {f : α → Option (PathInfo V)} {candidate : α} (hmem : candidate ∈ candidates)
    {path : PathInfo V} (hpath : f candidate = some path) :
    ∃ best, candidates.foldr (fun candidate best => cheaper (f candidate) best) none =
      some best ∧ best.totalCost ≤ path.totalCost := by
  induction candidates with
  | nil => cases hmem
  | cons head rest ih =>
      rw [List.foldr_cons]
      rcases List.mem_cons.mp hmem with rfl | hmem
      · exact cheaper_le (.inl hpath)
      · obtain ⟨middle, hmiddle, hle⟩ := ih hmem
        obtain ⟨best, hbest, hbestLe⟩ := cheaper_le (.inr hmiddle)
        exact ⟨best, hbest, hbestLe.trans hle⟩

variable [DecidableEq V]

def cheapestWithin (graph : List (Edge V)) (last : V) : Nat → V → Option (PathInfo V)
  | 0, first => if first = last then some ⟨[first], 0⟩ else none
  | edges + 1, first =>
      if first = last then some ⟨[first], 0⟩
      else
        (graph.filter fun edge => edge.source = first).foldr
          (fun edge best =>
            cheaper ((cheapestWithin graph last edges edge.target).map (.prepend edge)) best)
          none

def cheapestPath : PathSearch V := fun graph first last =>
  cheapestWithin graph last graph.length first

theorem cheapestWithin_self (graph : List (Edge V)) (last : V) (edges : Nat) :
    cheapestWithin graph last edges last = some ⟨[last], 0⟩ := by
  cases edges <;> simp [cheapestWithin]

theorem cheapestWithin_sound {graph : List (Edge V)} {last : V} {edges : Nat} {first : V}
    {path : PathInfo V} (h : cheapestWithin graph last edges first = some path) :
    ∃ rest, path.nodes = first :: rest ∧ Walk graph first rest last path.totalCost := by
  induction edges generalizing first path with
  | zero =>
      unfold cheapestWithin at h
      split at h <;> cases h
      rename_i heq
      exact ⟨[], rfl, heq, rfl⟩
  | succ edges ih =>
      unfold cheapestWithin at h
      split at h
      · rename_i heq
        cases h
        exact ⟨[], rfl, heq, rfl⟩
      · obtain ⟨edge, hedge, hpath⟩ := foldr_cheaper_eq_some h
        obtain ⟨tail, htail, rfl⟩ := Option.map_eq_some_iff.mp hpath
        obtain ⟨hmem, hsource⟩ := List.mem_filter.mp hedge
        obtain ⟨rest, hnodes, hwalk⟩ := ih htail
        have hsource : edge.source = first := of_decide_eq_true hsource
        refine ⟨edge.target :: rest, ?_, edge, hmem, hsource, rfl, ?_⟩
        · simp [PathInfo.prepend, hnodes, hsource]
        · simpa [PathInfo.prepend] using hwalk

theorem cheapestWithin_isSome {graph : List (Edge V)} {last : V} {edges : Nat} {first : V}
    {nodes : List V} {cost : ℚ} (h : Walk graph first nodes last cost)
    (hlength : nodes.length ≤ edges) : (cheapestWithin graph last edges first).isSome := by
  induction nodes generalizing first cost edges with
  | nil =>
      obtain ⟨rfl, -⟩ := h
      simp [cheapestWithin_self]
  | cons next rest ih =>
      obtain ⟨edge, hmem, hsource, htarget, hrest⟩ := h
      cases edges with
      | zero => simp at hlength
      | succ edges =>
          unfold cheapestWithin
          split
          · rfl
          · have htail := ih hrest (Nat.le_of_succ_le_succ hlength)
            rw [← htarget] at htail
            exact foldr_cheaper_isSome (List.mem_filter.mpr ⟨hmem, decide_eq_true hsource⟩)
              (Option.isSome_map.trans htail)

theorem cheapestWithin_le {graph : List (Edge V)} {last : V} {edges : Nat}
    (hcost : ∀ edge ∈ graph, 0 ≤ edge.cost) {first : V} {nodes : List V} {cost : ℚ}
    (h : Walk graph first nodes last cost) (hlength : nodes.length ≤ edges) :
    ∃ path, cheapestWithin graph last edges first = some path ∧ path.totalCost ≤ cost := by
  induction nodes generalizing first cost edges with
  | nil =>
      obtain ⟨rfl, rfl⟩ := h
      exact ⟨_, cheapestWithin_self graph first edges, le_rfl⟩
  | cons next rest ih =>
      have hnonneg := h.cost_nonneg hcost
      obtain ⟨edge, hmem, hsource, htarget, hrest⟩ := h
      cases edges with
      | zero => simp at hlength
      | succ edges =>
          unfold cheapestWithin
          split
          · exact ⟨_, rfl, hnonneg⟩
          · obtain ⟨tail, htail, hle⟩ := ih hrest (Nat.le_of_succ_le_succ hlength)
            rw [← htarget] at htail
            have hcandidate : edge ∈ graph.filter fun edge => edge.source = first :=
              List.mem_filter.mpr ⟨hmem, decide_eq_true hsource⟩
            obtain ⟨best, hbest, hbestLe⟩ := foldr_cheaper_le hcandidate
              (f := fun edge => (cheapestWithin graph last edges edge.target).map (.prepend edge))
              (Option.map_eq_some_iff.mpr ⟨tail, htail, rfl⟩)
            refine ⟨best, hbest, hbestLe.trans ?_⟩
            change edge.cost + tail.totalCost ≤ cost
            linarith

theorem cheapestPath_sound : (cheapestPath : PathSearch V).Sound :=
  fun _ _ _ _ h => cheapestWithin_sound h

omit [DecidableEq V] in
private theorem Walk.length_le {graph : List (Edge V)} {first last : V} {nodes : List V} {cost : ℚ}
    (h : Walk graph first nodes last cost) (hnodup : (first :: nodes).Nodup) :
    nodes.length ≤ graph.length := by
  have hsubset : nodes ⊆ graph.map Edge.target := fun node => h.mem_targets
  have hlength := ((List.nodup_cons.mp hnodup).2.subperm hsubset).length_le
  rwa [List.length_map] at hlength

theorem cheapestPath_complete : (cheapestPath : PathSearch V).Complete := by
  intro graph first last rest cost h
  obtain ⟨simple, _, hwalk, hnodup, -⟩ := h.exists_nodup
  exact cheapestWithin_isSome hwalk (hwalk.length_le hnodup)

theorem cheapestPath_leastCost : (cheapestPath : PathSearch V).LeastCost := by
  intro graph first last hcost nodes cost h
  obtain ⟨simple, _, hwalk, hnodup, hle⟩ := h.exists_nodup
  obtain ⟨path, hpath, hpathLe⟩ := cheapestWithin_le hcost hwalk (hwalk.length_le hnodup)
  obtain ⟨rest, hnodes, hrest⟩ := cheapestPath_sound graph first last path hpath
  exact ⟨path, rest, hpath, hnodes, hrest, hpathLe.trans (hle hcost)⟩

end Peerz.Library
