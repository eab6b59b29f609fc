import Mathlib.Data.List.Basic
import Mathlib.Data.List.Forall2

/-! Loops whose body may raise. -/
namespace Peerz.Library

variable {ε α β : Type}

theorem bind_eq_ok {x : Except ε α} {f : α → Except ε β} {result : β} :
    x >>= f = .ok result ↔ ∃ value, x = .ok value ∧ f value = .ok result := by
  cases x with
  | error e => simp [bind, Except.bind]
  | ok value => simp [bind, Except.bind]

theorem mem_of_mapM_eq_ok {f : α → Except ε β} {items : List α} {results : List β}
    (h : items.mapM f = .ok results) {result : β} (hmem : result ∈ results) :
    ∃ item ∈ items, f item = .ok result := by
  induction items generalizing results with
  | nil =>
      cases h
      cases hmem
  | cons item rest ih =>
      rw [List.mapM_cons] at h
      obtain ⟨first, hfirst, h⟩ := bind_eq_ok.mp h
      obtain ⟨others, hothers, h⟩ := bind_eq_ok.mp h
      cases h
      rcases List.mem_cons.mp hmem with rfl | hmem
      · exact ⟨item, List.mem_cons_self, hfirst⟩
      · obtain ⟨other, hother, hresult⟩ := ih hothers hmem
        exact ⟨other, List.mem_cons_of_mem _ hother, hresult⟩

theorem forall₂_of_mapM_eq_some {f : α → Option β} {items : List α} {results : List β}
    (h : items.mapM f = some results) :
    List.Forall₂ (fun item result => f item = some result) items results := by
  induction items generalizing results with
  | nil =>
      cases h
      exact .nil
  | cons item rest ih =>
      rw [List.mapM_cons] at h
      obtain ⟨first, hfirst, h⟩ := Option.bind_eq_some_iff.mp h
      obtain ⟨others, hothers, h⟩ := Option.bind_eq_some_iff.mp h
      cases h
      exact .cons hfirst (ih hothers)

theorem mapM_isSome_iff {f : α → Option β} {items : List α} :
    (items.mapM f).isSome = true ↔ ∀ item ∈ items, (f item).isSome = true := by
  induction items with
  | nil => simp
  | cons item rest ih =>
      rw [List.mapM_cons, List.forall_mem_cons, ← ih]
      cases f item with
      | none => simp
      | some first =>
          cases rest.mapM f with
          | none => simp
          | some others => simp

theorem exists_of_forall₂_left {R : α → β → Prop} {items : List α} {results : List β}
    (h : List.Forall₂ R items results) {item : α} (hitem : item ∈ items) :
    ∃ result ∈ results, R item result := by
  induction h with
  | nil => cases hitem
  | cons hfirst _ ih =>
      rcases List.mem_cons.mp hitem with rfl | hitem
      · exact ⟨_, List.mem_cons_self, hfirst⟩
      · obtain ⟨result, hresult, hrelated⟩ := ih hitem
        exact ⟨result, List.mem_cons_of_mem _ hresult, hrelated⟩

theorem exists_of_forall₂_right {R : α → β → Prop} {items : List α} {results : List β}
    (h : List.Forall₂ R items results) {result : β} (hresult : result ∈ results) :
    ∃ item ∈ items, R item result :=
  exists_of_forall₂_left h.flip hresult

/-- A predicate that the body of a loop keeps holds of what the loop returns. -/
theorem foldlM_invariant {f : β → α → Except ε β} {P : β → Prop}
    (hstep : ∀ state item next, P state → f state item = .ok next → P next) {items : List α}
    {start result : β} (hstart : P start) (h : items.foldlM f start = .ok result) : P result := by
  induction items generalizing start with
  | nil =>
      cases h
      exact hstart
  | cons item rest ih =>
      rw [List.foldlM_cons] at h
      obtain ⟨next, hnext, h⟩ := bind_eq_ok.mp h
      exact ih (hstep start item next hstart hnext) h

theorem mapM_eq_ok {f : α → Except ε β} {g : α → β} {items : List α}
    (h : ∀ item ∈ items, f item = .ok (g item)) : items.mapM f = .ok (items.map g) := by
  induction items with
  | nil => rfl
  | cons item rest ih =>
      rw [List.mapM_cons, h item List.mem_cons_self,
        ih fun other hmem => h other (List.mem_cons_of_mem _ hmem)]
      rfl

/-- A loop whose body either succeeds or raises one error raises it when some element does. -/
theorem mapM_eq_error {f : α → Except ε β} {items : List α} {e : ε}
    (h : ∀ item ∈ items, (∃ result, f item = .ok result) ∨ f item = .error e)
    (hraises : ∃ item ∈ items, f item = .error e) : items.mapM f = .error e := by
  induction items with
  | nil => simp at hraises
  | cons item rest ih =>
      rw [List.mapM_cons]
      rcases h item List.mem_cons_self with ⟨result, hitem⟩ | hitem
      · have hrest : ∃ other ∈ rest, f other = .error e := by
          obtain ⟨other, hmem, hother⟩ := hraises
          rcases List.mem_cons.mp hmem with rfl | hmem
          · rw [hitem] at hother
            cases hother
          · exact ⟨other, hmem, hother⟩
        rw [hitem, ih (fun other hmem => h other (List.mem_cons_of_mem _ hmem)) hrest]
        rfl
      · rw [hitem]
        rfl

end Peerz.Library
