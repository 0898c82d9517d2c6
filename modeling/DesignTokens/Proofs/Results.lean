import Mathlib.Data.List.Forall2

/-!
Results that may be faults: what a sequence of steps gave if none of them failed.
-/
namespace DesignTokens

universe u v w

variable {ε : Type u} {α β : Type v}

theorem exists_of_bind_eq_ok {x : Except ε α} {f : α → Except ε β} {b : β}
    (h : x >>= f = .ok b) : ∃ a, x = .ok a ∧ f a = .ok b := by
  cases x with
  | error e => cases h
  | ok a => exact ⟨a, rfl, h⟩

theorem bind_eq_ok {x : Except ε α} {f : α → Except ε β} {a : α} {b : β} (hx : x = .ok a)
    (hf : f a = .ok b) : x >>= f = .ok b := by
  rw [hx]
  exact hf

/-- The first step that fails ends all. -/
theorem bind_eq_error_iff {x : Except ε α} {f : α → Except ε β} {e : ε} :
    x >>= f = .error e ↔ x = .error e ∨ ∃ a, x = .ok a ∧ f a = .error e := by
  cases x with
  | error fault =>
      constructor
      · intro h
        cases h
        exact .inl rfl
      · rintro (h | ⟨a, h, -⟩)
        · cases h
          rfl
        · cases h
  | ok a =>
      constructor
      · intro h
        exact .inr ⟨a, rfl, h⟩
      · rintro (h | ⟨a, h, hf⟩)
        · cases h
        · cases h
          exact hf

theorem mapError_eq_error_iff {ε' : Type w} {x : Except ε α} {f : ε → ε'} {e' : ε'} :
    x.mapError f = .error e' ↔ ∃ e, x = .error e ∧ f e = e' := by
  cases x with
  | error e =>
      change Except.error (f e) = .error e' ↔ _
      simp
  | ok a =>
      change Except.ok a = .error e' ↔ _
      simp

def error? : Except ε α → Option ε
  | .error e => some e
  | .ok _ => none

theorem error?_map (x : Except ε α) (f : α → β) : error? (x.map f) = error? x := by
  cases x <;> rfl

theorem toOption_map (x : Except ε α) (f : α → β) : (x.map f).toOption = x.toOption.map f := by
  cases x <;> rfl

/-- A map gives the first error, or the results of all items. -/
theorem mapM_eq_elim {γ : Type w} (f : γ → Except ε α) (items : List γ) :
    items.mapM f = (items.findSome? fun x => error? (f x)).elim
      (.ok (items.filterMap fun x => (f x).toOption)) .error := by
  induction items with
  | nil => rfl
  | cons x items ih =>
      rw [List.mapM_cons, ih, List.findSome?_cons, List.filterMap_cons]
      cases hx : f x with
      | error e => rfl
      | ok y =>
          cases items.findSome? fun x => error? (f x) <;> rfl

/-- A map that did not fail gave a result for each item, in the same order. -/
theorem forall₂_of_mapM_eq_ok {γ : Type w} {f : γ → Except ε α} {items : List γ} {results : List α}
    (h : items.mapM f = .ok results) : List.Forall₂ (fun x y => f x = .ok y) items results := by
  induction items generalizing results with
  | nil =>
      cases h
      exact .nil
  | cons x items ih =>
      rw [List.mapM_cons] at h
      obtain ⟨y, hy, h⟩ := exists_of_bind_eq_ok h
      obtain ⟨ys, hys, h⟩ := exists_of_bind_eq_ok h
      cases h
      exact .cons hy (ih hys)

theorem mem_mapM_iff {γ : Type w} {f : γ → Except ε α} {items : List γ} {results : List α}
    (h : items.mapM f = .ok results) {y : α} : y ∈ results ↔ ∃ x ∈ items, f x = .ok y := by
  have pairs := forall₂_of_mapM_eq_ok h
  clear h
  induction pairs with
  | nil => simp
  | cons hx _ ih => simp [ih, hx, eq_comm]

/-- A map fails nowhere if and only if no item fails. -/
theorem isOk_mapM_iff {γ : Type w} {f : γ → Except ε α} {items : List γ} :
    (∃ results, items.mapM f = .ok results) ↔ ∀ x ∈ items, ∃ y, f x = .ok y := by
  constructor
  · intro ⟨results, h⟩ x hx
    obtain ⟨i, hi, rfl⟩ := List.mem_iff_getElem.1 hx
    have pairs := forall₂_of_mapM_eq_ok h
    exact ⟨_, List.Forall₂.get pairs hi (pairs.length_eq ▸ hi)⟩
  · intro h
    induction items with
    | nil => exact ⟨[], rfl⟩
    | cons x items ih =>
        obtain ⟨y, hy⟩ := h x (by simp)
        obtain ⟨ys, hys⟩ := ih fun x hx => h x (by simp [hx])
        rw [List.mapM_cons]
        exact ⟨y :: ys, bind_eq_ok hy (bind_eq_ok hys rfl)⟩

/-- A partial map that has all results has no others. -/
theorem exists_of_mem_mapM {γ : Type w} {δ : Type v} {f : γ → Option δ} {items : List γ}
    {results : List δ} (h : items.mapM f = some results) :
    ∀ y ∈ results, ∃ x ∈ items, f x = some y := by
  induction items generalizing results with
  | nil =>
      cases h
      simp
  | cons x items ih =>
      rw [List.mapM_cons] at h
      obtain ⟨y, hy, h⟩ := Option.bind_eq_some_iff.1 h
      obtain ⟨ys, hys, h⟩ := Option.bind_eq_some_iff.1 h
      cases h
      intro z hz
      rcases List.mem_cons.1 hz with rfl | hz
      · exact ⟨x, by simp, hy⟩
      · obtain ⟨x', hx', hz⟩ := ih hys z hz
        exact ⟨x', by simp [hx'], hz⟩

end DesignTokens
