import DesignTokens.Proofs.CountedTokens

/-!
One pass from left to right that replaces the longest key at each place. `longest_steps` is the
induction over such a pass: at each place there is a key and no longer one, or a character that is
copied.
-/
namespace DesignTokens.Text

/-- The longest of some keys that a text starts with. -/
def longestKey (keys : List Text) : Recognizer :=
  fun _ t => ((keys.filter (·.isPrefixOf t)).map List.length).max?

/-- A text with the longest key at each place replaced. -/
def mapLongest (keys : List Text) (f : Text → Text) (t : Text) : Text :=
  mapTokens (longestKey keys) f t

section Pass

variable {keys : List Text} {f : Text → Text} {before : Option Char} {t : Text}

theorem longestKey_eq_some_iff {n : Nat} :
    longestKey keys before t = some n ↔
      (∃ k ∈ keys, k <+: t ∧ k.length = n) ∧ ∀ k ∈ keys, k <+: t → k.length ≤ n := by
  rw [longestKey, List.max?_eq_some_iff, List.forall_mem_map]
  simp [and_assoc]

theorem longestKey_eq_none_iff :
    longestKey keys before t = none ↔ ∀ k ∈ keys, ¬ k <+: t := by
  rw [longestKey, List.max?_eq_none_iff]
  simp

/-- A pass does not look back. -/
theorem mapFrom_longestKey : mapFrom (longestKey keys) f before t = mapLongest keys f t := by
  cases t <;> rfl

theorem mapLongest_cons {c : Char} (copied : ∀ k ∈ keys, ¬ k <+: c :: t) :
    mapLongest keys f (c :: t) = c :: mapLongest keys f t := by
  have none (n : Nat) : longestKey keys none (c :: t) ≠ some (n + 1) := by
    rw [longestKey_eq_none_iff.2 copied]
    exact nofun
  rw [← mapFrom_longestKey, mapFrom_plain none, mapFrom_longestKey]

theorem mapLongest_key {key : Text} (hne : key ≠ []) (mem : key ∈ keys)
    (longest : ∀ k ∈ keys, k <+: key ++ t → k.length ≤ key.length) :
    mapLongest keys f (key ++ t) = f key ++ mapLongest keys f t := by
  have taken : longestKey keys none (key ++ t) = some key.length :=
    longestKey_eq_some_iff.2 ⟨⟨key, mem, List.prefix_append key t, rfl⟩, longest⟩
  rw [← mapFrom_longestKey, mapFrom_token hne taken, mapFrom_longestKey]

/-- Induction over a pass from left to right. -/
theorem longest_steps (hne : ∀ k ∈ keys, k ≠ []) {P : Text → Prop} (nil : P [])
    (key : ∀ key ∈ keys, ∀ t, (∀ k ∈ keys, k <+: key ++ t → k.length ≤ key.length) → P t →
      P (key ++ t))
    (char : ∀ c t, (∀ k ∈ keys, ¬ k <+: c :: t) → P t → P (c :: t)) (t : Text) : P t := by
  induction h : t.length using Nat.strong_induction_on generalizing t with
  | h n ih =>
      cases t with
      | nil => exact nil
      | cons c t =>
          cases found : longestKey keys none (c :: t) with
          | none =>
              rw [List.length_cons] at h
              exact char c t (longestKey_eq_none_iff.1 found) (ih t.length (by omega) t rfl)
          | some m =>
              obtain ⟨⟨k, mem, ⟨rest, text⟩, rfl⟩, longest⟩ := longestKey_eq_some_iff.1 found
              rw [← text] at h longest ⊢
              have length := List.length_pos_of_ne_nil (hne k mem)
              rw [List.length_append] at h
              exact key k mem rest longest (ih rest.length (by omega) rest rfl)

/-- Text in which no key starts is copied. -/
theorem mapLongest_front {front rest : Text}
    (h : ∀ a q, front = a ++ q → q ≠ [] → ∀ k ∈ keys, ¬ k <+: q ++ rest) :
    mapLongest keys f (front ++ rest) = front ++ mapLongest keys f rest := by
  induction front with
  | nil => rfl
  | cons c front ih =>
      have copied : ∀ k ∈ keys, ¬ k <+: c :: (front ++ rest) := h [] (c :: front) rfl (by simp)
      rw [List.cons_append, mapLongest_cons copied, ih]
      · rfl
      · intro a q text
        exact h (c :: a) q (by rw [text]; rfl)

/-- What stands apart from references starts in the new text only where it started in the old one.
-/
theorem prefix_of_prefix_mapLongest (hne : ∀ k ∈ keys, k ≠ [])
    (hf : ∀ k ∈ keys, f k = k ∨ ∃ name, f k = reference name) {p : Text} (hp : Apart p) {t : Text}
    (start : p <+: mapLongest keys f t) : p <+: t := by
  induction t using longest_steps hne generalizing p with
  | nil => exact start
  | key key mem t longest ih =>
      rw [mapLongest_key (hne key mem) mem longest] at start
      rcases hf key mem with kept | ⟨name, replaced⟩
      · rw [kept] at start
        rcases prefix_append_cases start with short | ⟨c, q, later, rfl⟩
        · exact short.trans (List.prefix_append key t)
        · have apart : Apart (c :: q) := fun s hs suffix =>
            hp s hs (suffix.trans (List.suffix_append key _))
          exact (List.prefix_append_right_inj key).2 (ih apart later)
      · rw [replaced, reference_append] at start
        cases p with
        | nil => exact List.nil_prefix
        | cons c p =>
            have whole := hp (c :: p) (by simp) (List.suffix_refl _)
            rcases List.prefix_or_prefix_of_prefix start (List.prefix_append opening _) with h | h
            · exact absurd h whole.1
            · exact absurd h whole.2
  | char c t copied ih =>
      rw [mapLongest_cons copied] at start
      cases p with
      | nil => exact List.nil_prefix
      | cons d p =>
          obtain ⟨rfl, tail⟩ := List.cons_prefix_cons.1 start
          have apart : Apart p := fun s hs suffix => hp s hs (suffix.trans (List.suffix_cons d p))
          exact List.cons_prefix_cons.2 ⟨rfl, ih apart tail⟩

/-- Passes over one set of keys, whatever their order. -/
theorem mapLongest_congr {keys' : List Text} {f' : Text → Text} (hne : ∀ k ∈ keys, k ≠ [])
    (same : ∀ k, k ∈ keys ↔ k ∈ keys') (hf : ∀ k ∈ keys, f k = f' k) (t : Text) :
    mapLongest keys f t = mapLongest keys' f' t := by
  induction t using longest_steps hne with
  | nil => rfl
  | key k hk t longest ih =>
      rw [mapLongest_key (hne k hk) hk longest, ih, hf k hk,
        mapLongest_key (hne k hk) ((same k).1 hk) fun k' hk' => longest k' ((same k').2 hk')]
  | char c t copied ih =>
      rw [mapLongest_cons copied, ih, mapLongest_cons fun k hk => copied k ((same k).2 hk)]

theorem mapLongest_of_fixed (hne : ∀ k ∈ keys, k ≠ []) (hf : ∀ k ∈ keys, f k = k) (t : Text) :
    mapLongest keys f t = t := by
  induction t using longest_steps hne with
  | nil => rfl
  | key k hk t longest ih => rw [mapLongest_key (hne k hk) hk longest, ih, hf k hk]
  | char c t copied ih => rw [mapLongest_cons copied, ih]

end Pass

end DesignTokens.Text
