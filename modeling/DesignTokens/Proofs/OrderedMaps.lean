import DesignTokens.Token.Name
import Mathlib.Data.List.Basic

/-!
What is found in a list of entries by its key, and what a map holds that is made from a list in
which each key stands once: the list itself. Such are the names of literals that differ.
-/
namespace DesignTokens

universe u v

section Lookup

variable {α : Type u} {β : Type v} [BEq α] [LawfulBEq α]

theorem mem_of_lookup_eq_some {entries : List (α × β)} {key : α} {value : β}
    (h : entries.lookup key = some value) : (key, value) ∈ entries := by
  obtain ⟨front, back, rfl, -⟩ := List.lookup_eq_some_iff.1 h
  exact List.mem_append_right front List.mem_cons_self

theorem lookup_eq_none_iff_notMem {entries : List (α × β)} {key : α} :
    entries.lookup key = none ↔ key ∉ entries.map Prod.fst := by
  rw [List.lookup_eq_none_iff, List.mem_map]
  constructor
  · rintro other ⟨e, he, rfl⟩
    exact absurd (other e he) (by simp)
  · intro other e he
    rw [bne_iff_ne]
    rintro rfl
    exact other ⟨e, he, rfl⟩

theorem lookup_map_snd (f : α → β → β) (entries : List (α × β)) (key : α) :
    (entries.map fun e => (e.1, f e.1 e.2)).lookup key = (entries.lookup key).map (f key) := by
  induction entries with
  | nil => rfl
  | cons e rest ih =>
      rw [List.map_cons, List.lookup_cons, List.lookup_cons, ih]
      cases same : key == e.1 with
      | false => rfl
      | true =>
          cases eq_of_beq same
          rfl

theorem lookup_filter {p : α × β → Bool} {key : α} (h : ∀ value, p (key, value) = true)
    (entries : List (α × β)) : (entries.filter p).lookup key = entries.lookup key := by
  induction entries with
  | nil => rfl
  | cons e rest ih =>
      rw [List.lookup_cons]
      cases same : key == e.1 with
      | true =>
          cases eq_of_beq same
          rw [List.filter_cons_of_pos (h e.2), List.lookup_cons_self]
      | false =>
          rw [List.filter_cons]
          split
          · rw [List.lookup_cons, same]
            exact ih
          · exact ih

theorem lookup_filter_of_nodup (keep : α → β → Bool) (key : α) {entries : List (α × β)}
    (h : (entries.map Prod.fst).Nodup) :
    (entries.filter fun e => keep e.1 e.2).lookup key = (entries.lookup key).filter (keep key) := by
  induction entries with
  | nil => rfl
  | cons e rest ih =>
      rw [List.map_cons, List.nodup_cons] at h
      rw [List.filter_cons, List.lookup_cons]
      cases same : key == e.1 with
      | false =>
          split
          · rw [List.lookup_cons, same]
            exact ih h.2
          · exact ih h.2
      | true =>
          cases eq_of_beq same
          split
          · rename_i kept
            rw [List.lookup_cons_self, Option.filter_some_pos kept]
          · rename_i dropped
            rw [Option.filter_some_neg (Bool.eq_false_iff.2 dropped), ih h.2,
              lookup_eq_none_iff_notMem.2 h.1]
            rfl

end Lookup

variable {α : Type u} {β : Type v} [DecidableEq α]

theorem alterEntries_of_notMem {key : α} {f : Option β → β} {entries : List (α × β)}
    (h : key ∉ entries.map Prod.fst) : alterEntries key f entries = entries ++ [(key, f none)] := by
  induction entries with
  | nil => rfl
  | cons e rest ih =>
      simp only [List.map_cons, List.mem_cons, not_or] at h
      simp [alterEntries, Ne.symm h.1, ih h.2]

theorem mem_alterEntries {key k : α} {v : β} {f : Option β → β} {entries : List (α × β)}
    (h : (k, v) ∈ alterEntries key f entries) : (k, v) ∈ entries ∨ k = key ∧ ∃ old, v = f old := by
  induction entries with
  | nil =>
      obtain ⟨rfl, rfl⟩ := Prod.mk.inj (List.mem_singleton.1 h)
      exact .inr ⟨rfl, none, rfl⟩
  | cons e rest ih =>
      rw [alterEntries] at h
      split at h
      · rename_i hk
        rcases List.mem_cons.1 h with h | h
        · obtain ⟨rfl, rfl⟩ := Prod.mk.inj h
          exact .inr ⟨hk, _, rfl⟩
        · exact .inl (by simp [h])
      · rcases List.mem_cons.1 h with h | h
        · exact .inl (by simp [h])
        · exact (ih h).imp (by simp +contextual) id

namespace OrderedMap

/-- The values of a map in the order of its keys. -/
def values (m : OrderedMap α β) : List β := m.entries.map Prod.snd

theorem mem_insert {m : OrderedMap α β} {key : α} {value : β} {e : α × β}
    (h : e ∈ (m.insert key value).entries) : e ∈ m.entries ∨ e = (key, value) := by
  obtain ⟨k, v⟩ := e
  rcases mem_alterEntries h with h | ⟨rfl, old, rfl⟩
  · exact .inl h
  · exact .inr rfl

theorem mem_foldl_insert {entries : List (α × β)} {m : OrderedMap α β} {e : α × β}
    (h : e ∈ (entries.foldl (fun m e => m.insert e.1 e.2) m).entries) :
    e ∈ m.entries ∨ e ∈ entries := by
  induction entries generalizing m with
  | nil => exact .inl h
  | cons first entries ih =>
      rcases ih h with h | h
      · rcases mem_insert h with h | rfl
        · exact .inl h
        · exact .inr (by simp)
      · exact .inr (by simp [h])

theorem mem_ofList {entries : List (α × β)} {e : α × β} (h : e ∈ (ofList entries).entries) :
    e ∈ entries := by
  rcases mem_foldl_insert h with h | h
  · cases h
  · exact h

theorem mem_union {m n : OrderedMap α β} {e : α × β} (h : e ∈ (m.union n).entries) :
    e ∈ m.entries ∨ e ∈ n.entries := mem_foldl_insert h

theorem mem_of_get?_eq_some {m : OrderedMap α β} {key : α} {value : β}
    (h : m.get? key = some value) : (key, value) ∈ m.entries := mem_of_lookup_eq_some h

theorem get?_eq_some_iff {m : OrderedMap α β} {key : α} {value : β} :
    m.get? key = some value ↔ (key, value) ∈ m.entries := by
  refine ⟨mem_of_get?_eq_some, fun h => ?_⟩
  obtain ⟨front, back, entries⟩ := List.append_of_mem h
  have distinct := m.nodup_keys
  rw [entries, List.map_append, List.nodup_append] at distinct
  refine List.lookup_eq_some_iff.2 ⟨front, back, entries, fun e he => ?_⟩
  simpa using (distinct.2.2 e.1 (List.mem_map_of_mem he) key (by simp)).symm

theorem exists_get?_of_mem_keys {m : OrderedMap α β} {key : α} (h : key ∈ m.keys) :
    ∃ value, m.get? key = some value := by
  obtain ⟨e, he, rfl⟩ := List.mem_map.1 h
  exact ⟨e.2, get?_eq_some_iff.2 he⟩

theorem lookup_alterEntries (key k : α) (f : Option β → β) (entries : List (α × β)) :
    (alterEntries key f entries).lookup k =
      if k = key then some (f (entries.lookup key)) else entries.lookup k := by
  induction entries with
  | nil =>
      by_cases h : k = key
      · simp [alterEntries, h]
      · simp [alterEntries, h]
  | cons e rest ih =>
      obtain ⟨k', v⟩ := e
      by_cases hk : k' = key
      · by_cases h : k = key
        · simp [alterEntries, hk, h]
        · have miss : (k == key) = false := beq_false_of_ne h
          simp [alterEntries, hk, h, List.lookup_cons, miss]
      · by_cases h : k = key
        · subst h
          have miss : (k == k') = false := beq_false_of_ne (Ne.symm hk)
          simp [alterEntries, hk, List.lookup_cons, miss, ih]
        · simp [alterEntries, hk, List.lookup_cons, h, ih]

theorem get?_alter (m : OrderedMap α β) (key k : α) (f : Option β → β) :
    (m.alter key f).get? k = if k = key then some (f (m.get? key)) else m.get? k :=
  lookup_alterEntries key k f m.entries

theorem mem_keys_alter {m : OrderedMap α β} {key k : α} {f : Option β → β} :
    k ∈ (m.alter key f).keys ↔ k = key ∨ k ∈ m.keys := mem_keys_alterEntries key f m.entries k

theorem entries_insert_of_notMem {m : OrderedMap α β} {key : α} (h : key ∉ m.keys) (value : β) :
    (m.insert key value).entries = m.entries ++ [(key, value)] := alterEntries_of_notMem h

theorem entries_foldl_insert (entries : List (α × β)) (m : OrderedMap α β)
    (h : (m.keys ++ entries.map Prod.fst).Nodup) :
    (entries.foldl (fun m e => m.insert e.1 e.2) m).entries = m.entries ++ entries := by
  induction entries generalizing m with
  | nil => simp
  | cons e rest ih =>
      have new : e.1 ∉ m.keys := by
        intro mem
        exact (List.nodup_append.1 h).2.2 e.1 mem e.1 (by simp) rfl
      have inserted := entries_insert_of_notMem new e.2
      have keys : (m.insert e.1 e.2).keys = m.keys ++ [e.1] := by simp [OrderedMap.keys, inserted]
      rw [List.foldl_cons, ih (m.insert e.1 e.2) (by simpa [keys] using h), inserted]
      simp

theorem entries_ofList {entries : List (α × β)} (h : (entries.map Prod.fst).Nodup) :
    (ofList entries).entries = entries := by
  have := entries_foldl_insert entries (empty : OrderedMap α β) (by simpa [keys, empty] using h)
  simpa [ofList, empty] using this

theorem keys_ofList {entries : List (α × β)} (h : (entries.map Prod.fst).Nodup) :
    (ofList entries).keys = entries.map Prod.fst := by rw [keys, entries_ofList h]

end OrderedMap

theorem TokenName.length_assign (s : NameScheme) (used : List Text) (literals : List (Text × Int)) :
    (assign s used literals).length = literals.length := by
  induction literals generalizing used with
  | nil => rfl
  | cons l rest ih => simp [assign, ih]

theorem TokenMap.keys_ofLiterals (s : NameScheme) {literals : List Text} (h : literals.Nodup) :
    (ofLiterals s literals).keys = literals := by
  have keys (numbered : List (Text × Int)) (hl : numbered.length = literals.length) :
      (literals.zip (TokenName.assign s [] numbered)).map Prod.fst = literals := by
    have length : literals.length ≤ (TokenName.assign s [] numbered).length := by
      rw [TokenName.length_assign]
      exact Nat.le_of_eq hl.symm
    exact List.map_fst_zip length
  rw [ofLiterals, OrderedMap.keys_ofList]
  · exact keys _ (by simp)
  · rw [keys _ (by simp)]
    exact h

end DesignTokens
