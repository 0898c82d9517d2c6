import DesignTokens.Proofs.OrderedMaps

/-!
Maps that are put together: the keys of the first in their order and then the new keys of the
second, where the two values of one key are combined.
-/
namespace DesignTokens

universe u v

section Entries

variable {α : Type u} {β : Type v} [BEq α] [LawfulBEq α]

/-- The entries of `older`, those that are in `newer` too with the value chosen from both, and then
the other ones of `newer`. -/
def mergeEntries (choose : α → β → β → β) (older newer : List (α × β)) : List (α × β) :=
  (older.map fun e => (e.1, (newer.lookup e.1).elim e.2 (choose e.1 e.2))) ++
    newer.filter fun e => (older.lookup e.1).isNone

variable {choose : α → β → β → β} {older newer : List (α × β)}

theorem lookup_mergeEntries (key : α) : (mergeEntries choose older newer).lookup key =
    (older.lookup key).elim (newer.lookup key) fun a =>
      some ((newer.lookup key).elim a (choose key a)) := by
  rw [mergeEntries, List.lookup_append,
    lookup_map_snd (fun k a => (newer.lookup k).elim a (choose k a))]
  cases found : older.lookup key with
  | some a => rfl
  | none => exact lookup_filter (fun _ => by rw [found]; rfl) newer

omit [LawfulBEq α] in
theorem keys_mergeEntries : (mergeEntries choose older newer).map Prod.fst =
    older.map Prod.fst ++ (newer.map Prod.fst).filter fun key => (older.lookup key).isNone := by
  rw [mergeEntries, List.map_append, List.map_map, List.filter_map]
  rfl

theorem nodup_keys_mergeEntries (first : (older.map Prod.fst).Nodup)
    (second : (newer.map Prod.fst).Nodup) :
    ((mergeEntries choose older newer).map Prod.fst).Nodup := by
  rw [keys_mergeEntries, List.nodup_append]
  refine ⟨first, second.filter _, ?_⟩
  rintro k hk _ hk' rfl
  exact lookup_eq_none_iff_notMem.1 (Option.isNone_iff_eq_none.1 (List.mem_filter.1 hk').2) hk

end Entries

namespace OrderedMap

variable {α : Type u} {β : Type v} [DecidableEq α] {combine : β → β → β} {m n : OrderedMap α β}

/-- Maps with the same keys in the same order and with the same values are the same. -/
theorem ext_get? (keys : m.keys = n.keys) (values : ∀ k ∈ m.keys, m.get? k = n.get? k) : m = n := by
  have item (m : OrderedMap α β) {e : α × β} (he : e ∈ m.entries) : m.get? e.1 = some e.2 :=
    get?_eq_some_iff.2 he
  apply ext
  refine List.ext_getElem (by simpa [OrderedMap.keys] using congrArg List.length keys) ?_
  intro i hm hn
  have same : m.entries[i].1 = n.entries[i].1 := by
    have at_i := congrArg (·[i]?) keys
    simpa [OrderedMap.keys, hm, hn] using at_i
  have value := values _ (List.mem_map_of_mem (List.getElem_mem hm))
  rw [item m (List.getElem_mem hm), same, item n (List.getElem_mem hn), Option.some.injEq] at value
  exact Prod.ext same value

theorem get?_eq_none_iff {key : α} : m.get? key = none ↔ key ∉ m.keys := lookup_eq_none_iff_notMem

theorem keys_alter (key : α) (f : Option β → β) :
    (m.alter key f).keys = if key ∈ m.keys then m.keys else m.keys ++ [key] := by
  have all (entries : List (α × β)) : (alterEntries key f entries).map Prod.fst =
      if key ∈ entries.map Prod.fst then entries.map Prod.fst
      else entries.map Prod.fst ++ [key] := by
    induction entries with
    | nil => rfl
    | cons e rest ih =>
        by_cases h : e.1 = key
        · simp [alterEntries, h]
        · have other : ¬key = e.1 := fun same => h same.symm
          simp only [alterEntries, if_neg h, List.map_cons, ih, List.mem_cons, other, false_or]
          split <;> rfl
  exact all m.entries

/-- The entries of `m`, with the values of `n` combined into them, then the other ones of `n`. -/
def merge (combine : β → β → β) (m n : OrderedMap α β) : OrderedMap α β where
  entries := (m.entries.map fun e => (e.1, (n.get? e.1).elim e.2 (combine e.2))) ++
    n.entries.filter fun e => e.1 ∉ m.keys
  nodup_keys := by
    rw [List.map_append, List.map_map, List.nodup_append]
    refine ⟨m.nodup_keys, n.nodup_keys.sublist (List.filter_sublist.map _), ?_⟩
    intro k hk k' hk' same
    obtain ⟨e, he, rfl⟩ := List.mem_map.1 hk'
    have new : e.1 ∉ m.keys := by simpa using (List.mem_filter.1 he).2
    exact new (same ▸ hk)

theorem entries_merge : (m.merge combine n).entries =
    mergeEntries (fun _ => combine) m.entries n.entries := by
  refine congrArg (_ ++ ·) (List.filter_congr fun e _ => ?_)
  rw [Bool.eq_iff_iff, decide_eq_true_iff, Option.isNone_iff_eq_none]
  exact get?_eq_none_iff.symm

theorem keys_merge : (m.merge combine n).keys = m.keys ++ n.keys.filter (· ∉ m.keys) := by
  rw [keys, merge, List.map_append, List.map_map, keys, keys, List.filter_map]
  rfl

theorem get?_merge (k : α) : (m.merge combine n).get? k =
    (m.get? k).elim (n.get? k) fun a => some ((n.get? k).elim a (combine a)) := by
  rw [get?, entries_merge, lookup_mergeEntries]
  rfl

theorem merge_empty : m.merge combine empty = m := by
  have keys : (m.merge combine empty).keys = m.keys := by
    rw [keys_merge]
    exact List.append_nil _
  refine ext_get? keys fun k _ => ?_
  rw [get?_merge]
  cases m.get? k <;> rfl

/-- A change of one entry that goes through `combine` may be made in the second of two maps. -/
theorem alter_merge {key : α} {f : Option β → β}
    (both : ∀ a b, f (some (combine a b)) = combine a (f (some b)))
    (one : ∀ a, f (some a) = combine a (f none)) :
    (m.merge combine n).alter key f = m.merge combine (n.alter key f) := by
  refine ext_get? ?_ fun k _ => ?_
  · rw [keys_alter, keys_merge, keys_merge, keys_alter]
    by_cases hm : key ∈ m.keys
    · by_cases hn : key ∈ n.keys <;> simp [hm, hn]
    · by_cases hn : key ∈ n.keys <;> simp [hm, hn]
  · rw [get?_alter, get?_merge, get?_merge, get?_merge, get?_alter]
    by_cases h : k = key
    · subst h
      cases m.get? k with
      | none => cases n.get? k <;> simp
      | some a => cases n.get? k <;> simp [both, one]
    · simp [h]

end OrderedMap

end DesignTokens
