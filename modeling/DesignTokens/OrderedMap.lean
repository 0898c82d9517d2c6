/-!
Maps that keep the order in which their keys came. A key that comes again keeps its place. Every
map holds each key once, so its entries are a function on its keys.
-/
namespace DesignTokens

universe u v

/-- The entries with the value at `key` changed by `f`, which sees the value so far; a new key goes
to the end. -/
def alterEntries {α : Type u} {β : Type v} [DecidableEq α] (key : α) (f : Option β → β) :
    List (α × β) → List (α × β)
  | [] => [(key, f none)]
  | (k, v) :: rest =>
    if k = key then (k, f (some v)) :: rest else (k, v) :: alterEntries key f rest

theorem mem_keys_alterEntries {α : Type u} {β : Type v} [DecidableEq α] (key : α)
    (f : Option β → β) (entries : List (α × β)) (k : α) :
    k ∈ (alterEntries key f entries).map Prod.fst ↔ k = key ∨ k ∈ entries.map Prod.fst := by
  induction entries with
  | nil => simp [alterEntries]
  | cons e rest ih =>
      obtain ⟨k', v⟩ := e
      by_cases h : k' = key
      · simp [alterEntries, h]
      · simp only [alterEntries, h, if_false, List.map_cons, List.mem_cons, ih]
        grind

theorem nodup_keys_alterEntries {α : Type u} {β : Type v} [DecidableEq α] (key : α)
    (f : Option β → β) (entries : List (α × β)) (h : (entries.map Prod.fst).Nodup) :
    ((alterEntries key f entries).map Prod.fst).Nodup := by
  induction entries with
  | nil => simp [alterEntries]
  | cons e rest ih =>
      obtain ⟨k', v⟩ := e
      simp only [List.map_cons, List.nodup_cons] at h
      by_cases hk : k' = key
      · simpa [alterEntries, hk, hk ▸ h.1] using h.2
      · have new : k' ∉ (alterEntries key f rest).map Prod.fst := fun mem =>
          ((mem_keys_alterEntries key f rest k').1 mem).elim hk h.1
        simpa [alterEntries, hk] using ⟨by simpa using new, ih h.2⟩

structure OrderedMap (α : Type u) (β : Type v) where
  entries : List (α × β)
  nodup_keys : (entries.map Prod.fst).Nodup

namespace OrderedMap

variable {α : Type u} {β : Type v}

theorem ext {m n : OrderedMap α β} (h : m.entries = n.entries) : m = n := by
  cases m; cases n; simp_all

instance [DecidableEq α] [DecidableEq β] : DecidableEq (OrderedMap α β) := fun m n =>
  if h : m.entries = n.entries then isTrue (ext h) else isFalse fun e => h (e ▸ rfl)

def empty : OrderedMap α β := ⟨[], by simp⟩

instance : EmptyCollection (OrderedMap α β) := ⟨empty⟩

instance : Inhabited (OrderedMap α β) := ⟨empty⟩

def keys (m : OrderedMap α β) : List α := m.entries.map Prod.fst

def isEmpty (m : OrderedMap α β) : Bool := m.entries.isEmpty

def size (m : OrderedMap α β) : Nat := m.entries.length

def get? [DecidableEq α] (m : OrderedMap α β) (key : α) : Option β := m.entries.lookup key

/-- The map with the value at `key` changed by `f`, which sees the value so far. -/
def alter [DecidableEq α] (m : OrderedMap α β) (key : α) (f : Option β → β) : OrderedMap α β :=
  ⟨alterEntries key f m.entries, nodup_keys_alterEntries key f m.entries m.nodup_keys⟩

def insert [DecidableEq α] (m : OrderedMap α β) (key : α) (value : β) : OrderedMap α β :=
  m.alter key fun _ => value

def ofList [DecidableEq α] (entries : List (α × β)) : OrderedMap α β :=
  entries.foldl (fun m e => m.insert e.1 e.2) empty

/-- All entries of `m`, then those of `n`; a key of both keeps its place and takes its last value.
-/
def union [DecidableEq α] (m n : OrderedMap α β) : OrderedMap α β :=
  n.entries.foldl (fun m e => m.insert e.1 e.2) m

/-- Each value becomes the key of its key; of several keys with one value the last counts. -/
def inverse [DecidableEq β] (m : OrderedMap α β) : OrderedMap β α :=
  ofList (m.entries.map fun e => (e.2, e.1))

end OrderedMap

end DesignTokens
