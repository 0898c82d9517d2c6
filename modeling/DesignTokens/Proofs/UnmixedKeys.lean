import DesignTokens.Proofs.ReplacedTexts

/-!
Keys that are replaced one after another, the longest first. That is one pass that replaces the
longest key at each place, where no key lies across another one or starts in a reference; and such a
pass is undone by replacing the references. Main statements: `foldl_replaceAll` and `foldl_restore`.
-/
namespace DesignTokens.Text

/-- Keys that do not get in each other's way, nor in that of references. -/
structure Unmixed (keys names : List Text) : Prop where
  ne_nil : ∀ k ∈ keys, k ≠ []
  apart : ∀ k ∈ keys, Apart k
  outside : ∀ k ∈ keys, ∀ name ∈ names, ∀ q rest, q ≠ [] → q <:+ reference name →
    ¬ k <+: q ++ rest
  inside : ∀ k ∈ keys, ∀ k' ∈ keys, k.length ≤ k'.length → ∀ a b rest, k = a ++ b → a ≠ [] →
    b ≠ [] → ¬ k' <+: b ++ rest

section Mapped

variable {keys names : List Text} {f : Text → Text}

/-- A key that is replaced after longer ones might as well have been replaced with them. -/
theorem replaceAll_mapLongest {done : List Text} {key : Text} (h : Unmixed (done ++ [key]) names)
    (hf : ∀ k ∈ done, ∃ name ∈ names, f k = reference name) {name : Text}
    (replaced : f key = reference name) (new : key ∉ done)
    (longer : ∀ k ∈ done, key.length ≤ k.length) (t : Text) :
    replaceAll key (reference name) (mapLongest done f t) = mapLongest (done ++ [key]) f t := by
  have old {k : Text} (hk : k ∈ done) : k ∈ done ++ [key] := List.mem_append_left _ hk
  have mem : key ∈ done ++ [key] := List.mem_append_right _ (List.mem_singleton_self key)
  have hne := h.ne_nil key mem
  induction t using longest_steps h.ne_nil with
  | nil => exact replaceAll_nil hne
  | key k hk t longest ih =>
      rw [mapLongest_key (h.ne_nil k hk) hk longest, ← ih]
      rcases List.mem_append.1 hk with before | here
      · obtain ⟨other, named, earlier⟩ := hf k before
        rw [mapLongest_key (h.ne_nil k hk) before fun k' hk' => longest k' (old hk'), earlier]
        apply replaceAll_front hne
        intro a q text hq
        exact h.outside key mem other named q _ hq ⟨a, text.symm⟩
      · obtain rfl := List.mem_singleton.1 here
        rw [mapLongest_front, replaceAll_found hne, replaced]
        intro a q text hq k' hk' start
        cases a with
        | nil =>
            obtain rfl : k = q := text
            have same := (longest k' (old hk') start).antisymm (longer k' hk')
            have equal : k' = k := by
              have taken := List.prefix_iff_eq_take.1 start
              rwa [same, List.take_left] at taken
            exact new (equal ▸ hk')
        | cons c a =>
            exact h.inside k mem k' (old hk') (longer k' hk') (c :: a) q _ text (by simp) hq start
  | char c t copied ih =>
      have others : ∀ k ∈ done, ¬ k <+: c :: t := fun k hk => copied k (old hk)
      rw [mapLongest_cons copied, ← ih, mapLongest_cons others, replaceAll_cons hne]
      intro start
      rw [← mapLongest_cons others] at start
      refine copied key mem (prefix_of_prefix_mapLongest (fun k hk => h.ne_nil k (old hk)) ?_
        (h.apart key mem) start)
      exact fun k hk => .inr ((hf k hk).imp fun _ named => named.2)

theorem Unmixed.mono {keys' : List Text} (h : Unmixed keys names) (sub : keys' ⊆ keys) :
    Unmixed keys' names :=
  ⟨fun k hk => h.ne_nil k (sub hk), fun k hk => h.apart k (sub hk),
    fun k hk => h.outside k (sub hk), fun k hk k' hk' => h.inside k (sub hk) k' (sub hk')⟩

/-- Replacing keys one after another, the longest first, is one pass. -/
theorem foldl_replaceAll {items : List (Text × Text)} (h : Unmixed (items.map Prod.fst) names)
    (distinct : (items.map Prod.fst).Nodup)
    (sorted : items.Pairwise fun a b => b.1.length ≤ a.1.length)
    (hf : ∀ e ∈ items, e.2 ∈ names ∧ f e.1 = reference e.2) (t : Text) :
    items.foldl (fun t e => replaceAll e.1 (reference e.2) t) t =
      mapLongest (items.map Prod.fst) f t := by
  induction items using List.reverseRecOn with
  | nil => exact (mapLongest_of_fixed (by simp) (by simp) t).symm
  | append_singleton items e ih =>
      rw [List.map_append] at h distinct
      rw [List.pairwise_append] at sorted
      rw [List.forall_mem_append, List.forall_mem_singleton] at hf
      rw [List.nodup_append] at distinct
      have front := h.mono (List.subset_append_left _ _)
      rw [List.foldl_append, ih front distinct.1 sorted.1 hf.1, List.map_append]
      refine replaceAll_mapLongest h ?_ hf.2.2 ?_ ?_ t
      · intro k hk
        obtain ⟨e, he, rfl⟩ := List.mem_map.1 hk
        exact ⟨e.2, hf.1 e he⟩
      · exact fun again => distinct.2.2 _ again _ (List.mem_singleton_self _) rfl
      · intro k hk
        obtain ⟨e', he', rfl⟩ := List.mem_map.1 hk
        exact sorted.2.2 e' he' e (List.mem_singleton_self e)

/-- A pass that replaces all keys leaves none. -/
theorem not_infix_mapLongest (h : Unmixed keys names)
    (hf : ∀ k ∈ keys, ∃ name ∈ names, f k = reference name) {key : Text} (mem : key ∈ keys)
    (t : Text) : ¬ key <:+: mapLongest keys f t := by
  induction t using longest_steps h.ne_nil with
  | nil => exact fun inside => h.ne_nil key mem (List.infix_nil.1 inside)
  | key k hk t longest ih =>
      obtain ⟨name, named, replaced⟩ := hf k hk
      rw [mapLongest_key (h.ne_nil k hk) hk longest, replaced]
      intro inside
      have outside (q : Text) := h.outside key mem name named q (mapLongest keys f t)
      exact ih (infix_of_infix_append_of_forall outside inside)
  | char c t copied ih =>
      rw [mapLongest_cons copied]
      intro inside
      rcases List.infix_cons_iff.1 inside with start | later
      · rw [← mapLongest_cons copied] at start
        refine copied key mem (prefix_of_prefix_mapLongest h.ne_nil ?_ (h.apart key mem) start)
        exact fun k hk => .inr ((hf k hk).imp fun _ named => named.2)
      · exact ih later

/-- Keys that are there again, and references in the place of all others. -/
def restored (f : Text → Text) (back : List Text) (k : Text) : Text :=
  if back.contains k then k else f k

theorem restored_of_mem {back : List Text} {k : Text} (h : k ∈ back) : restored f back k = k :=
  if_pos (List.contains_iff_mem.2 h)

theorem restored_of_notMem {back : List Text} {k : Text} (h : k ∉ back) :
    restored f back k = f k := if_neg fun found => h (List.contains_iff_mem.1 found)

theorem eq_of_reference_prefix {name other rest : Text} (hn : ')' ∉ name) (ho : ')' ∉ other)
    (start : reference name <+: reference other ++ rest) : name = other := by
  obtain ⟨back, text⟩ := start
  have inner : name ++ ')' :: back = other ++ ')' :: rest := by
    simpa [reference_append] using text
  have same := congrArg (fun t => (cut ')' t).1) inner
  simpa only [cut_append_cons hn, cut_append_cons ho] using same

/-- The reference to one name starts neither at the reference to another one nor within it. -/
theorem not_reference_prefix_append {name other q : Text} (hn : ')' ∉ name)
    (ho : '(' ∉ other ∧ ')' ∉ other) (differ : name ≠ other) (hq : q ≠ [])
    (hs : q <:+ reference other) (rest : Text) : ¬ reference name <+: q ++ rest := by
  obtain ⟨a, text⟩ := hs
  cases a with
  | nil =>
      obtain rfl : q = reference other := text
      intro start
      have same := eq_of_reference_prefix hn ho.2 start
      exact differ same
  | cons c a =>
      have tail := Apart.of_reference ho.1
      refine tail.not_prefix_append (opening_prefix_reference name) hq ⟨a, ?_⟩ rest
      rw [← List.append_nil (reference other), reference_append] at text
      exact (List.cons.inj text).2

/-- References that are replaced by their key: the pass might as well have kept the key. -/
theorem replaceAll_reference_mapLongest (h : Unmixed keys names)
    (plain : ∀ name ∈ names, '(' ∉ name ∧ ')' ∉ name)
    (hf : ∀ k ∈ keys, ∃ name ∈ names, f k = reference name) {back : List Text} {key name : Text}
    (gone : key ∉ back) (named : name ∈ names) (replaced : f key = reference name)
    (only : ∀ k ∈ keys, f k = reference name → k = key) {t : Text}
    (fresh : ¬ reference name <:+: t) :
    replaceAll (reference name) key (mapLongest keys (restored f back) t) =
      mapLongest keys (restored f (back ++ [key])) t := by
  have hne : reference name ≠ [] := by simp [reference]
  induction t using longest_steps h.ne_nil with
  | nil => exact replaceAll_nil hne
  | key k hk t longest ih =>
      have later := ih fun inside => fresh (inside.trans (List.suffix_append k t).isInfix)
      rw [mapLongest_key (h.ne_nil k hk) hk longest, mapLongest_key (h.ne_nil k hk) hk longest,
        ← later]
      by_cases here : k = key
      · subst here
        rw [restored_of_notMem gone, replaced, replaceAll_found hne, restored_of_mem (by simp)]
      by_cases kept : k ∈ back
      · rw [restored_of_mem kept, restored_of_mem (List.mem_append_left _ kept)]
        apply replaceAll_front hne
        intro a q text hq
        exact (h.apart k hk).not_prefix_append (opening_prefix_reference name) hq ⟨a, text.symm⟩ _
      · obtain ⟨other, hother, earlier⟩ := hf k hk
        have next : k ∉ back ++ [key] := by simp [kept, here]
        rw [restored_of_notMem kept, restored_of_notMem next, earlier]
        have differ : name ≠ other := fun same => here (only k hk (same ▸ earlier))
        apply replaceAll_front hne
        intro a q text hq
        exact not_reference_prefix_append (plain name named).2 (plain other hother) differ hq
          ⟨a, text.symm⟩ _
  | char c t copied ih =>
      have later := ih fun inside => fresh (inside.trans (List.suffix_cons c t).isInfix)
      rw [mapLongest_cons copied, mapLongest_cons copied, ← later, replaceAll_cons hne]
      intro start
      -- the reference without its first letter stands apart from references
      have tail := Apart.of_reference (plain name named).1
      rw [← List.append_nil (reference name), reference_append] at start fresh
      obtain ⟨rfl, inner⟩ := List.cons_prefix_cons.1 start
      refine fresh (List.cons_prefix_cons.2 ⟨rfl, ?_⟩).isInfix
      refine prefix_of_prefix_mapLongest h.ne_nil (fun k hk => ?_) tail inner
      rw [restored]
      split
      · exact .inl rfl
      · exact .inr ((hf k hk).imp fun _ named => named.2)

/-- Replacing the references by their keys one after another gives back the text. -/
theorem foldl_restore {items : List (Text × Text)} (h : Unmixed keys names)
    (plain : ∀ name ∈ names, '(' ∉ name ∧ ')' ∉ name)
    (hf : ∀ k ∈ keys, ∃ name ∈ names, f k = reference name)
    (distinct : (items.map Prod.fst).Nodup)
    (hi : ∀ e ∈ items, e.2 ∈ names ∧ f e.1 = reference e.2 ∧
      ∀ k ∈ keys, f k = reference e.2 → k = e.1) {t : Text}
    (fresh : ∀ e ∈ items, ¬ reference e.2 <:+: t) :
    items.foldl (fun t e => replaceAll (reference e.2) e.1 t) (mapLongest keys f t) =
      mapLongest keys (restored f (items.map Prod.fst)) t := by
  induction items using List.reverseRecOn with
  | nil => rfl
  | append_singleton items e ih =>
      rw [List.forall_mem_append, List.forall_mem_singleton] at hi fresh
      rw [List.map_append, List.nodup_append] at distinct
      have gone : e.1 ∉ items.map Prod.fst :=
        fun again => distinct.2.2 _ again _ (List.mem_singleton_self _) rfl
      rw [List.foldl_append, ih distinct.1 hi.1 fresh.1, List.map_append]
      exact replaceAll_reference_mapLongest h plain hf gone hi.2.1 hi.2.2.1 hi.2.2.2 fresh.2

end Mapped

end DesignTokens.Text
