import DesignTokens.Proofs.FreshNames
import DesignTokens.Proofs.OrderedMaps
import DesignTokens.Proofs.PrintedNumbers

/-!
A series of calls for names, one after another. Each call looks for a name among the endings of its
base name, and the search ends: the endings differ, so the names in use do not reach all of them.
What a call leaves in use are the names that were given so far. Names that are numbered by their
place are never in use when they are asked for. Main statement: `calls_give_fresh`.
-/
namespace DesignTokens

namespace TokenName

variable {base : Text} {used : List Text}

/-! ### The search for a name -/

/-- The search in passes, from a name on and with the next ending: while the name is in use, the
base with that ending is tried. It ends with a result after a number of passes. -/
inductive Searches (base : Text) (used : List Text) : Text → Nat → Nat → Text → Prop
  | free {name : Text} {next : Nat} (free : name ∉ used) : Searches base used name next 0 name
  | taken {name result : Text} {next passes : Nat} (taken : name ∈ used)
      (later : Searches base used (suffixed base next) (next + 1) passes result) :
      Searches base used name next (passes + 1) result

/-- A search has one result, and one number of passes. -/
theorem Searches.unique {name result other : Text} {next passes count : Nat}
    (h : Searches base used name next passes result)
    (ho : Searches base used name next count other) : count = passes ∧ other = result := by
  induction h generalizing count with
  | free free =>
      cases ho with
      | free => exact ⟨rfl, rfl⟩
      | taken taken => exact absurd taken free
  | taken taken _ ih =>
      cases ho with
      | free free => exact absurd taken free
      | taken _ later =>
          obtain ⟨passes, result⟩ := ih later
          exact ⟨congrArg (· + 1) passes, result⟩

theorem Searches.iff {name result : Text} {next passes : Nat}
    (h : Searches base used name next passes result) (count : Nat) (other : Text) :
    Searches base used name next count other ↔ count = passes ∧ other = result := by
  constructor
  · exact h.unique
  · rintro ⟨rfl, rfl⟩
    exact h

theorem searches_suffixed {k : Nat} (n : Nat) (free : suffixed base (n + k) ∉ used)
    (before : ∀ i < k, suffixed base (n + i) ∈ used) :
    Searches base used (suffixed base n) (n + 1) k (suffixed base (n + k)) := by
  induction k generalizing n with
  | zero => exact .free free
  | succ k ih =>
      have next (i : Nat) : n + (i + 1) = n + 1 + i := by omega
      have later (i : Nat) (hi : i < k) : suffixed base (n + 1 + i) ∈ used :=
        next i ▸ before (i + 1) (Nat.succ_lt_succ hi)
      rw [next k] at free ⊢
      have first : suffixed base n ∈ used := before 0 (Nat.succ_pos k)
      exact .taken first (ih (n + 1) free later)

theorem suffixed_ne (base : Text) (n : Nat) : suffixed base n ≠ base := by
  intro same
  have length := congrArg List.length same
  simp only [suffixed, List.length_append, List.length_cons] at length
  omega

/-- A base in use is one more name in use than those with endings. -/
theorem lt_length_of_suffixed_mem {n k : Nat} (taken : base ∈ used)
    (before : ∀ i < k, suffixed base (n + i) ∈ used) : k < used.length := by
  have others : k ≤ (used.erase base).length :=
    le_length_of_suffixed_mem fun i hi =>
      (List.mem_erase_of_ne (suffixed_ne base (n + i))).2 (before i hi)
  have positive := List.length_pos_of_mem taken
  rw [List.length_erase_of_mem taken] at others
  omega

/-- The name that is given for a base name: the base if it is free, and else the base with the
first free ending from 2 on. It is found in at most as many passes as there are names in use. -/
structure Gives (base : Text) (used : List Text) (name : Text) : Prop where
  ends : ∃ passes ≤ used.length, ∀ count result,
    Searches base used base 2 count result ↔ count = passes ∧ result = name
  fresh : name ∉ used
  plain : base ∉ used → name = base
  least : base ∈ used →
    ∃ n, 2 ≤ n ∧ name = suffixed base n ∧ ∀ i, 2 ≤ i → i < n → suffixed base i ∈ used

theorem gives_fresh (base : Text) (used : List Text) : Gives base used (fresh base used) := by
  have new := fresh_notMem base used
  by_cases taken : base ∈ used
  · obtain ⟨k, found, free, before⟩ := firstFree_least base (Nat.le_refl used.length) 2
    rw [fresh, if_pos taken, found] at new ⊢
    have passes : k + 1 ≤ used.length := lt_length_of_suffixed_mem taken before
    have search := Searches.taken taken (searches_suffixed 2 free before)
    refine ⟨⟨k + 1, passes, search.iff⟩, new, fun free => absurd taken free,
      fun _ => ⟨2 + k, by omega, rfl, fun i two less => ?_⟩⟩
    obtain ⟨j, rfl⟩ := Nat.exists_eq_add_of_le two
    exact before j (by omega)
  · rw [fresh, if_neg taken]
    exact ⟨⟨0, Nat.zero_le _, (Searches.free taken).iff⟩, taken, fun _ => rfl,
      fun inUse => absurd inUse taken⟩

/-! ### Calls one after another -/

/-- A call for a name, with the names in use as its state. -/
def call (s : NameScheme) (item : Text × Int) : StateM (List Text) Text := fun used =>
  let name := fresh (s.base item.1 item.2) used
  (name, used ++ [name])

theorem assign_append (s : NameScheme) (used : List Text) (earlier later : List (Text × Int)) :
    assign s used (earlier ++ later) =
      assign s used earlier ++ assign s (used ++ assign s used earlier) later := by
  induction earlier generalizing used with
  | nil => simp only [assign, List.nil_append, List.append_nil]
  | cons item earlier ih =>
      simp only [List.cons_append, assign]
      rw [ih, List.append_assoc used]
      rfl

/-- Calls give the names that are assigned, and put them in use. -/
theorem run_mapM_call (s : NameScheme) (used : List Text) (calls : List (Text × Int)) :
    (calls.mapM (call s)).run used = (assign s used calls, used ++ assign s used calls) := by
  induction calls generalizing used with
  | nil =>
      rw [assign, List.append_nil]
      rfl
  | cons item calls ih =>
      let name := fresh (s.base item.1 item.2) used
      have later := ih (used ++ [name])
      rw [List.append_assoc] at later
      rw [List.mapM_cons, assign]
      change (let rest := (calls.mapM (call s)).run (used ++ [name]); (name :: rest.1, rest.2)) = _
      rw [later]
      rfl

/-- Bases that differ from each other and from the names in use are given as they are. -/
theorem assign_of_nodup {s : NameScheme} {calls : List (Text × Int)}
    (distinct : (used ++ calls.map fun item => s.base item.1 item.2).Nodup) :
    assign s used calls = calls.map fun item => s.base item.1 item.2 := by
  induction calls generalizing used with
  | nil => rfl
  | cons item calls ih =>
      rw [List.map_cons, List.append_cons] at distinct
      have free : s.base item.1 item.2 ∉ used :=
        (List.nodup_append_comm.1 (List.nodup_append.1 distinct).1).notMem
      rw [assign, fresh, if_neg free, ih distinct, List.map_cons]

end TokenName

/-! ### Names by place -/

theorem digitsValue_padNumber (width n : Nat) : Decimal.digitsValue (padNumber width n) = n := by
  have sign : ¬(n : Int) < 0 := by omega
  rw [padNumber, if_neg sign, List.nil_append, Number.digitsValue_zeros_append, Int.natAbs_natCast,
    Number.digitsValue_digits]

namespace NameScheme

variable {s : NameScheme}

theorem base_of_sequential (sequential : s.mode = .sequential) (literal : Text) (index : Int) :
    s.base literal index =
      "--".toList ++ s.start ++ s.separator ++ padNumber s.width (index + 1) := by
  rw [base, sequential]

/-- Places count: what stands behind the separator is read as the number of the place. -/
theorem eq_of_base_eq (sequential : s.mode = .sequential) {literal other : Text} {i j : Nat}
    (same : s.base literal i = s.base other j) : i = j := by
  rw [base_of_sequential sequential, base_of_sequential sequential] at same
  have numbers := congrArg Decimal.digitsValue (List.append_cancel_left same)
  have first := digitsValue_padNumber s.width (i + 1)
  have second := digitsValue_padNumber s.width (j + 1)
  push_cast at first second
  omega

theorem nodup_bases (sequential : s.mode = .sequential) {calls : List (Text × Int)}
    (places : calls.map Prod.snd = (List.range calls.length).map Int.ofNat) :
    (calls.map fun item => s.base item.1 item.2).Nodup := by
  have indices : (calls.map Prod.snd).Nodup := by
    rw [places]
    exact List.nodup_range.map fun _ _ => Int.ofNat.inj
  have isPlace : ∀ item ∈ calls, ∃ i : Nat, item.2 = i := by
    intro item mem
    have index := List.mem_map_of_mem (f := Prod.snd) mem
    rw [places] at index
    obtain ⟨i, -, same⟩ := List.mem_map.1 index
    exact ⟨i, same.symm⟩
  rw [List.Nodup, List.pairwise_map] at indices ⊢
  refine indices.imp_of_mem fun mem mem' different same => different ?_
  obtain ⟨i, hi⟩ := isPlace _ mem
  obtain ⟨j, hj⟩ := isPlace _ mem'
  rw [hi, hj] at same ⊢
  rw [eq_of_base_eq sequential same]

end NameScheme

namespace TokenName

/-- What calls for names do, whatever is asked for. They give the names that are assigned, and these
are what is in use after them. A call after earlier ones searches among the names that those gave,
gives the name of its base, and puts it in use with them. Calls for the places from 0 on give the
numbered names without endings. -/
theorem calls_give_fresh (s : NameScheme) (calls : List (Text × Int)) :
    (calls.mapM (call s)).run [] = (assign s [] calls, assign s [] calls) ∧
    (∀ earlier literal index later, calls = earlier ++ (literal, index) :: later →
      let given := assign s [] earlier
      ∃ name, (earlier.mapM (call s)).run [] = (given, given) ∧
        (call s (literal, index)).run given = (name, given ++ [name]) ∧
        given ++ [name] <+: assign s [] calls ∧ given.length = earlier.length ∧
        Gives (s.base literal index) given name) ∧
    (s.mode = .sequential → calls.map Prod.snd = (List.range calls.length).map Int.ofNat →
      assign s [] calls = calls.map fun item => s.base item.1 item.2) := by
  refine ⟨run_mapM_call s [] calls, ?_, fun sequential places =>
    assign_of_nodup (NameScheme.nodup_bases sequential places)⟩
  rintro earlier literal index later rfl given
  let name := fresh (s.base literal index) given
  have whole : assign s [] (earlier ++ (literal, index) :: later) =
      given ++ [name] ++ assign s (given ++ [name]) later := by
    rw [assign_append, List.append_assoc]
    rfl
  refine ⟨name, run_mapM_call s [] earlier, rfl, ?_, TokenName.length_assign s [] earlier,
    gives_fresh _ _⟩
  rw [whole]
  exact List.prefix_append _ _

/-- Numbered names of spacings. -/
def spaceScheme : NameScheme := { start := "space".toList }

/-- The third call for one place comes after two others, and two places are numbered in turn. -/
theorem calls_give_fresh_twoPlaces :
    (let given := assign spaceScheme [] [("8px".toList, 0), ("8px".toList, 0)]
      ∃ name, ([("8px".toList, 0), ("8px".toList, 0)].mapM (call spaceScheme)).run [] =
          (given, given) ∧
        (call spaceScheme ("4px".toList, 0)).run given = (name, given ++ [name]) ∧
        given ++ [name] <+: assign spaceScheme []
          [("8px".toList, 0), ("8px".toList, 0), ("4px".toList, 0), ("2px".toList, 1)] ∧
        given.length = 2 ∧ Gives (spaceScheme.base "4px".toList 0) given name) ∧
    assign spaceScheme [] [("8px".toList, 0), ("4px".toList, 1)] =
      ["--space-1".toList, "--space-2".toList] := by
  have third := (calls_give_fresh spaceScheme
    [("8px".toList, 0), ("8px".toList, 0), ("4px".toList, 0), ("2px".toList, 1)]).2.1
    [("8px".toList, 0), ("8px".toList, 0)] "4px".toList 0 [("2px".toList, 1)] rfl
  have numbered :=
    (calls_give_fresh spaceScheme [("8px".toList, 0), ("4px".toList, 1)]).2.2 rfl rfl
  refine ⟨third, numbered.trans ?_⟩
  decide

end TokenName

end DesignTokens
