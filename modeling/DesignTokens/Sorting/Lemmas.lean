import DesignTokens.Sorting.Adaptive

/-!
Sorting only moves items: every step gives a permutation of what it takes (`sort_perm`), whatever
the comparison is.
-/
namespace DesignTokens.Sorting

variable {α : Type}

theorem insert_perm (less : α → α → Bool) (run : List α) (x : α) :
    (insert less run x).Perm (x :: run) := by
  simp only [insert]
  exact List.perm_middle.trans (by rw [List.take_append_drop])

theorem foldl_insert_perm (less : α → α → Bool) (run items : List α) :
    (items.foldl (insert less) run).Perm (run ++ items) := by
  induction items generalizing run with
  | nil => simp
  | cons x items ih =>
      refine (ih _).trans ?_
      exact ((insert_perm less run x).append_right items).trans List.perm_middle.symm

theorem goesOn_append (step : α → α → Bool) (before : α) (items : List α) :
    (goesOn step before items).1 ++ (goesOn step before items).2 = items := by
  induction items generalizing before with
  | nil => rfl
  | cons x items ih =>
      simp only [goesOn]
      split
      · simp [ih]
      · rfl

theorem cutRun_perm (less : α → α → Bool) (items : List α) :
    ((cutRun less items).1 ++ (cutRun less items).2).Perm items := by
  fun_cases cutRun less items with
  | case1 => exact .refl _
  | case2 => exact .refl _
  | case3 x y rest _ run _ h =>
      have hr := goesOn_append (fun a b => less b a) y rest
      rw [h] at hr
      refine ((List.reverse_perm _).append_right _).trans ?_
      simp [← hr]
  | case4 x y rest _ run _ h =>
      have hr := goesOn_append (fun a b => !less b a) y rest
      rw [h] at hr
      simp [← hr]

theorem runsUpTo_perm (less : α → α → Bool) (least count : Nat) (items : List α) :
    (runsUpTo less least count items).flatten.Perm items := by
  induction count generalizing items with
  | zero => cases items <;> simp [runsUpTo]
  | succ count ih =>
      cases items with
      | nil => simp [runsUpTo]
      | cons x items =>
          simp only [runsUpTo, List.flatten_cons]
          refine ((foldl_insert_perm less _ _).append (ih _)).trans ?_
          rw [List.append_assoc, List.take_append_drop]
          exact cutRun_perm less (x :: items)

theorem runs_perm (less : α → α → Bool) (items : List α) :
    (runs less items).flatten.Perm items := runsUpTo_perm less _ _ items

namespace Progress

/-- All items of a merge: those given out and those left. -/
def all : Progress α → List α
  | complete items => items
  | partly items _ eager patient => items ++ (eager ++ patient)

end Progress

theorem takePatient_perm (d : Direction α) (eager patient : List α) :
    (takePatient d eager patient).all.Perm (eager ++ patient) := by
  cases eager with
  | nil => simp [takePatient, Progress.all]
  | cons e eager =>
      simp only [takePatient]
      generalize gallop _ d.reversed patient = k
      have hk := List.take_append_drop k patient
      split
      · rename_i h
        rw [h, List.append_nil] at hk
        simp only [Progress.all, hk]
        exact List.perm_append_comm
      · rename_i last _ h
        rw [h] at hk
        simp only [Progress.all]
        conv => rhs; rw [← hk]
        rw [List.append_assoc]
        exact List.perm_append_comm_assoc _ _ _
      · rename_i rest _ _
        simp only [Progress.all]
        conv => rhs; rw [← hk]
        exact List.perm_middle
      · simp only [Progress.all]
        conv => rhs; rw [← hk]
        simp only [List.append_assoc, List.cons_append, List.nil_append]
        exact List.perm_middle.trans ((List.perm_append_comm_assoc _ _ _).cons _)

theorem takeEager_perm (d : Direction α) (eager patient : List α) :
    (takeEager d eager patient).all.Perm (eager ++ patient) := by
  cases patient with
  | nil => simp [takeEager, Progress.all]
  | cons p patient =>
      simp only [takeEager]
      generalize gallop _ d.reversed eager = k
      have hk := List.take_append_drop k eager
      split
      · rename_i h
        rw [h, List.append_nil] at hk
        simp only [Progress.all, hk]
        exact .refl _
      · simp only [Progress.all]
        conv => rhs; rw [← hk]
        rw [List.append_assoc]
        exact (List.perm_append_singleton p _).symm.append_left _
      · simp only [Progress.all]
        conv => rhs; rw [← hk]
        simp only [List.append_assoc, List.cons_append]
        exact List.perm_middle.symm.append_left _
      · simp only [Progress.all]
        conv => rhs; rw [← hk]
        simp only [List.append_assoc, List.cons_append, List.nil_append]
        exact List.perm_middle.symm.append_left _

theorem andThen_perm {next : List α → List α → Progress α}
    (h : ∀ eager patient, (next eager patient).all.Perm (eager ++ patient)) (p : Progress α) :
    (p.andThen next).all.Perm p.all := by
  cases p with
  | complete items => exact .refl _
  | partly items taken eager patient =>
      have hp := (h eager patient).append_left items
      simp only [Progress.andThen]
      split
      · rename_i hn
        simpa [Progress.all, hn] using hp
      · rename_i hn
        simpa [Progress.all, hn] using hp

theorem takeBoth_perm (d : Direction α) (eager patient : List α) :
    (takeBoth d eager patient).all.Perm (eager ++ patient) := by
  simp only [takeBoth]
  split
  · exact (andThen_perm (takePatient_perm d) _).trans (takeEager_perm d _ _)
  · exact (andThen_perm (takeEager_perm d) _).trans (takePatient_perm d _ _)

theorem mergeRounds_perm (d : Direction α) (rounds patience : Nat) (mode : Mode)
    (eager patient : List α) :
    (mergeRounds d rounds patience mode eager patient).1.Perm (eager ++ patient) := by
  induction rounds generalizing patience mode eager patient with
  | zero => simp [mergeRounds]
  | succ rounds ih =>
      cases mode with
      | stretches =>
          have h := takeBoth_perm d eager patient
          simp only [mergeRounds]
          split
          · rename_i hb
            simpa [hb, Progress.all] using h
          · rename_i hb
            rw [hb] at h
            refine .trans ?_ h
            simp only [Progress.all]
            split <;> exact (ih _ _ _ _).append_left _
      | single eagerCount patientCount =>
          cases eager with
          | nil => simp [mergeRounds]
          | cons e eager =>
              cases patient with
              | nil => simp [mergeRounds]
              | cons p patient =>
                  have swap : (p :: (e :: eager ++ patient)).Perm (e :: eager ++ p :: patient) :=
                    List.perm_middle.symm
                  simp only [mergeRounds]
                  split
                  · split
                    · rename_i he
                      simp [List.isEmpty_iff.1 he]
                    · split <;> exact (ih _ _ _ _).cons e
                  · split
                    · exact swap
                    · split <;> exact ((ih _ _ _ _).cons p).trans swap

theorem mergeToward_perm (d : Direction α) (patience : Nat) (eager patient : List α) :
    (mergeToward d patience eager patient).1.Perm (eager ++ patient) := by
  simp only [mergeToward]
  split
  · exact .refl _
  · exact .refl _
  · exact (mergeRounds_perm d _ _ _ _ _).cons _
  · exact .refl _

theorem merge_perm (less : α → α → Bool) (patience : Nat) (left right : List α) :
    (merge less patience left right).1.Perm (left ++ right) := by
  have sides (k m : Nat) (right : List α) :
      left.take k ++ (left.drop k ++ right.take m) ++ right.drop m = left ++ right := by
    simp only [← List.append_assoc, List.take_append_drop]
    rw [List.append_assoc, List.take_append_drop]
  simp only [merge]
  split
  · generalize gallop _ false left = k
    generalize gallop _ true _ = m
    generalize (_ - m) = m
    split
    · exact .refl _
    · rw [← sides k m]
      split
      · refine (List.Perm.append_left _ ?_).append_right _
        exact (mergeToward_perm _ _ _ _).trans List.perm_append_comm
      · refine (List.Perm.append_left _ ?_).append_right _
        refine (List.reverse_perm _).trans ((mergeToward_perm _ _ _ _).trans ?_)
        exact (List.reverse_perm _).append (List.reverse_perm _)
  · exact .refl _

/-- The items of the waiting runs, the last run first. -/
def waitingItems (waiting : List (Pending α)) : List α := waiting.flatMap Pending.run

theorem collapse_perm (less : α → α → Bool) (depth patience : Nat) (waiting : List (Pending α)) :
    (waitingItems (collapse less depth patience waiting).1).Perm (waitingItems waiting) := by
  fun_induction collapse less depth patience waiting with
  | case1 patience last before others _ run _ hm ih =>
      refine ih.trans ?_
      have h := merge_perm less patience before.run last.run
      simp only [hm] at h
      simp only [waitingItems, List.flatMap_cons, ← List.append_assoc]
      exact (h.trans List.perm_append_comm).append_right _
  | case2 => exact .refl _
  | case3 => exact .refl _

theorem push_perm (less : α → α → Bool) (n : Nat) (state : List (Pending α) × Nat) (run : List α) :
    (waitingItems (push less n state run).1).Perm (run ++ waitingItems state.1) := by
  obtain ⟨waiting, patience⟩ := state
  cases waiting with
  | nil => simp [push, waitingItems]
  | cons last others =>
      simp only [push]
      generalize borderDepth _ _ _ _ = depth
      have h := (collapse_perm less depth patience (last :: others)).append_left run
      split
      · rename_i hc
        simpa [waitingItems, hc] using h
      · rename_i hc
        simpa [waitingItems, hc] using h

theorem foldl_push_perm (less : α → α → Bool) (n : Nat) (state : List (Pending α) × Nat)
    (runs : List (List α)) :
    (waitingItems (runs.foldl (push less n) state).1).Perm
      (runs.flatten ++ waitingItems state.1) := by
  induction runs generalizing state with
  | nil => simp
  | cons run runs ih =>
      refine (ih _).trans (((push_perm less n state run).append_left _).trans ?_)
      simp only [List.flatten_cons, List.append_assoc]
      exact List.perm_append_comm_assoc _ _ _

theorem mergeAll_perm (less : α → α → Bool) (patience : Nat) (waiting : List (Pending α)) :
    (mergeAll less patience waiting).Perm (waitingItems waiting) := by
  fun_induction mergeAll less patience waiting with
  | case1 => exact .refl _
  | case2 => simp [waitingItems]
  | case3 patience last before =>
      simpa [waitingItems] using (merge_perm less patience _ _).trans List.perm_append_comm
  | case4 patience last before first others _ run _ hm ih =>
      refine ih.trans ?_
      have h := merge_perm less patience first.run before.run
      simp only [hm] at h
      simp only [waitingItems, List.flatMap_cons]
      refine List.Perm.append_left _ ?_
      rw [← List.append_assoc]
      exact (h.trans List.perm_append_comm).append_right _
  | case5 patience last before first others _ run _ hm ih =>
      refine ih.trans ?_
      have h := merge_perm less patience before.run last.run
      simp only [hm] at h
      simp only [waitingItems, List.flatMap_cons]
      rw [← List.append_assoc last.run]
      exact (h.trans List.perm_append_comm).append_right _

theorem sort_perm (less : α → α → Bool) (items : List α) : (sort less items).Perm items := by
  simp only [sort]
  refine (mergeAll_perm less _ _).trans ((foldl_push_perm less _ _ _).trans ?_)
  simpa [waitingItems] using runs_perm less items

end DesignTokens.Sorting
