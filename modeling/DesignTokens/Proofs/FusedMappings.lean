import DesignTokens.Proofs.PassedValues

/-!
Values that are mapped twice. A value that starts with no blank, or that is a single blank, is read
again as it was written, so the second mapping gets what the first one gave and finds everything
else in its place: two mappings are one. Main statement: `Sheet.mapValues_fuse`.
-/
namespace DesignTokens

open Text

namespace Value

/-- Text that is read back as it is after it is written as a value. -/
structure ReadsBack (value : Text) : Prop extends Fits value where
  start : nextIs (!isBlank ·) value ∨ ∃ c, isBlank c ∧ value = [c]

theorem settled_of_start {v : Text} (h : nextIs (!isBlank ·) v ∨ ∃ c, isBlank c ∧ v = [c]) :
    Settled v := by
  rcases h with solid | ⟨c, blank, rfl⟩
  · cases v with
    | nil => cases solid
    | cons c rest => exact settled_cons (by simpa [nextIs] using solid) rest
  · have single : Block.valueOf [c] = [c] := by
      rw [Block.valueOf, trimLeft_eq_nil_iff.2 (by simpa using blank)]
      rfl
    exact single ▸ settled_valueOf (List.cons_ne_nil c [])

theorem start_of_settled {v : Text} (h : Settled v) :
    nextIs (!isBlank ·) v ∨ ∃ c, isBlank c ∧ v = [c] := by
  rw [Settled, Block.valueOf] at h
  split at h
  · rename_i none
    -- all is blank, and the last blank is the value
    have blank := trimLeft_eq_nil_iff.1 none
    have length := congrArg List.length h
    rw [List.length_drop, List.length_cons, Nat.add_sub_cancel, Nat.add_sub_cancel_left] at length
    obtain ⟨c, rfl⟩ := List.length_eq_one_iff.1 length.symm
    exact .inr ⟨c, blank c (by simp), rfl⟩
  · rename_i kept
    left
    rw [← h]
    cases first : trimLeft (' ' :: v) with
    | nil => exact absurd first kept
    | cons c rest => simpa [nextIs] using of_dropWhile_eq_cons first

end Value

open Value

namespace Block

theorem textWith_congr {f g : Text → Text → Text} {b : Block}
    (h : ∀ e ∈ b.entries, f e.property e.value = g e.property e.value) :
    b.textWith f = b.textWith g := by
  rw [textWith, textWith, List.flatMap_congr fun e he => by rw [h e he]]

theorem textWith_withValues (f g : Text → Text → Text) (b : Block) :
    (b.withValues f).textWith g = b.textWith fun property value => g property (f property value) := by
  rw [textWith, textWith, withValues, List.flatMap_map]
  rfl

/-- A body whose values are written anew twice. -/
theorem textWith_read_textWith {f : Text → Text → Text} (g : Text → Text → Text) {body : Text}
    (hf : ∀ e ∈ (read body).entries,
      ';' ∉ f e.property e.value ∧ Settled (f e.property e.value)) :
    (read ((read body).textWith f)).textWith g =
      (read body).textWith fun property value => g property (f property value) := by
  rw [read_textWith f body fun e he => (hf e he).1, textWith_withValues]
  exact textWith_congr fun e he => congrArg _ (hf e he).2

end Block

theorem Declaration.readsBack_of_mem_raw {t : Text} : ∀ d ∈ raw t, ReadsBack d.value :=
  fun d hd => ⟨(infix_of_mem_raw hd).2, start_of_settled (settled_of_mem_raw d hd)⟩

namespace Sheet

theorem mapBodies_mapBodies (f g : Text → Text → Text) (s : Sheet) :
    (s.mapBodies f).mapBodies g = s.mapBodies fun selector body => g selector (f selector body) := by
  simp [mapBodies]

theorem mapBodies_congr {f g : Text → Text → Text} {s : Sheet}
    (h : ∀ entry ∈ s.rules, f (trim entry.2.selector) entry.2.body =
      g (trim entry.2.selector) entry.2.body) : s.mapBodies f = s.mapBodies g := by
  rw [mapBodies, mapBodies, Sheet.mk.injEq]
  refine ⟨List.map_congr_left fun entry he => ?_, rfl⟩
  exact congrArg (fun body => (entry.1, Rule.mk entry.2.selector body)) (h entry he)

theorem mapValues_mapValues_of_readsBack {f : Text → Text → Text → Text}
    (g : Text → Text → Text → Text) {t : Text}
    (hf : ∀ d ∈ Declaration.raw t, ReadsBack (f d.selector d.property d.value)) :
    mapValues g (mapValues f t) =
      mapValues (fun selector property value => g selector property (f selector property value))
        t := by
  rw [mapValues, read_mapValues f t fun d hd => (hf d hd).rule_open, mapBodies_mapBodies]
  refine congrArg text (mapBodies_congr fun entry he => ?_)
  refine Block.textWith_read_textWith _ fun e hentry => ?_
  have back := hf _ (Declaration.mem_raw_of_entry he hentry)
  exact ⟨back.entry_open, settled_of_start back.start⟩

/-- Two mappings of the values of a sheet are one, text for text, if what the first one gives holds
neither `;` nor `}` and starts with no blank or is a single blank. A sheet that is written in normal
form stays as it is. -/
theorem mapValues_fuse {f : Text → Text → Text → Text} (g : Text → Text → Text → Text) {t : Text}
    (hf : ∀ d ∈ Declaration.raw t, ReadsBack (f d.selector d.property d.value)) :
    mapValues g (mapValues f t) =
        mapValues (fun selector property value => g selector property (f selector property value))
          t ∧
      mapValues (fun _ _ value => value) (mapValues (fun _ _ value => value) t) =
        mapValues (fun _ _ value => value) t :=
  ⟨mapValues_mapValues_of_readsBack g hf,
    mapValues_mapValues_of_readsBack _ Declaration.readsBack_of_mem_raw⟩

/-- A sheet with a value of a single blank, and one that ends with a blank and not with a `;`. -/
def blankValue : Text := "a\x7bB : 1;c: ;d:x \x7d".toList

/-- Values that are not blank, with a mark in front. -/
def marked (_ _ value : Text) : Text := if value = [' '] then value else '<' :: value

theorem mapValues_fuse_blankValue :
    (∀ d ∈ Declaration.raw blankValue, ReadsBack (marked d.selector d.property d.value)) ∧
      mapValues (fun _ _ value => value ++ ['>']) (mapValues marked blankValue) =
        "a\x7bB: <1>;c:  >;d: <x >\x7d".toList ∧
      mapValues (fun _ _ value => value) (mapValues (fun _ _ value => value) blankValue) =
        "a\x7bB: 1;c:  ;d: x \x7d".toList := by
  have back : ∀ d ∈ Declaration.raw blankValue,
      ReadsBack (marked d.selector d.property d.value) := by
    intro d hd
    have own := Declaration.readsBack_of_mem_raw d hd
    rw [marked]
    split
    · exact own
    · refine ⟨⟨?_, ?_⟩, .inl rfl⟩
      · simpa using own.entry_open
      · simpa using own.rule_open
  obtain ⟨once, normal⟩ := mapValues_fuse (fun _ _ value => value ++ ['>']) back
  refine ⟨back, once.trans ?_, normal.trans ?_⟩
  · cbv
  · cbv

end Sheet

end DesignTokens
