import DesignTokens.Proofs.TextCuts
import DesignTokens.Reference.Basic

/-!
The references in a text, from left to right: for each opening the name that a reference has there,
or none if what follows is not a whole reference. A text is intact if every opening is that of a
reference. Characters that are part of no reference cut a text into parts with references of their
own.
-/
namespace DesignTokens

namespace TokenName

/-- Characters of the names that tokens are given. -/
def isPart (c : Char) : Bool := c == '-' || c.isDigit || c.isLower

structure Valid (name : Text) : Prop where
  parts : ∀ c ∈ name, isPart c
  dashes : ['-', '-'] <+: name

theorem Valid.ne_nil {name : Text} (h : Valid name) : name ≠ [] := by
  rintro rfl
  obtain ⟨tail, empty⟩ := h.dashes
  cases empty

theorem Valid.notMem {name : Text} (h : Valid name) {c : Char} (hc : isPart c = false) :
    c ∉ name := by
  intro mem
  rw [h.parts c mem] at hc
  cases hc

/-- Characters that no reference has. -/
def separates (c : Char) : Bool := !isPart c && c != '(' && c != ')'

end TokenName

namespace TokenMap

variable {m : TokenMap}

theorem mem_byLength {e : Text × Text} : e ∈ m.byLength ↔ e ∈ m.entries :=
  (List.mergeSort_perm _ _).mem_iff

theorem pairwise_byLength : m.byLength.Pairwise fun a b => b.1.length ≤ a.1.length := by
  refine (List.pairwise_mergeSort ?_ ?_ m.entries).imp fun h => by simpa using h
  · intro a b c
    simp only [decide_eq_true_eq]
    exact fun h h' => h'.trans h
  · intro a b
    simpa using Nat.le_total b.1.length a.1.length

end TokenMap

namespace Text

/-- How every reference starts. -/
def opening : Text := ['v', 'a', 'r', '(']

end Text

open Text TokenName

/-- The name of a reference of which the opening is read. -/
def nameAt? (names : List Text) (t : Text) : Option Text :=
  names.find? fun name => (name ++ [')']).isPrefixOf t

/-- The names of all references in a text, with `none` for an opening that starts none. -/
def references (names : List Text) : Text → List (Option Text)
  | [] => []
  | c :: rest =>
    if opening.isPrefixOf (c :: rest) then nameAt? names (rest.drop 3) :: references names rest
    else references names rest

/-- Every opening is that of a reference. -/
def Intact (names : List Text) (t : Text) : Prop := none ∉ references names t

/-- The new text is intact and has all references of the old one, in their order. -/
structure Keeps (names : List Text) (old new : Text) : Prop where
  intact : Intact names new
  sublist : (references names old).Sublist (references names new)

variable {names : List Text}

@[simp] theorem references_nil : references names [] = [] := rfl

theorem references_cons_of_opening {c : Char} {rest : Text} (h : opening <+: c :: rest) :
    references names (c :: rest) = nameAt? names (rest.drop 3) :: references names rest := by
  rw [references, if_pos (by simpa using h)]

theorem references_cons_of_not {c : Char} {rest : Text} (h : ¬ opening <+: c :: rest) :
    references names (c :: rest) = references names rest := by
  rw [references, if_neg (by simpa using h)]

theorem references_eq_nil_iff {t : Text} : references names t = [] ↔ ¬ opening <:+: t := by
  induction t with
  | nil => simp [references, opening]
  | cons c rest ih =>
      rw [List.infix_cons_iff, not_or]
      by_cases h : opening <+: c :: rest
      · simp [references_cons_of_opening h, h]
      · simp [references_cons_of_not h, h, ih]

theorem intact_nil_iff {t : Text} : Intact [] t ↔ ¬ opening <:+: t := by
  rw [Intact, ← @references_eq_nil_iff []]
  have unnamed : ∀ o ∈ references [] t, o = none := by
    induction t with
    | nil => simp
    | cons c rest ih =>
        rw [references]
        split
        · simpa [nameAt?] using ih
        · exact ih
  constructor
  · intro h
    refine List.eq_nil_iff_forall_not_mem.2 fun o ho => h ?_
    exact unnamed o ho ▸ ho
  · intro h
    simp [h]

theorem isSome_nameAt?_iff {t : Text} :
    (nameAt? names t).isSome ↔ ∃ name ∈ names, name ++ [')'] <+: t := by
  simp [nameAt?, List.isPrefixOf_iff_prefix]

/-- A text is intact if a name and a `)` follow every opening. -/
theorem intact_iff {t : Text} : Intact names t ↔ ∀ front rest, t = front ++ (opening ++ rest) →
    ∃ name ∈ names, name ++ [')'] <+: rest := by
  induction t with
  | nil => simp [Intact, opening]
  | cons c t ih =>
      have shift : (∀ front rest, c :: t = front ++ (opening ++ rest) →
          ∃ name ∈ names, name ++ [')'] <+: rest) ↔
            (∀ rest, c :: t = opening ++ rest → ∃ name ∈ names, name ++ [')'] <+: rest) ∧
              Intact names t := by
        rw [ih]
        constructor
        · exact fun h => ⟨h [], fun front rest he => h (c :: front) rest (by simp [he])⟩
        · rintro ⟨first, later⟩ front rest he
          cases front with
          | nil => exact first rest he
          | cons d front => exact later front rest (List.cons.inj he).2
      rw [shift]
      by_cases h : opening <+: c :: t
      · obtain ⟨s, hs⟩ := h
        obtain ⟨rfl, rfl⟩ : c = 'v' ∧ t = ['a', 'r', '('] ++ s := by
          simpa [opening, eq_comm] using hs
        rw [Intact, references_cons_of_opening ⟨s, hs⟩, List.mem_cons, not_or, ← hs]
        have found : none ≠ nameAt? names s ↔ ∃ name ∈ names, name ++ [')'] <+: s := by
          rw [← isSome_nameAt?_iff, Option.isSome_iff_ne_none, ne_comm]
        refine and_congr (found.trans ?_) Iff.rfl
        exact ⟨fun h rest he => List.append_cancel_left he ▸ h, fun h => h s rfl⟩
      · rw [Intact, references_cons_of_not h]
        exact ⟨fun later => ⟨fun rest he => absurd ⟨rest, he.symm⟩ h, later⟩, fun h => h.2⟩

theorem nameAt?_append {s b : Text}
    (h : ∀ name ∈ names, name ++ [')'] <+: s ++ b → name ++ [')'] <+: s) :
    nameAt? names (s ++ b) = nameAt? names s := by
  unfold nameAt?
  induction names with
  | nil => rfl
  | cons name names ih =>
      have first : (name ++ [')']).isPrefixOf (s ++ b) = (name ++ [')']).isPrefixOf s := by
        rw [Bool.eq_iff_iff, List.isPrefixOf_iff_prefix, List.isPrefixOf_iff_prefix]
        exact ⟨h name (by simp), fun hp => hp.trans (List.prefix_append _ _)⟩
      rw [List.find?_cons, List.find?_cons, first, ih fun n hn => h n (by simp [hn])]

/-- Two texts in a row have the references of both if no opening and no name goes from the first
into the second. -/
theorem references_append {a b : Text}
    (hopen : ∀ s, s ≠ [] → s <:+ a → opening <+: s ++ b → opening <+: s)
    (hname : ∀ s, opening ++ s <:+ a → ∀ name ∈ names, name ++ [')'] <+: s ++ b →
      name ++ [')'] <+: s) :
    references names (a ++ b) = references names a ++ references names b := by
  induction a with
  | nil => rfl
  | cons c a ih =>
      have others := ih (fun s hne hs => hopen s hne (hs.trans (List.suffix_cons c a)))
        fun s hs => hname s (hs.trans (List.suffix_cons c a))
      by_cases h : opening <+: c :: a
      · obtain ⟨s, hs⟩ := h
        obtain ⟨rfl, rfl⟩ : c = 'v' ∧ a = ['a', 'r', '('] ++ s := by
          simpa [opening, eq_comm] using hs
        have name := nameAt?_append (hname s ⟨[], hs⟩)
        rw [references_cons_of_opening ⟨s, hs⟩, List.cons_append,
          references_cons_of_opening ⟨s ++ b, by simp [opening]⟩, others]
        simp [name]
      · have also : ¬ opening <+: c :: (a ++ b) := fun hp =>
          h (hopen (c :: a) (by simp) (List.suffix_refl _) hp)
        rw [references_cons_of_not h, List.cons_append, references_cons_of_not also, others]

theorem reference_append (name b : Text) :
    reference name ++ b = 'v' :: 'a' :: 'r' :: '(' :: (name ++ ')' :: b) := by
  have text : "var(".toList = ['v', 'a', 'r', '('] := by decide
  simp [reference, text]

theorem opening_prefix_reference (name : Text) : opening <+: reference name :=
  ⟨name ++ [')'], by simp [reference, opening]⟩

theorem isSolid_reference (name : Text) : IsSolid (reference name) := by
  refine ⟨by simp [reference], ?_, ?_⟩
  · rintro c ⟨⟩
    rfl
  · intro c hc
    have last : (reference name).getLast? = some ')' := List.getLast?_concat
    rw [last] at hc
    cases hc
    rfl

theorem notMem_opening {c : Char} (h : separates c) : c ∉ opening := by
  intro hc
  have parts : ∀ c ∈ opening, separates c = false := List.forall_iff_forall_mem.1 (by decide)
  simp [parts c hc] at h

section Names

variable (hn : ∀ name ∈ names, TokenName.Valid name)
include hn

theorem notMem_name {name : Text} (hname : name ∈ names) {c : Char} (hc : isPart c = false) :
    c ∉ name := (hn name hname).notMem hc

theorem notMem_reference {name : Text} (hname : name ∈ names) {c : Char} (hc : separates c) :
    c ∉ reference name := by
  have text : reference name = opening ++ (name ++ [')']) := by simp [reference, opening]
  have outside := notMem_opening hc
  simp only [separates, Bool.and_eq_true, Bool.not_eq_true', bne_iff_ne] at hc
  have inside : c ∉ name := notMem_name hn hname hc.1.1
  simp [text, outside, inside, hc.2]

/-- A reference begins anew: what stands before it keeps its references. -/
theorem references_append_reference (a name b : Text) :
    references names (a ++ (reference name ++ b)) =
      references names a ++ references names (reference name ++ b) := by
  rw [reference_append]
  refine references_append ?_ ?_
  · intro s hne _ hp
    obtain ⟨d, s, rfl⟩ := List.exists_cons_of_ne_nil hne
    rw [opening, List.cons_append, List.cons_prefix_cons, prefix_append_cons_iff (by decide)] at hp
    exact List.cons_prefix_cons.2 hp
  · intro s _ other hother hp
    have bracket : '(' ∉ other ++ [')'] := by simpa using notMem_name hn hother (c := '(') rfl
    have regroup : s ++ 'v' :: 'a' :: 'r' :: '(' :: (name ++ ')' :: b) =
      (s ++ ['v', 'a', 'r']) ++ '(' :: (name ++ ')' :: b) := by simp
    rw [regroup, prefix_append_cons_iff bracket] at hp
    exact prefix_of_prefix_append (by decide) hp

/-- At a character that no reference has, references end. -/
theorem references_append_cons (a b : Text) {c : Char} (hc : separates c) :
    references names (a ++ c :: b) = references names a ++ references names b := by
  have notOpening := notMem_opening hc
  have ends : references names (c :: b) = references names b := by
    refine references_cons_of_not fun hp => ?_
    obtain ⟨rfl, -⟩ := List.cons_prefix_cons.1 hp
    exact notOpening (by decide)
  rw [← ends]
  refine references_append ?_ ?_
  · intro s _ _ hp
    exact (prefix_append_cons_iff notOpening).1 hp
  · intro s _ name hname hp
    refine (prefix_append_cons_iff ?_).1 hp
    simp only [separates, Bool.and_eq_true, Bool.not_eq_true', bne_iff_ne] at hc
    simpa [hc.2] using notMem_name hn hname hc.1.1

omit hn in
/-- No reference starts between an opening and the end of its reference. -/
theorem references_append_close {s : Text} (hs : '(' ∉ s) (b : Text) :
    references names (s ++ ')' :: b) = references names b := by
  induction s with
  | nil => exact references_cons_of_not fun hp => absurd (List.cons_prefix_cons.1 hp).1 (by decide)
  | cons c s ih =>
      have plain : ¬ opening <+: c :: (s ++ ')' :: b) := by
        rw [← List.cons_append, prefix_append_cons_iff (by decide)]
        intro hp
        exact hs (hp.subset (by decide))
      rw [List.cons_append, references_cons_of_not plain, ih fun h => hs (by simp [h])]

theorem nameAt?_name {name : Text} (hname : name ∈ names) (b : Text) :
    nameAt? names (name ++ ')' :: b) = some name := by
  have found : (nameAt? names (name ++ ')' :: b)).isSome :=
    isSome_nameAt?_iff.2 ⟨name, hname, by simp⟩
  obtain ⟨other, ho⟩ := Option.isSome_iff_exists.1 found
  have close {n : Text} (h : n ∈ names) : ')' ∉ n := notMem_name hn h rfl
  have isPrefix : (other ++ [')']).isPrefixOf (name ++ ')' :: b) :=
    List.find?_some (p := fun n : Text => (n ++ [')']).isPrefixOf (name ++ ')' :: b)) ho
  obtain ⟨rest, hrest⟩ := List.isPrefixOf_iff_prefix.1 isPrefix
  rw [List.append_assoc, List.singleton_append] at hrest
  have same := cut_append_cons (close (List.mem_of_find?_eq_some ho)) rest
  rw [hrest, cut_append_cons (close hname)] at same
  rw [ho, (Prod.mk.inj same).1]

theorem references_reference_append {name : Text} (hname : name ∈ names) (b : Text) :
    references names (reference name ++ b) = some name :: references names b := by
  have bracket : '(' ∉ name := notMem_name hn hname rfl
  rw [reference_append, references_cons_of_opening (by simp [opening])]
  simp [references_cons_of_not, opening, references_append_close bracket,
    nameAt?_name hn hname]

theorem intact_reference_append_iff {name : Text} (hname : name ∈ names) (b : Text) :
    Intact names (reference name ++ b) ↔ Intact names b := by
  simp [Intact, references_reference_append hn hname]

theorem intact_append_cons_iff (a b : Text) {c : Char} (hc : separates c) :
    Intact names (a ++ c :: b) ↔ Intact names a ∧ Intact names b := by
  simp [Intact, references_append_cons hn a b hc]

/-- Induction over an intact text: a reference is read as a whole. -/
theorem Intact.induction {P : Text → Prop} (nil : P [])
    (char : ∀ c rest, ¬ opening <+: c :: rest → Intact names rest → P rest → P (c :: rest))
    (use : ∀ name rest, name ∈ names → Intact names rest → P rest → P (reference name ++ rest))
    {t : Text} (ht : Intact names t) : P t := by
  match t with
  | [] => exact nil
  | c :: rest =>
      by_cases h : opening <+: c :: rest
      · obtain ⟨s, hs⟩ := h
        obtain ⟨rfl, rfl⟩ : c = 'v' ∧ rest = ['a', 'r', '('] ++ s := by
          simpa [opening, eq_comm] using hs
        cases hname : nameAt? names s with
        | none =>
            rw [Intact, references_cons_of_opening ⟨s, hs⟩] at ht
            simp [hname] at ht
        | some name =>
            have isPrefix : (name ++ [')']).isPrefixOf s :=
              List.find?_some (p := fun n : Text => (n ++ [')']).isPrefixOf s) hname
            have mem := List.mem_of_find?_eq_some hname
            obtain ⟨rest, rfl⟩ := List.isPrefixOf_iff_prefix.1 isPrefix
            have text : 'v' :: (['a', 'r', '('] ++ (name ++ [')'] ++ rest)) =
              reference name ++ rest := by simp [reference_append]
            rw [text, intact_reference_append_iff hn mem] at ht
            rw [text]
            exact use name rest mem ht (Intact.induction nil char use ht)
      · rw [Intact, references_cons_of_not h] at ht
        exact char c rest h ht (Intact.induction nil char use ht)
termination_by t.length

theorem references_of_notMem {t : Text} (ht : Intact names t) (h : ')' ∉ t) : references names t = [] := by
  refine Intact.induction hn (P := fun t => ')' ∉ t → references names t = []) ?_ ?_ ?_ ht h
  · exact fun _ => rfl
  · intro c rest hc _ ih h
    rw [references_cons_of_not hc]
    exact ih fun hr => h (by simp [hr])
  · intro name rest _ _ _ h
    exact absurd (by simp [reference_append]) h

/-- The references of an intact text are over before an end without a `)`. -/
theorem references_append_of_notMem {a b : Text} (ht : Intact names (a ++ b)) (h : ')' ∉ b) :
    references names (a ++ b) = references names a := by
  generalize he : a ++ b = t at ht
  refine Intact.induction hn (P := fun t => ∀ a, a ++ b = t →
    references names t = references names a) ?_ ?_ ?_ ht a he
  · intro a he
    obtain ⟨rfl, -⟩ := List.append_eq_nil_iff.1 he
    rfl
  · intro c rest hc hrest ih a he
    cases a with
    | nil =>
        have whole : Intact names (c :: rest) := by
          rw [Intact, references_cons_of_not hc]
          exact hrest
        subst he
        exact references_of_notMem hn whole h
    | cons d a =>
        obtain ⟨rfl, rfl⟩ := List.cons.inj he
        have shorter : ¬ opening <+: d :: a := fun hp =>
          hc (hp.trans (List.prefix_append (d :: a) b))
        rw [references_cons_of_not hc, references_cons_of_not shorter, ih a rfl]
  · intro name rest hname hrest ih a he
    rcases List.append_eq_append_iff.1 he with ⟨as, text, hb⟩ | ⟨bs, ha, hb⟩
    · cases as with
      | nil =>
          have whole := ih [] (by simpa using hb)
          rw [List.append_nil] at text
          rw [← text, references_reference_append hn hname, whole]
          have alone := references_reference_append hn hname []
          rw [List.append_nil] at alone
          rw [alone]
      | cons c as =>
          refine absurd ?_ h
          have last : (reference name).getLast? = some ')' := by
            rw [reference, List.getLast?_concat]
          rw [text, List.getLast?_append_cons] at last
          rw [hb]
          exact List.mem_append_left _ (List.mem_of_getLast? last)
    · subst ha
      rw [references_reference_append hn hname, references_reference_append hn hname, ih bs hb.symm]

namespace Keeps

omit hn in
theorem refl {t : Text} (h : Intact names t) : Keeps names t t := ⟨h, List.Sublist.refl _⟩

omit hn in
theorem trans {t u v : Text} (h : Keeps names t u) (k : Keeps names u v) : Keeps names t v :=
  ⟨k.intact, h.sublist.trans k.sublist⟩

theorem append_cons {a a' b b' : Text} {c : Char} (hc : separates c) (ha : Keeps names a a')
    (hb : Keeps names b b') : Keeps names (a ++ c :: b) (a' ++ c :: b') := by
  constructor
  · exact (intact_append_cons_iff hn a' b' hc).2 ⟨ha.intact, hb.intact⟩
  · rw [references_append_cons hn a b hc, references_append_cons hn a' b' hc]
    exact ha.sublist.append hb.sublist

end Keeps

end Names

end DesignTokens
