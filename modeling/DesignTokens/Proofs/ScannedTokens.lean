import DesignTokens.Proofs.CountedTokens
import DesignTokens.Proofs.LoneLiterals
import Mathlib

/-!
Recognizers of the texts of a kind. What is taken is a text of the kind whose neighbours are not in
the way, so two such recognizers differ in the kind and in the neighbours that they look at. They
find nothing in a reference, and blanks at the end of a text do not matter to them.
-/
namespace DesignTokens.Text

open Spares

/-- A text that starts like a name or a number, but unlike a reference and unlike its name. -/
structure Begins (t : Text) : Prop where
  joins : t.head?.any Length.joinsNext
  other : t.head? ≠ some 'v'
  dashes : ∀ rest, ¬ ['-', '-'] <+: t ++ rest

/-- A recognizer of the texts of a kind, between neighbours that are not in the way. -/
structure Scans (r : Recognizer) (kind : Text → Prop) (p q : Char → Bool) : Prop where
  iff : ∀ before t n, r before t = some n ↔ ∃ token rest, t = token ++ rest ∧ token.length = n ∧
    kind token ∧ before.any p = false ∧ nextIs q rest = false
  begins : ∀ token, kind token → Begins token

/-- No token of a recognizer starts inside of a token, whatever follows it. -/
def Inside (r : Recognizer) (token : Text) : Prop :=
  ∀ a b rest, token = a ++ b → a ≠ [] → b ≠ [] → r a.getLast? (b ++ rest) = none

/-- The tokens that stand alone. -/
def aloneToken (r : Recognizer) : Recognizer := fun before t =>
  (r before t).filter fun n => standsAlone before (t.drop n)

/-- What one recognizer takes, or else another one. -/
def eitherToken (r r' : Recognizer) : Recognizer := fun before t => (r before t).or (r' before t)

/-- A recognizer finds nothing in a reference. -/
def Avoids (r : Recognizer) (name : Text) : Prop :=
  ∀ before rest, Silent r before (reference name) rest

variable {r : Recognizer} {kind : Text → Prop} {p q : Char → Bool} {before : Option Char}
  {front t literal name token : Text}

theorem nextIs_eq_any (p : Char → Bool) (t : Text) : nextIs p t = t.head?.any p := by
  cases t <;> rfl

theorem any_eq_false_of_imp {c : Option Char} (h : ∀ c, p c → q c) (free : c.any q = false) :
    c.any p = false := by
  cases c with
  | none => rfl
  | some c => exact Bool.eq_false_iff.2 fun joins => Bool.eq_false_iff.1 free (h c joins)

namespace Begins

theorem ne_nil (h : Begins t) : t ≠ [] := by
  rintro rfl
  cases h.joins

theorem joinsPrevious (h : Begins t) (rest : Text) : nextIs joinsPrevious (t ++ rest) := by
  obtain ⟨c, t, rfl⟩ := List.exists_cons_of_ne_nil h.ne_nil
  exact Bool.or_eq_true_iff.2 (.inl h.joins)

end Begins

namespace Scans

theorem bounded (h : Scans r kind p q) : Bounded r := by
  intro before t n taken
  obtain ⟨token, rest, rfl, rfl, -⟩ := (h.iff _ _ _).1 taken
  simp

theorem of_append (h : Scans r kind p q) {rest : Text} (hk : kind token)
    (hp : before.any p = false) (hq : nextIs q rest = false) :
    r before (token ++ rest) = some token.length :=
  (h.iff _ _ _).2 ⟨token, rest, rfl, rfl, hk, hp, hq⟩

theorem taken (h : Scans r kind p q) {rest : Text}
    (found : r before (token ++ rest) = some token.length) :
    kind token ∧ before.any p = false ∧ nextIs q rest = false := by
  obtain ⟨token', rest', text, length, hk, hp, hq⟩ := (h.iff _ _ _).1 found
  obtain ⟨rfl, rfl⟩ := List.append_inj text length.symm
  exact ⟨hk, hp, hq⟩

theorem loneToken (h : Begins literal) :
    Scans (loneToken .exact literal) (· = literal) Length.joinsNext joinsPrevious := by
  refine ⟨fun before t n => ?_, fun _ same => same ▸ h⟩
  rw [loneToken_eq_some_iff]
  constructor
  · rintro ⟨alone, rfl⟩
    obtain ⟨rest, rfl⟩ := List.isPrefixOf_iff_prefix.1 alone.found
    have after := alone.back
    rw [List.drop_left] at after
    exact ⟨literal, rest, rfl, rfl, rfl, alone.front, after⟩
  · rintro ⟨token, rest, rfl, rfl, rfl, before_apart, after⟩
    refine ⟨⟨List.isPrefixOf_iff_prefix.2 (List.prefix_append _ _), before_apart, ?_⟩, rfl⟩
    rwa [List.drop_left]

theorem alone (h : Scans r kind p q) (hp : ∀ c, p c → Length.joinsNext c)
    (hq : ∀ c, q c → joinsPrevious c) :
    Scans (aloneToken r) kind Length.joinsNext joinsPrevious := by
  refine ⟨fun before t n => ?_, h.begins⟩
  rw [aloneToken, Option.filter_eq_some_iff, h.iff]
  constructor
  · rintro ⟨⟨token, rest, rfl, rfl, hk, -⟩, alone⟩
    rw [List.drop_left, standsAlone, Bool.and_eq_true, Bool.not_eq_true', Bool.not_eq_true'] at alone
    exact ⟨token, rest, rfl, rfl, hk, alone⟩
  · rintro ⟨token, rest, rfl, rfl, hk, free, next⟩
    refine ⟨⟨token, rest, rfl, rfl, hk, any_eq_false_of_imp hp free, ?_⟩, ?_⟩
    · rw [nextIs_eq_any] at next ⊢
      exact any_eq_false_of_imp hq next
    · rw [List.drop_left, standsAlone, free, next]
      rfl

theorem alone_iff {n : Nat} : aloneToken r before t = some n ↔
    r before t = some n ∧ standsAlone before (t.drop n) := Option.filter_eq_some_iff

/-- Texts of two kinds that never start alike. -/
theorem either {r' : Recognizer} {kind' : Text → Prop} (h : Scans r kind p q)
    (h' : Scans r' kind' p q)
    (apart : ∀ token token', kind token → kind' token' → token.head? ≠ token'.head?) :
    Scans (eitherToken r r') (fun token => kind token ∨ kind' token) p q := by
  refine ⟨fun before t n => ?_, fun token => Or.rec (h.begins token) (h'.begins token)⟩
  rw [eitherToken, Option.or_eq_some_iff, h.iff, h'.iff]
  constructor
  · rintro (⟨token, rest, text, length, hk, free⟩ | ⟨-, token, rest, text, length, hk, free⟩)
    · exact ⟨token, rest, text, length, .inl hk, free⟩
    · exact ⟨token, rest, text, length, .inr hk, free⟩
  · rintro ⟨token, rest, rfl, length, hk | hk, free⟩
    · exact .inl ⟨token, rest, rfl, length, hk, free⟩
    · refine .inr ⟨Option.eq_none_iff_forall_ne_some.2 fun m found => ?_,
        token, rest, rfl, length, hk, free⟩
      obtain ⟨token', rest', text, -, hk', -⟩ := (h.iff _ _ _).1 found
      refine apart _ _ hk' hk ?_
      rw [← List.head?_append_of_ne_nil _ (h.begins _ hk').ne_nil, ← text,
        List.head?_append_of_ne_nil _ (h'.begins _ hk).ne_nil]

/-- The tokens that are taken are those that are found, where none starts inside of another. -/
theorem takes_iff (h : Scans r kind p q) (joined : ∀ token a b, kind token → token = a ++ b →
    a ≠ [] → b ≠ [] → a.getLast?.any p) {v back : Text} : Takes r v front token back ↔
      v = front ++ (token ++ back) ∧ r front.getLast? (token ++ back) = some token.length := by
  constructor
  · exact (Walk.of_forall (P := fun _ _ => True)
      (Q := fun front token back => v = front ++ (token ++ back) ∧
        r front.getLast? (token ++ back) = some token.length)
      h.bounded (fun _ _ _ _ _ => trivial) (fun _ _ _ text _ found => ⟨text, found⟩)
        rfl).known_of_takes
  · rintro ⟨rfl, found⟩
    obtain ⟨hk, free, -⟩ := h.taken found
    have walk := Walk.of_takes (Q := Takes r _) (v := front ++ (token ++ back)) h.bounded
      fun _ _ _ taken => taken
    exact (walk.at_place (fun _ _ _ a b found => joined _ a b (h.taken found).1) rfl
      free).known_of_found (h.begins _ hk).ne_nil found

/-! ### Blanks at the end -/

section Blanks

variable {blanks : Text} (h : Scans r kind p q)
  (solid : ∀ token, kind token → ∀ c ∈ token.getLast?, isBlank c = false)
  (apart : ∀ c, isBlank c → q c = false) (hb : ∀ c ∈ blanks, isBlank c)
include h solid apart hb

theorem append_blanks_iff {n : Nat} : r before (t ++ blanks) = some n ↔ r before t = some n := by
  have next {rest : Text} : nextIs q (rest ++ blanks) = nextIs q rest := by
    cases rest with
    | cons c rest => rfl
    | nil =>
        cases blanks with
        | nil => rfl
        | cons c blanks => exact apart c (hb c List.mem_cons_self)
  rw [h.iff, h.iff]
  constructor
  · rintro ⟨token, rest, text, length, hk, free, after⟩
    rcases List.append_eq_append_iff.1 text with ⟨a, rfl, rfl⟩ | ⟨a, rfl, rfl⟩
    · by_cases past : a = []
      · subst past
        exact ⟨t, [], by simp, by simpa using length, by simpa using hk, free, rfl⟩
      · -- The token would end with a blank.
        have last := solid _ hk (a.getLast past) (by
          rw [List.getLast?_append_of_ne_nil _ past]
          exact List.getLast?_eq_some_getLast past)
        rw [hb _ (List.mem_append_left _ (List.getLast_mem past))] at last
        cases last
    · rw [next] at after
      exact ⟨token, a, rfl, length, hk, free, after⟩
  · rintro ⟨token, rest, rfl, length, hk, free, after⟩
    exact ⟨token, rest ++ blanks, List.append_assoc _ _ _, length, hk, free, next.trans after⟩

theorem mapFrom_append_blanks (f : Text → Text) :
    mapFrom r f front.getLast? (t ++ blanks) = mapFrom r f front.getLast? t ++ blanks := by
  have walk : Walk r (fun _ _ => True) (fun _ _ _ => True) front t := Walk.of_forall h.bounded
    (fun _ _ _ _ _ => trivial) (fun _ _ _ _ _ _ => trivial) rfl
  induction walk with
  | @nil front =>
      have silent : Silent r front.getLast? blanks [] := by
        intro a b n hne text found
        rw [List.append_nil] at found
        obtain ⟨token, rest, rfl, -, hk, -⟩ := (h.iff _ _ _).1 found
        have begins := h.begins _ hk
        obtain ⟨c, token, rfl⟩ := List.exists_cons_of_ne_nil begins.ne_nil
        have blank := hb c (by simp [text])
        rw [Length.not_isBlank_of_joinsNext begins.joins] at blank
        cases blank
      have whole := mapFrom_append (f := f) silent
      rw [List.append_nil] at whole
      exact whole.trans (by rw [mapFrom_nil, List.append_nil, mapFrom_nil, List.nil_append])
  | @plain front t c copied known walk ih =>
      have later (n : Nat) : r front.getLast? (c :: (t ++ blanks)) ≠ some (n + 1) := fun found =>
        copied n ((h.append_blanks_iff solid apart hb).1 found)
      rw [List.getLast?_concat] at ih
      rw [List.cons_append, mapFrom_plain later, mapFrom_plain copied, ih, List.cons_append]
  | @token front token t hne taken known walk ih =>
      have later : r front.getLast? (token ++ (t ++ blanks)) = some token.length := by
        rw [← List.append_assoc]
        exact (h.append_blanks_iff solid apart hb).2 taken
      rw [Walk.getLast?_append_of_ne_nil hne] at ih
      rw [List.append_assoc, mapFrom_token hne later, mapFrom_token hne taken, ih,
        List.append_assoc]

end Blanks

/-- Inside of a reference what is found would have to start after a letter, a digit or a `-`, or
with two `-`. -/
theorem avoids (h : Scans r kind p q) (opened : opening.dropLast.all p)
    (starts : ['-', '-'] <+: name) (parts : ∀ c ∈ name, p c) : Avoids r name := by
  intro before rest a b n hne text taken
  obtain ⟨token, after, same, length, hk, free, -⟩ := (h.iff _ _ _).1 taken
  have begins := h.begins _ hk
  obtain ⟨c, token, rfl⟩ := List.exists_cons_of_ne_nil begins.ne_nil
  by_cases start : a = []
  · subst start
    rw [List.nil_append] at text
    rw [← text] at same
    exact begins.other (congrArg List.head? same).symm
  · rw [List.getLast?_eq_some_getLast start, Option.some_or, Option.any_some] at free
    rcases cut_reference hne text with ⟨as, s, rfl, rfl, rfl⟩ | ⟨bs, bs_ne, hf, rfl⟩
    · by_cases as_nil : as = []
      · subst as_nil
        rw [List.append_assoc] at same
        exact begins.dashes after (same ▸ starts.trans (List.prefix_append _ _))
      · have last : (opening ++ as).getLast start ∈ as := by
          rw [List.getLast_append_of_ne_nil _ as_nil]
          exact List.getLast_mem as_nil
        rw [parts _ (List.mem_append_left _ last)] at free
        cases free
    · rw [hf, List.dropLast_append_of_ne_nil bs_ne] at opened
      have inside := List.all_eq_true.1 opened (a.getLast start) (by simp)
      rw [inside] at free
      cases free

theorem avoids_of_unbroken (h : Scans r kind Length.joinsNext q) (hn : TokenName.Unbroken name) :
    Avoids r name :=
  h.avoids (by decide) hn.dashes hn.joins

end Scans

end DesignTokens.Text

namespace DesignTokens.TokenMap

open Text

/-- Blanks at the end of a value stay behind it. -/
theorem substituteLone_append_blanks {m : TokenMap} {v blanks : Text}
    (h : ∀ e ∈ m.entries, Begins e.1 ∧ ∀ c ∈ e.1.getLast?, isBlank c = false)
    (hb : ∀ c ∈ blanks, isBlank c) :
    m.substituteLone .exact (v ++ blanks) = m.substituteLone .exact v ++ blanks := by
  have one (e : Text × Text) (he : e ∈ m.byLength) (v : Text) :
      replaceLone .exact e.1 (reference e.2) (v ++ blanks) =
        replaceLone .exact e.1 (reference e.2) v ++ blanks := by
    obtain ⟨begins, solid⟩ := h e (mem_byLength.1 he)
    rw [replaceLone, replaceLone, List.isEmpty_eq_false_iff.2 begins.ne_nil,
      if_neg Bool.false_ne_true, if_neg Bool.false_ne_true]
    exact @Scans.mapFrom_append_blanks _ _ _ _ [] v blanks (.loneToken begins)
      (fun _ same => same ▸ solid) (fun _ => joinsPrevious_of_isBlank) hb _
  rw [substituteLone, substituteLone]
  generalize m.byLength = entries at one
  induction entries generalizing v with
  | nil => rfl
  | cons e entries ih =>
      rw [List.foldl_cons, List.foldl_cons]
      dsimp only
      rw [one e List.mem_cons_self, ih fun e' he' => one e' (List.mem_cons_of_mem e he')]

end DesignTokens.TokenMap
