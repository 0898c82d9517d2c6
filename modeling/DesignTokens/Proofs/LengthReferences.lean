import DesignTokens.Proofs.ScannedLiterals

/-!
Lengths of a value as references. A length that stands alone becomes the reference of its token, and
all others stay; one that stays is still a length unless a reference has come directly behind it.
-/
namespace DesignTokens

open Text

theorem TokenMap.exists_lookup_byLength (m : TokenMap) {literal : Text} (h : literal ∈ m.keys) :
    ∃ name, m.byLength.lookup literal = some name ∧ (literal, name) ∈ m.entries := by
  obtain ⟨e, he, rfl⟩ := List.mem_map.1 h
  obtain ⟨name, known⟩ : ∃ name, m.byLength.lookup e.1 = some name := by
    rw [← Option.isSome_iff_exists, List.lookup_isSome_iff]
    exact ⟨e, mem_byLength.2 he, beq_self_eq_true _⟩
  exact ⟨name, known, mem_byLength.1 (mem_of_lookup_eq_some known)⟩

namespace Length

theorem scans_alone :
    Scans (aloneToken candidate) (Measures countedUnits) joinsNext joinsPrevious := by
  refine scans_candidate.alone (fun _ joins => joins) fun c joins => ?_
  rw [joinsUnit, Bool.or_eq_true] at joins
  rw [joinsPrevious, joinsNext, Bool.or_eq_true, Bool.or_eq_true, Bool.or_eq_true]
  exact joins.imp (fun word => .inl (.inl word)) id

theorem takes_iff {v front token back : Text} : Takes candidate v front token back ↔
    v = front ++ (token ++ back) ∧
      candidate front.getLast? (token ++ back) = some token.length :=
  scans_candidate.takes_iff fun _ _ _ => areUnits.joined

/-- No length that stands alone starts in a length that does not. -/
theorem silent_alone {before : Option Char} {token back : Text}
    (found : candidate before (token ++ back) = some token.length)
    (crowded : standsAlone before back = false) :
    Silent (aloneToken candidate) before token back := by
  intro a b n hne text alone
  by_cases start : a = []
  · subst start
    obtain rfl : token = b := text
    rw [List.getLast?_nil, Option.none_or, Scans.alone_iff, found] at alone
    rw [← Option.some.inj alone.1, List.drop_left, crowded] at alone
    cases alone.2
  · have measures := (scans_candidate.taken found).1
    obtain ⟨_, _, _, _, _, free, _⟩ := (scans_alone.iff _ _ _).1 alone
    have joined := areUnits.joined measures text start hne
    rw [List.getLast?_eq_some_getLast start] at free joined
    rw [Option.some_or, joined] at free
    cases free

theorem ne_nil_of_found {before : Option Char} {token back : Text}
    (found : candidate before (token ++ back) = some token.length) : token ≠ [] :=
  (areUnits.begins (scans_candidate.taken found).1).ne_nil

theorem getLast?_or_of_ne_nil {token : Text} (hne : token ≠ []) (before : Option Char) :
    token.getLast?.or before = token.getLast? := by
  rw [List.getLast?_eq_some_getLast hne, Option.some_or]

section Walk

variable {v front token back : Text} {names : Text → Option Text}

/-- The walk that takes the lengths that stand alone. -/
theorem walk_alone (v : Text) : Walk (aloneToken candidate)
    (fun front t => v = front ++ t ∧ ∀ n, aloneToken candidate front.getLast? t ≠ some (n + 1))
    (fun front token back => Takes candidate v front token back ∧
      standsAlone front.getLast? back) [] v := by
  refine .of_forall scans_alone.bounded (fun _ _ _ text copied => ⟨text, copied⟩) ?_ rfl
  intro front token back text _ found
  obtain ⟨found, alone⟩ := Scans.alone_iff.1 found
  rw [List.drop_left] at alone
  exact ⟨takes_iff.2 ⟨text, found⟩, alone⟩

/-- A length that neither stands alone nor has one that does directly behind it is still a length
when others are references. -/
theorem exists_of_crowded (taken : Takes candidate v front token back)
    (crowded : standsAlone front.getLast? back = false)
    (apart : ∀ token' back', Takes candidate v (front ++ token) token' back' →
      standsAlone token.getLast? back' = false) :
    ∃ g x, mapTokens (aloneToken candidate) (named names) v = g ++ (token ++ x) ∧
      candidate g.getLast? (token ++ x) = some token.length := by
  obtain ⟨text, found⟩ := takes_iff.1 taken
  have filled := ne_nil_of_found found
  obtain ⟨measures, free, next⟩ := scans_candidate.taken found
  obtain ⟨g, place, follows⟩ : ∃ g, mapFrom _ (named names) none v = g ++ _ ∧ _ :=
    (walk_alone v).exists_place scans_alone (fun _ _ _ => areUnits.joined) text free (.inl rfl)
  rw [List.nil_append, mapFrom_append (silent_alone found crowded),
    getLast?_or_of_ne_nil filled] at place
  rw [List.nil_append, List.getLast?_nil, Option.or_none] at follows
  refine ⟨g, _, place, scans_candidate.of_append measures ?_ ?_⟩
  · rcases follows with same | ⟨close, -⟩
    · exact same ▸ free
    · rw [close]
      decide
  · cases back with
    | nil => rfl
    | cons c back =>
        rw [mapFrom_plain]
        · exact next
        · intro n alone
          obtain ⟨found, alone⟩ := Scans.alone_iff.1 alone
          obtain ⟨token', back', cut, length, -⟩ := (scans_candidate.iff _ _ _).1 found
          rw [cut, ← length] at found
          rw [cut, ← length, List.drop_left, apart token' back' (takes_iff.2 ⟨?_, ?_⟩)] at alone
          · cases alone
          · rw [text, cut, List.append_assoc]
          · rwa [Walk.getLast?_append_of_ne_nil filled]

/-- Behind a length that does not stand alone comes the reference of one that does. -/
theorem joinsUnit_of_follows {token' back' : Text}
    (found : candidate front.getLast? (token ++ back) = some token.length)
    (crowded : standsAlone front.getLast? back = false)
    (taken : Takes candidate (front ++ (token ++ back)) (front ++ token) token' back')
    (alone : standsAlone token.getLast? back') (known : (names token').isSome) :
    nextIs joinsUnit ((mapFrom (aloneToken candidate) (named names) front.getLast?
      (token ++ back)).drop token.length) := by
  obtain ⟨text, found'⟩ := takes_iff.1 taken
  rw [List.append_assoc] at text
  obtain rfl := List.append_cancel_left (List.append_cancel_left text)
  have filled := ne_nil_of_found found
  rw [Walk.getLast?_append_of_ne_nil filled] at found'
  have found_alone : aloneToken candidate token.getLast? (token' ++ back') = some token'.length :=
    Scans.alone_iff.2 ⟨found', by rwa [List.drop_left]⟩
  obtain ⟨name, known⟩ := Option.isSome_iff_exists.1 known
  rw [mapFrom_append (silent_alone found crowded), getLast?_or_of_ne_nil filled,
    mapFrom_token (ne_nil_of_found found') found_alone, List.drop_left, named, known]
  have joins : joinsUnit 'v' := by decide
  exact joins

end Walk

section Map

variable {m : TokenMap} {v : Text} (kinds : ∀ e ∈ m.entries, Measures countedUnits e.1)
  (valid : ∀ e ∈ m.entries, TokenName.Valid e.2)
include kinds valid

/-- The lengths that stand alone are replaced, and nothing else is. -/
theorem substituteLone_eq : m.substituteLone .exact v =
    mapTokens (aloneToken candidate) (named fun token => m.byLength.lookup token) v := by
  refine (walk_alone v).foldl_replaceLone scans_alone
    (fun e he => kinds e (TokenMap.mem_byLength.1 he))
    (fun e he => (valid e (TokenMap.mem_byLength.1 he)).unbroken)
    (fun front _ _ _ => areUnits.stops joinsNext front) ?_
  rintro done e later - front token back ⟨taken, -⟩ - -
  exact areUnits.inside (scans_candidate.taken (takes_iff.1 taken).2).1 .exact e.1

/-- No length is left if and only if each one stands alone or has one that does directly behind it.
-/
theorem literals_substituteLone_iff (listed : ∀ token ∈ literals v, token ∈ m.keys) :
    literals (m.substituteLone .exact v) = [] ↔
      ∀ front token back, Takes candidate v front token back →
        standsAlone front.getLast? back ∨ ∃ token' back',
          Takes candidate v (front ++ token) token' back' ∧ standsAlone token.getLast? back' := by
  rw [substituteLone_eq kinds valid, literals, tokens_eq_nil_iff]
  constructor
  · intro empty front token back taken
    by_contra other
    rw [not_or, Bool.not_eq_true] at other
    obtain ⟨crowded, apart⟩ := other
    obtain ⟨g, x, place, found⟩ : ∃ g x, mapTokens (aloneToken candidate)
        (named fun token => m.byLength.lookup token) v = g ++ (token ++ x) ∧ _ :=
      exists_of_crowded taken crowded fun token' back' taken =>
        Bool.eq_false_iff.2 fun alone => apart ⟨token', back', taken, alone⟩
    have filled := ne_nil_of_found found
    refine empty.ne place (by simp [filled]) filled ?_
    rw [Option.or_none, List.append_nil, found]
  · intro replaced
    refine (walk_alone v).silent_mapFrom scans_alone scans_candidate (by decide)
      (fun front _ _ _ => areUnits.stops joinsNext front) ?_ ?_ (.inl rfl)
    · rintro front token back ⟨taken, -⟩
      obtain ⟨name, known, entry⟩ := m.exists_lookup_byLength (listed token taken.mem_tokens)
      exact ⟨name, known, scans_candidate.avoids_of_unbroken (valid _ entry).unbroken⟩
    · rintro front t n - ⟨rfl, quiet⟩ found
      obtain ⟨token, back, rfl, rfl, -⟩ := (scans_candidate.iff _ _ _).1 found
      have crowded : standsAlone front.getLast? back = false := by
        rw [Bool.eq_false_iff]
        intro alone
        have length := length_eq_succ (ne_nil_of_found found)
        refine quiet (token.length - 1) (Scans.alone_iff.2 ?_)
        rw [← length, List.drop_left]
        exact ⟨found, alone⟩
      rcases replaced _ _ _ (takes_iff.2 ⟨rfl, found⟩) with alone | ⟨token', back', taken, alone⟩
      · rw [crowded] at alone
        cases alone
      · obtain ⟨name, known, -⟩ := m.exists_lookup_byLength (listed token' taken.mem_tokens)
        exact joinsUnit_of_follows found crowded taken alone (by rw [known]; rfl)

end Map

end Length

end DesignTokens
