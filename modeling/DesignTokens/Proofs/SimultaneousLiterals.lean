import DesignTokens.Proofs.IndependentFeatures
import DesignTokens.Proofs.LengthReferences
import DesignTokens.Proofs.SimultaneousColors

/-!
The pass for lengths and durations that stand alone. It replaces them one after another, the longest
first, and that is to replace them all at once: a literal goes on up to the first character that
could belong to it, so two literals of a map never stand alone at one place or across each other,
and none does in a reference. So the order of the map does not matter, and a second pass finds
nothing. Main statement: `TokenMap.substituteLone_simultaneous`.
-/
namespace DesignTokens

open Text

theorem TokenName.IsWord.unbroken {name : Text} (h : IsWord name) : Unbroken name := by
  obtain ⟨rest, rfl, chars⟩ := h
  refine ⟨List.prefix_append _ rest, fun c hc => ?_⟩
  have part : Block.isNameChar c := by
    rcases List.mem_append.1 hc with dash | inside
    · exact List.all_eq_true.1 (by decide) c dash
    · exact chars c inside
  rw [Block.isNameChar, Bool.or_eq_true] at part
  rcases part with hyphen | word
  · simp [Length.joinsNext, hyphen]
  · simp [Length.joinsNext, word]

/-! ### Literals -/

/-- The names of the units of lengths and durations. -/
def measureUnits : List Text := Length.countedUnits ++ Duration.unitNames

theorem areUnits_measureUnits : AreUnits measureUnits := by
  constructor <;> decide

namespace Measures

variable {literal other rest rest' : Text}

/-- A text is a literal if its numeral leaves a unit. -/
theorem of_scan? {units : List Text}
    (h : (Numeral.scan? literal).any fun scanned => scanned.2 ∈ units) :
    Measures units literal := by
  obtain ⟨⟨n, unit⟩, scanned, listed⟩ := (Option.any_eq_true _ _).1 h
  obtain ⟨written, rfl⟩ := Numeral.of_scan? scanned
  exact ⟨n, unit, of_decide_eq_true listed, written, rfl⟩

theorem joinsPrevious (h : Measures measureUnits literal) : ∀ c ∈ literal, joinsPrevious c := by
  obtain ⟨n, unit, hunit, written, rfl⟩ := h
  have units : ∀ unit ∈ measureUnits, unit.all Text.joinsPrevious := by decide
  refine List.forall_mem_append.2 ⟨fun c hc => ?_, List.all_eq_true.1 (units unit hunit)⟩
  exact Bool.or_eq_true_iff.2 (.inl (written.joinsNext c hc))

/-- A literal that ends where it has to is all there is up to this end. -/
theorem takeWhile_append (h : Measures measureUnits literal)
    (ends : nextIs Text.joinsPrevious rest = false) :
    (literal ++ rest).takeWhile Text.joinsPrevious = literal :=
  takeWhile_append_of_nextIs h.joinsPrevious ends

theorem eq_of_append_eq (h : Measures measureUnits literal) (h' : Measures measureUnits other)
    (text : literal ++ rest = other ++ rest') (ends : nextIs Text.joinsPrevious rest = false)
    (ends' : nextIs Text.joinsPrevious rest' = false) : literal = other := by
  rw [← h.takeWhile_append ends, text, h'.takeWhile_append ends']

end Measures

namespace Text

/-- The first of some literals that stands alone at a place. -/
def loneKey (keys : List Text) : Recognizer := fun before t =>
  keys.findSome? fun key => loneToken .exact key before t

theorem scans_loneKey {keys : List Text} (h : ∀ key ∈ keys, Measures measureUnits key) :
    Scans (loneKey keys) (· ∈ keys) Length.joinsNext joinsPrevious := by
  have begins (key : Text) (hk : key ∈ keys) : Begins key := areUnits_measureUnits.begins (h key hk)
  refine ⟨fun before t n => ?_, begins⟩
  constructor
  · intro found
    obtain ⟨key, hk, found⟩ := List.exists_of_findSome?_eq_some found
    obtain ⟨_, rest, rfl, rfl, rfl, free⟩ := ((Scans.loneToken (begins key hk)).iff _ _ _).1 found
    exact ⟨_, rest, rfl, rfl, hk, free⟩
  · rintro ⟨key, rest, rfl, rfl, hk, free, ends⟩
    have found := (Scans.loneToken (begins key hk)).of_append rfl free ends
    have some : (loneKey keys before (key ++ rest)).isSome :=
      List.findSome?_isSome_iff.2 ⟨key, hk, by rw [found]; rfl⟩
    obtain ⟨n, first⟩ := Option.isSome_iff_exists.1 some
    obtain ⟨key', hk', found'⟩ := List.exists_of_findSome?_eq_some first
    obtain ⟨_, rest', text, rfl, rfl, -, ends'⟩ :=
      ((Scans.loneToken (begins key' hk')).iff _ _ _).1 found'
    rw [first, (h key hk).eq_of_append_eq (h _ hk') text ends ends']

end Text

/-! ### The pass -/

namespace TokenMap

/-- A literal of a map stands alone in a value, between the text before it and the text after it. -/
structure Occurs (m : TokenMap) (v front key back : Text) : Prop where
  text : v = front ++ (key ++ back)
  mem : key ∈ m.keys
  free : front.getLast?.any Length.joinsNext = false
  ends : nextIs joinsPrevious back = false

theorem lookup_byLength (m : TokenMap) (key : Text) : m.byLength.lookup key = m.get? key := by
  refine Option.ext fun name => ?_
  rw [OrderedMap.get?_eq_some_iff]
  constructor
  · intro found
    exact mem_byLength.1 (mem_of_lookup_eq_some found)
  · intro entry
    obtain ⟨name', found, entry'⟩ := m.exists_lookup_byLength (List.mem_map_of_mem entry)
    have known := OrderedMap.get?_eq_some_iff.2 entry
    rwa [← OrderedMap.get?_eq_some_iff.2 entry', known] at found

variable {m : TokenMap} {v front key back front' key' back' : Text}

theorem named_lookup_byLength : named (fun key => m.byLength.lookup key) = m.inserted := by
  funext key
  rw [named, inserted, lookup_byLength]
  cases m.get? key <;> rfl

section Measured

variable (measured : ∀ key ∈ m.keys, Measures measureUnits key)
include measured

/-- No literal of a map starts behind a part of another one. -/
theorem joined_of_mem (hk : key ∈ m.keys) {a b : Text} (text : key = a ++ b) (ha : a ≠ [])
    (hb : b ≠ []) : a.getLast?.any Length.joinsNext :=
  areUnits_measureUnits.joined (measured key hk) text ha hb

theorem stops_of_mem (front : Text) : Stops (· ∈ m.keys) Length.joinsNext front :=
  fun start a b text free hk hne =>
    areUnits_measureUnits.stops _ front start a b text free (measured _ hk) hne

/-- The walk that takes the literals that stand alone. -/
theorem walk_loneKey (v : Text) : Walk (loneKey m.keys)
    (fun front t => ∀ n, loneKey m.keys front.getLast? t ≠ some (n + 1))
    (fun _ key _ => key ∈ m.keys) [] v := by
  have scans := scans_loneKey measured
  exact .of_forall scans.bounded (fun _ _ _ _ copied => copied)
    (fun _ _ _ _ _ found => (scans.taken found).1) rfl

theorem takes_loneKey_iff :
    Takes (loneKey m.keys) v front key back ↔ m.Occurs v front key back := by
  have scans := scans_loneKey measured
  rw [scans.takes_iff fun _ _ _ hk => joined_of_mem measured hk]
  constructor
  · rintro ⟨text, found⟩
    obtain ⟨mem, free, ends⟩ := scans.taken found
    exact ⟨text, mem, free, ends⟩
  · rintro ⟨text, mem, free, ends⟩
    exact ⟨text, scans.of_append mem free ends⟩

/-- An occurrence that does not start before another one is the same or starts behind it. -/
theorem Occurs.eq_or_le (h : m.Occurs v front key back) (h' : m.Occurs v front' key' back')
    (le : front.length ≤ front'.length) : (front, key, back) = (front', key', back') ∨
      front.length + key.length ≤ front'.length := by
  obtain ⟨gap, rfl⟩ : front <+: front' :=
    List.prefix_of_prefix_length_le ⟨_, h.text.symm⟩ ⟨_, h'.text.symm⟩ le
  have text : key ++ back = gap ++ (key' ++ back') := by
    have whole := h.text.symm.trans h'.text
    rw [List.append_assoc] at whole
    exact List.append_cancel_left whole
  by_cases start : gap = []
  · subst start
    obtain rfl := (measured key h.mem).eq_of_append_eq (measured key' h'.mem) text h.ends h'.ends
    exact .inl (by rw [List.append_nil, List.append_cancel_left text])
  · rcases List.append_eq_append_iff.1 text with ⟨past, rfl, -⟩ | ⟨inner, whole, -⟩
    · exact .inr (by simp)
    · by_cases last : inner = []
      · exact .inr (by simp [whole, last])
      · -- The other literal would start behind a part of this one.
        have joined := joined_of_mem measured h.mem whole start last
        have free := h'.free
        rw [List.getLast?_append_of_ne_nil _ start, joined] at free
        cases free

theorem Occurs.disjoint (h : m.Occurs v front key back) (h' : m.Occurs v front' key' back') :
    (front, key, back) = (front', key', back') ∨ front.length + key.length ≤ front'.length ∨
      front'.length + key'.length ≤ front.length := by
  rcases Nat.le_total front.length front'.length with first | second
  · exact (h.eq_or_le measured h' first).imp_right .inl
  · exact (h'.eq_or_le measured h second).imp Eq.symm .inr

variable (words : ∀ name ∈ m.values, TokenName.IsWord name)
include words

/-- The literals that stand alone are replaced, and nothing else is. -/
theorem substituteLone_eq_mapTokens (v : Text) :
    m.substituteLone .exact v = mapTokens (loneKey m.keys) m.inserted v := by
  have kinds (e : Text × Text) (he : e ∈ m.byLength) : e.1 ∈ m.keys :=
    List.mem_map_of_mem (mem_byLength.1 he)
  have unbroken (e : Text × Text) (he : e ∈ m.byLength) : TokenName.Unbroken e.2 :=
    (words e.2 (List.mem_map_of_mem (mem_byLength.1 he))).unbroken
  rw [← named_lookup_byLength]
  refine (walk_loneKey measured v).foldl_replaceLone (scans_loneKey measured) kinds unbroken
    (fun front _ _ _ => stops_of_mem measured front) ?_
  intro done e later _ front key back hk _ _
  exact areUnits_measureUnits.inside (measured key hk) .exact e.1

theorem substituteLone_substituteLone (v : Text) :
    m.substituteLone .exact (m.substituteLone .exact v) = m.substituteLone .exact v := by
  rw [substituteLone_eq_mapTokens measured words, substituteLone_eq_mapTokens measured words]
  have scans := scans_loneKey measured
  have silent : Silent (loneKey m.keys) none (mapTokens (loneKey m.keys) m.inserted v) [] := by
    rw [← named_lookup_byLength]
    refine (walk_loneKey measured v).silent_mapFrom scans scans (by decide)
      (fun front _ _ _ => stops_of_mem measured front) ?_ ?_ (.inl rfl)
    · intro front key back hk
      obtain ⟨name, known, entry⟩ := m.exists_lookup_byLength hk
      have word := words name (List.mem_map_of_mem entry)
      exact ⟨name, known, scans.avoids_of_unbroken word.unbroken⟩
    · intro front t n _ copied found
      obtain ⟨key, back, -, rfl, hk, -⟩ := (scans.iff _ _ _).1 found
      rw [length_eq_succ (scans.begins key hk).ne_nil] at found
      exact absurd found (copied _)
  rw [mapTokens, pieces, piecesFrom_of_silent silent]
  simp [Piece.mapToken, List.flatMap_map]

/-- The order of the tokens does not matter. -/
theorem substituteLone_eq_of_perm {m' : TokenMap} (same : m'.entries.Perm m.entries) (v : Text) :
    m'.substituteLone .exact v = m.substituteLone .exact v := by
  have keys : m'.keys.Perm m.keys := same.map Prod.fst
  have values : m'.values.Perm m.values := same.map Prod.snd
  have measured' : ∀ key ∈ m'.keys, Measures measureUnits key :=
    fun key hk => measured key (keys.subset hk)
  have recognizer : loneKey m'.keys = loneKey m.keys := by
    funext before t
    refine Option.ext fun n => ?_
    rw [(scans_loneKey measured').iff, (scans_loneKey measured).iff]
    simp only [keys.mem_iff]
  have inserted : m'.inserted = m.inserted := by
    have get (key : Text) : m'.get? key = m.get? key := by
      refine Option.ext fun name => ?_
      rw [OrderedMap.get?_eq_some_iff, OrderedMap.get?_eq_some_iff, same.mem_iff]
    funext key
    rw [TokenMap.inserted, get, TokenMap.inserted]
  rw [substituteLone_eq_mapTokens measured' fun name h => words name (values.subset h),
    recognizer, inserted, substituteLone_eq_mapTokens measured words]

/-- The pass for literals that stand alone replaces exactly their occurrences, which do not touch
each other, whatever the order of the map, and leaves nothing to replace. -/
theorem substituteLone_simultaneous (v : Text) :
    (∀ front key back front' key' back', m.Occurs v front key back →
      m.Occurs v front' key' back' → (front, key, back) = (front', key', back') ∨
        front.length + key.length ≤ front'.length ∨ front'.length + key'.length ≤ front.length) ∧
      (∀ front key back, Takes (loneKey m.keys) v front key back ↔ m.Occurs v front key back) ∧
      m.substituteLone .exact v = mapTokens (loneKey m.keys) m.inserted v ∧
      (∀ m' : TokenMap, m'.entries.Perm m.entries →
        m'.substituteLone .exact v = m.substituteLone .exact v) ∧
      m.substituteLone .exact (m.substituteLone .exact v) = m.substituteLone .exact v :=
  ⟨fun _ _ _ _ _ _ h h' => h.disjoint measured h', fun _ _ _ => takes_loneKey_iff measured,
    substituteLone_eq_mapTokens measured words v,
    fun _ same => substituteLone_eq_of_perm measured words same v,
    substituteLone_substituteLone measured words v⟩

end Measured

/-- Literals that end alike, and names with literals in them. -/
def likeMeasures : TokenMap where
  entries := [("5px".toList, "--px_5".toList), ("-5px".toList, "--Back-5px".toList),
    ("1.5px".toList, "--a".toList), ("50%".toList, "--half-50".toList), (".5s".toList, "--".toList)]
  nodup_keys := by decide

theorem substituteLone_likeMeasures :
    let value := "1.5px -5px,5px 5px-1px 50%50%/.5s 1.5pxx".toList
    (∀ key ∈ likeMeasures.keys, Measures measureUnits key) ∧
      (∀ name ∈ likeMeasures.values, TokenName.IsWord name) ∧
      likeMeasures.substituteLone .exact value =
        "var(--a) var(--Back-5px),var(--px_5) 5px-1px 50%var(--half-50)/var(--) 1.5pxx".toList ∧
      likeMeasures.substituteLone .exact (likeMeasures.substituteLone .exact value) =
        likeMeasures.substituteLone .exact value := by
  intro value
  have scanned : ∀ key ∈ likeMeasures.keys,
      (Numeral.scan? key).any fun scanned => scanned.2 ∈ measureUnits := by decide
  have measured : ∀ key ∈ likeMeasures.keys, Measures measureUnits key :=
    fun key hk => .of_scan? (scanned key hk)
  have written : ∀ name ∈ likeMeasures.values,
      name.take 2 = "--".toList ∧ (name.drop 2).all Block.isNameChar := by decide +kernel
  have words : ∀ name ∈ likeMeasures.values, TokenName.IsWord name :=
    fun name h => .of_take (written name h)
  obtain ⟨-, -, atOnce, -, again⟩ := substituteLone_simultaneous measured words value
  refine ⟨measured, words, atOnce.trans ?_, again⟩
  decide +kernel

end TokenMap

end DesignTokens
