import DesignTokens.Proofs.MappedValues
import DesignTokens.Proofs.ReferencedTokens
import DesignTokens.Proofs.NormalForms

/-!
Declarations as pieces of a body. A body is cut at each `;`, and in each piece the first name that
has a colon and more text behind it declares the rest of the piece; a piece without such a name
declares nothing. Main statement: `Declaration.parse_eq_pieces`.
-/
namespace DesignTokens

open Text

namespace Block

/-- A maximal run of name characters in a text, between `front` and blanks, a colon and the text
`raw`. The run does not go on to the right, for neither a blank nor a colon is a name character. -/
structure Names (before : Option Char) (t front name raw : Text) : Prop where
  isName : IsName name
  start : (front.getLast?.or before).any isNameChar = false
  text : ∃ blanks, (∀ c ∈ blanks, isBlank c) ∧ t = front ++ (name ++ (blanks ++ ':' :: raw))
  filled : raw ≠ []

/-- The text behind blanks and a colon, if there is any. -/
def rawBehind? (t : Text) : Option Text :=
  match trimLeft t with
  | ':' :: c :: raw => some (c :: raw)
  | _ => none

/-- The name that starts here, if a colon and more text are behind it, with this text. -/
def nameHere? (before : Option Char) : Text → Option (Text × Text)
  | [] => none
  | c :: rest =>
    if isNameChar c && !before.any isNameChar then
      (rawBehind? (rest.dropWhile isNameChar)).map fun raw => (c :: rest.takeWhile isNameChar, raw)
    else none

/-- The first such name in a text. -/
def firstNamed? (before : Option Char) : Text → Option (Text × Text)
  | [] => none
  | c :: rest => (nameHere? before (c :: rest)).or (firstNamed? (some c) rest)

variable {before : Option Char} {t front name raw rest : Text} {c : Char}

/-! ### One piece -/

theorem rawBehind?_eq_some_iff : rawBehind? t = some raw ↔
    raw ≠ [] ∧ ∃ blanks, (∀ c ∈ blanks, isBlank c) ∧ t = blanks ++ ':' :: raw := by
  constructor
  · intro h
    have front := List.takeWhile_append_dropWhile (p := isBlank) (l := t)
    unfold rawBehind? at h
    split at h
    · rename_i c raw' text
      obtain rfl := Option.some.inj h
      rw [trimLeft] at text
      rw [text] at front
      exact ⟨by simp, _, fun c hc => List.mem_takeWhile_imp hc, front.symm⟩
    · cases h
  · rintro ⟨filled, blanks, hb, rfl⟩
    obtain ⟨c, raw, rfl⟩ := List.exists_cons_of_ne_nil filled
    rw [rawBehind?, trimLeft_colon hb]
    rfl

theorem nameHere?_eq_some_iff : nameHere? before t = some (name, raw) ↔
    Names before t [] name raw := by
  constructor
  · intro h
    cases t with
    | nil => cases h
    | cons c rest =>
        rw [nameHere?] at h
        split at h
        · rename_i starts
          rw [Bool.and_eq_true, Bool.not_eq_true'] at starts
          obtain ⟨raw', behind, same⟩ := Option.map_eq_some_iff.1 h
          cases same
          obtain ⟨filled, blanks, hb, text⟩ := rawBehind?_eq_some_iff.1 behind
          refine ⟨⟨by simp, ?_⟩, starts.2, ⟨blanks, hb, ?_⟩, filled⟩
          · exact List.forall_mem_cons.2 ⟨starts.1, fun c hc => List.mem_takeWhile_imp hc⟩
          · rw [← text, List.nil_append, List.cons_append, List.takeWhile_append_dropWhile]
        · cases h
  · rintro ⟨isName, start, ⟨blanks, hb, rfl⟩, filled⟩
    obtain ⟨c, name, rfl⟩ := List.exists_cons_of_ne_nil isName.ne_nil
    obtain ⟨first, chars⟩ := List.forall_mem_cons.1 isName.chars
    have free : before.any isNameChar = false := start
    have stop := nextIs_colon hb raw
    rw [List.nil_append, List.cons_append, nameHere?, first, free, takeWhile_name chars stop,
      dropWhile_name chars stop, rawBehind?_eq_some_iff.2 ⟨filled, blanks, hb, rfl⟩]
    rfl

theorem nameHere?_eq_none_iff : nameHere? before t = none ↔
    ∀ name raw, ¬ Names before t [] name raw := by
  rw [Option.eq_none_iff_forall_ne_some]
  exact ⟨fun h name raw here => h (name, raw) (nameHere?_eq_some_iff.2 here),
    fun h ⟨name, raw⟩ here => h name raw (nameHere?_eq_some_iff.1 here)⟩

theorem names_cons_iff {d : Char} : Names before (c :: rest) (d :: front) name raw ↔
    d = c ∧ Names (some c) rest front name raw := by
  constructor
  · rintro ⟨isName, start, ⟨blanks, hb, text⟩, filled⟩
    obtain ⟨rfl, tail⟩ := List.cons.inj text
    rw [getLast?_cons_or] at start
    exact ⟨rfl, isName, start, ⟨blanks, hb, tail⟩, filled⟩
  · rintro ⟨rfl, isName, start, ⟨blanks, hb, rfl⟩, filled⟩
    rw [← getLast?_cons_or] at start
    exact ⟨isName, start, ⟨blanks, hb, rfl⟩, filled⟩

/-- The name that is found is the first one with a colon and more text behind it. -/
theorem firstNamed?_eq_some_iff : firstNamed? before t = some (name, raw) ↔
    ∃ front, Names before t front name raw ∧
      ∀ front' name' raw', Names before t front' name' raw' → front.length ≤ front'.length := by
  induction t generalizing before with
  | nil =>
      refine iff_of_false nofun ?_
      rintro ⟨front, ⟨-, -, ⟨blanks, -, text⟩, -⟩, -⟩
      simp at text
  | cons c rest ih =>
      rw [firstNamed?]
      cases here : nameHere? before (c :: rest) with
      | some found =>
          obtain ⟨name', raw'⟩ := found
          have names := nameHere?_eq_some_iff.1 here
          rw [Option.some_or]
          constructor
          · rintro ⟨rfl, rfl⟩
            exact ⟨[], names, fun _ _ _ _ => Nat.zero_le _⟩
          · rintro ⟨front, other, first⟩
            obtain rfl := List.length_eq_zero_iff.1 (Nat.le_zero.1 (first _ _ _ names))
            rw [← nameHere?_eq_some_iff.2 other, here]
      | none =>
          have later := nameHere?_eq_none_iff.1 here
          rw [Option.none_or, ih]
          constructor
          · rintro ⟨front, names, first⟩
            refine ⟨c :: front, names_cons_iff.2 ⟨rfl, names⟩, fun front' name' raw' other => ?_⟩
            cases front' with
            | nil => exact absurd other (later _ _)
            | cons d front' => exact Nat.succ_le_succ (first _ _ _ (names_cons_iff.1 other).2)
          · rintro ⟨front, names, first⟩
            cases front with
            | nil => exact absurd names (later _ _)
            | cons d front =>
                refine ⟨front, (names_cons_iff.1 names).2, fun front' name' raw' other => ?_⟩
                exact Nat.le_of_succ_le_succ (first (c :: front') _ _ (names_cons_iff.2 ⟨rfl, other⟩))

theorem firstNamed?_eq_none_iff : firstNamed? before t = none ↔
    ∀ front name raw, ¬ Names before t front name raw := by
  induction t generalizing before with
  | nil =>
      refine iff_of_true rfl ?_
      rintro front name raw ⟨-, -, ⟨blanks, -, text⟩, -⟩
      simp at text
  | cons c rest ih =>
      rw [firstNamed?, Option.or_eq_none_iff, nameHere?_eq_none_iff, ih]
      constructor
      · rintro ⟨here, later⟩ front name raw names
        cases front with
        | nil => exact here _ _ names
        | cons d front => exact later _ _ _ (names_cons_iff.1 names).2
      · intro none
        exact ⟨none [], fun front name raw names => none _ _ _ (names_cons_iff.2 ⟨rfl, names⟩)⟩

/-! ### The pieces of a body -/

/-- Only whether a name goes on matters of the character before. -/
theorem firstNamed?_congr {before' : Option Char}
    (h : before.any isNameChar = before'.any isNameChar) :
    firstNamed? before t = firstNamed? before' t := by
  cases t with
  | nil => rfl
  | cons c rest => rw [firstNamed?, firstNamed?, nameHere?, nameHere?, h]

theorem firstNamed?_plain (hc : isNameChar c = false) (rest : Text) :
    firstNamed? before (c :: rest) = firstNamed? none rest := by
  rw [firstNamed?, nameHere?, hc]
  exact firstNamed?_congr hc

theorem firstNamed?_of_nextIs (h : nextIs isNameChar t = false) :
    firstNamed? before t = firstNamed? none t := by
  cases t with
  | nil => rfl
  | cons c rest => rw [firstNamed?_plain h, firstNamed?_plain h]

/-- No name starts inside of a name. -/
theorem firstNamed?_inside (hc : isNameChar c) (hn : ∀ d ∈ name, isNameChar d)
    (hstop : nextIs isNameChar rest = false) :
    firstNamed? (some c) (name ++ rest) = firstNamed? none rest := by
  induction name generalizing c with
  | nil => exact firstNamed?_of_nextIs hstop
  | cons d name ih =>
      obtain ⟨hd, hn⟩ := List.forall_mem_cons.1 hn
      have inside : nameHere? (some c) (d :: (name ++ rest)) = none := by
        rw [nameHere?, Option.any_some, hc]
        simp
      rw [List.cons_append, firstNamed?, inside, Option.none_or, ih hd hn]

theorem firstNamed?_name (hn : IsName name) (hstop : nextIs isNameChar rest = false) :
    firstNamed? none (name ++ rest) =
      ((rawBehind? rest).map (name, ·)).or (firstNamed? none rest) := by
  obtain ⟨c, name, rfl⟩ := List.exists_cons_of_ne_nil hn.ne_nil
  obtain ⟨hc, chars⟩ := List.forall_mem_cons.1 hn.chars
  have here : nameHere? none (c :: (name ++ rest)) = (rawBehind? rest).map (c :: name, ·) := by
    rw [nameHere?, hc, takeWhile_name chars hstop, dropWhile_name chars hstop]
    rfl
  rw [List.cons_append, firstNamed?, here, firstNamed?_inside hc chars hstop]

/-- The names of the pieces of a body, each with the text behind its colon. -/
def namedIn (body : Text) : List (Text × Text) := (splitOn ';' body).filterMap (firstNamed? none)

/-- The first piece of a text goes on with what is in front of the text. -/
theorem exists_splitOn (t : Text) : ∃ piece tail pieces, t = piece ++ tail ∧ ';' ∉ piece ∧
    ∀ front, ';' ∉ front → splitOn ';' (front ++ t) = (front ++ piece) :: pieces := by
  rcases found : cut ';' t with ⟨piece, tail⟩
  cases tail with
  | none =>
      obtain ⟨rfl, plain⟩ := eq_of_cut_none found
      refine ⟨t, [], [], by simp, plain, fun front hf => splitOn_of_notMem ?_⟩
      simp [hf, plain]
  | some tail =>
      obtain ⟨rfl, plain⟩ := eq_of_cut_some found
      refine ⟨piece, ';' :: tail, splitOn ';' tail, rfl, plain, fun front hf => ?_⟩
      rw [← List.append_assoc, splitOn_append_cons (by simp [hf, plain])]

theorem namedIn_plain (hc : isNameChar c = false) (body : Text) :
    namedIn (c :: body) = namedIn body := by
  by_cases stop : c = ';'
  · rw [namedIn, stop, splitOn, if_pos rfl, List.filterMap_cons_none rfl, namedIn]
  · obtain ⟨piece, tail, pieces, -, -, split⟩ := exists_splitOn body
    have whole : splitOn ';' (c :: body) = (c :: piece) :: pieces :=
      split [c] (by simpa using Ne.symm stop)
    have own : splitOn ';' body = piece :: pieces := split [] (by simp)
    rw [namedIn, namedIn, whole, own, List.filterMap_cons, List.filterMap_cons,
      firstNamed?_plain hc]

theorem namedIn_lead {lead : Text} (hl : ∀ c ∈ lead, isNameChar c = false) (body : Text) :
    namedIn (lead ++ body) = namedIn body := by
  induction lead with
  | nil => rfl
  | cons c lead ih =>
      obtain ⟨hc, hl⟩ := List.forall_mem_cons.1 hl
      rw [List.cons_append, namedIn_plain hc, ih hl]

theorem IsName.notMem (hn : IsName name) (hc : isNameChar c = false) : c ∉ name := by
  intro mem
  rw [hn.chars c mem] at hc
  cases hc

/-- A name that no value follows is passed over. -/
theorem namedIn_skip (hn : IsName name) (hstop : nextIs isNameChar rest = false)
    (hv : readValue? rest = none) : namedIn (name ++ rest) = namedIn rest := by
  obtain ⟨piece, tail, pieces, rfl, plain, split⟩ := exists_splitOn rest
  have whole := split name (hn.notMem (by decide))
  have own : splitOn ';' (piece ++ tail) = piece :: pieces := split [] (by simp)
  have behind : rawBehind? piece = none := by
    refine Option.eq_none_iff_forall_ne_some.2 fun raw found => ?_
    obtain ⟨filled, blanks, hb, rfl⟩ := rawBehind?_eq_some_iff.1 found
    obtain ⟨c, raw, rfl⟩ := List.exists_cons_of_ne_nil filled
    have text : trimLeft (blanks ++ ':' :: c :: raw ++ tail) = ':' :: c :: (raw ++ tail) := by
      rw [List.append_assoc]
      exact trimLeft_colon hb _
    rw [readValue?_eq_none_iff.1 hv c (raw ++ tail) text] at plain
    simp at plain
  have stop : nextIs isNameChar piece = false := by
    cases piece with
    | nil => rfl
    | cons c piece => exact hstop
  rw [namedIn, namedIn, whole, own, List.filterMap_cons, List.filterMap_cons,
    firstNamed?_name hn stop, behind, Option.map_none, Option.none_or]

/-- A name that a value follows is the one of its piece. -/
theorem exists_namedIn_entry {value following : Text} {closed : Bool} (hn : IsName name)
    (hv : ReadsValue rest value closed following) :
    ∃ raw, value = valueOf raw ∧ namedIn (name ++ rest) = (name, raw) :: namedIn following := by
  have first {blanks raw : Text} (hb : ∀ c ∈ blanks, isBlank c) (hne : raw ≠ []) :
      firstNamed? none (name ++ (blanks ++ ':' :: raw)) = some (name, raw) := by
    rw [firstNamed?_name hn (nextIs_colon hb raw),
      rawBehind?_eq_some_iff.2 ⟨hne, blanks, hb, rfl⟩]
    rfl
  have plain {blanks raw : Text} (hb : ∀ c ∈ blanks, isBlank c) (hr : ';' ∉ raw) :
      ';' ∉ name ++ (blanks ++ ':' :: raw) := by
    have own : ';' ∉ name := hn.notMem (by decide)
    have blank : ';' ∉ blanks := fun mem => absurd (hb _ mem) (by decide)
    simp [own, blank, hr]
  cases hv with
  | @closed blanks raw _ hb hne hr =>
      refine ⟨raw, rfl, ?_⟩
      have split : name ++ (blanks ++ ':' :: (raw ++ ';' :: following)) =
          name ++ (blanks ++ ':' :: raw) ++ ';' :: following := by simp
      rw [split, namedIn, splitOn_append_cons (plain hb hr),
        List.filterMap_cons_some (first hb hne), namedIn]
  | @last blanks raw hb hne hr =>
      refine ⟨raw, rfl, ?_⟩
      rw [namedIn, splitOn_of_notMem (plain hb hr), List.filterMap_cons_some (first hb hne)]
      rfl

/-- The entries of a body are the names of its pieces, with the trimmed text behind the colon. -/
theorem map_entries_read (body : Text) :
    (read body).entries.map (fun e => (e.name, trim e.value)) =
      (namedIn body).map fun (name, raw) => (name, trim raw) := by
  refine read_steps (P := fun t b => b.entries.map (fun e => (e.name, trim e.value)) =
    (namedIn t).map fun (name, raw) => (name, trim raw)) ?_ ?_ ?_ body
  · intro t ht
    have none := namedIn_lead ht []
    rw [List.append_nil] at none
    rw [none]
    rfl
  · intro lead name rest value closed following hl hn hstop hv ih
    obtain ⟨raw, rfl, named⟩ := exists_namedIn_entry hn hv
    rw [List.append_assoc, namedIn_lead hl, named, List.map_cons, ← ih, cons, List.map_cons,
      trim_valueOf]
  · intro lead name rest hl hn hstop hv ih
    rw [List.append_assoc, namedIn_lead hl, namedIn_skip hn hstop hv, ← ih]
    generalize read rest = later
    obtain ⟨entries, tail⟩ := later
    cases entries with
    | nil => rfl
    | cons e entries => rfl

end Block

namespace Declaration

/-- What a piece of a body declares. -/
def ofPiece? (selector piece : Text) : Option Declaration :=
  (Block.firstNamed? none piece).map fun (name, raw) => ⟨trim selector, lower name, trim raw⟩

theorem ofRule_eq_pieces (r : Rule) :
    ofRule r = (splitOn ';' r.body).filterMap (ofPiece? r.selector) := by
  have entries := congrArg (List.map fun (name, value) =>
    (⟨trim r.selector, lower name, value⟩ : Declaration)) (Block.map_entries_read r.body)
  rw [List.map_map, List.map_map, Block.namedIn, List.map_filterMap] at entries
  exact entries

/-- The declarations of a sheet are, rule by rule, what the pieces of the body between `;` declare.
A piece declares by its first run of name characters that has blanks, a colon and more text behind
it: the run in lower case is the property, and the text behind the colon without blanks around it is
the value. A piece without such a run declares nothing. -/
theorem parse_eq_pieces (t : Text) :
    parse t = (Sheet.read t).rules.flatMap (fun (_, r) =>
        (splitOn ';' r.body).filterMap (ofPiece? r.selector)) ∧
      ∀ selector piece,
        (∀ d, ofPiece? selector piece = some d ↔ ∃ front name raw,
          Block.Names none piece front name raw ∧
            (∀ front' name' raw', Block.Names none piece front' name' raw' →
              front.length ≤ front'.length) ∧
            d = ⟨trim selector, lower name, trim raw⟩) ∧
        (ofPiece? selector piece = none ↔ ∀ front name raw,
          ¬ Block.Names none piece front name raw) := by
  refine ⟨List.flatMap_congr fun entry _ => ofRule_eq_pieces entry.2, fun selector piece =>
    ⟨fun d => ?_, ?_⟩⟩
  · rw [ofPiece?, Option.map_eq_some_iff]
    constructor
    · rintro ⟨⟨name, raw⟩, found, rfl⟩
      obtain ⟨front, names, first⟩ := Block.firstNamed?_eq_some_iff.1 found
      exact ⟨front, name, raw, names, first, rfl⟩
    · rintro ⟨front, name, raw, names, first, rfl⟩
      exact ⟨(name, raw), Block.firstNamed?_eq_some_iff.2 ⟨front, names, first⟩, rfl⟩
  · rw [ofPiece?, Option.map_eq_none_iff]
    exact Block.firstNamed?_eq_none_iff

/-- A name without a value, one that is glued to another one, several colons, and a value of blanks
at the end of the body. -/
example : parse "a\x7bb:;.c/D : x:y ;e f: \x7d".toList =
    [⟨['a'], ['d'], "x:y".toList⟩, ⟨['a'], ['f'], []⟩] := by
  cbv

end Declaration

end DesignTokens
