import DesignTokens.Proofs.DistinctNames
import DesignTokens.Proofs.LengthReferences

/-!
Durations and easings of a value as references. Where none of them is in an open call of an easing,
they never overlap, so one walk takes them all; where moreover each one stands alone, durations that
are replaced first and easings that are replaced then leave neither.
-/
namespace DesignTokens

open Text

/-! ### Numerals -/

namespace Numeral.IsWritten

variable {n : Numeral} (h : n.IsWritten)
include h

theorem exists_mem_take_two : ∃ c ∈ n.text.take 2, isDigit c ∨ c = '.' := by
  obtain ⟨c, size, split⟩ := List.exists_cons_of_ne_nil h.size_ne_nil
  have first : isDigit c ∨ c = '.' := h.mem_size_cases c (by simp [split])
  refine ⟨c, ?_, first⟩
  rw [text_eq, split]
  cases n.negative <;> simp

end Numeral.IsWritten

/-! ### Open calls -/

namespace Easing

/-- A text ends inside of a call that could be an easing. -/
def OpenCall (front : Text) : Prop :=
  ∃ start head args, head ∈ calls ∧ front = start ++ (head ++ args) ∧
    start.getLast?.any isNamePart = false ∧ ')' ∉ args

theorem OpenCall.open_mem {front : Text} (h : OpenCall front) : '(' ∈ front := by
  obtain ⟨start, head, args, hh, rfl, -⟩ := h
  have parens : ∀ head ∈ calls, '(' ∈ head := by decide
  simp [parens head hh]

/-- A place inside of an easing is in its keyword, in the name of its call or in an open call. -/
theorem split_cases {a b front : Text} (h : IsEasing (a ++ b)) (hb : b ≠ [])
    (free : front.getLast?.any isNamePart = false) :
    OpenCall (front ++ a) ∨ ∃ name ∈ keywords ++ calls, ∃ c rest, c ≠ [] ∧ name = a ++ c ∧
      b = c ++ rest := by
  rcases h with keyword | ⟨head, hh, args, flat, text⟩
  · exact .inr ⟨a ++ b, List.mem_append_left _ keyword, b, [], hb, rfl, by simp⟩
  · rw [List.append_assoc] at text
    rcases List.append_eq_append_iff.1 text with ⟨c, rfl, rfl⟩ | ⟨c, rfl, inner⟩
    · by_cases whole : c = []
      · subst whole
        exact .inl ⟨front, a, [], by simpa using hh, by simp, free, by simp⟩
      · exact .inr ⟨a ++ c, List.mem_append_right _ hh, c, args ++ [')'], whole, rfl, rfl⟩
    · obtain ⟨b, d, rfl⟩ := List.eq_nil_or_concat b |>.resolve_left hb
      rw [List.concat_eq_append, ← List.append_assoc] at inner
      obtain ⟨rfl, -⟩ := List.append_inj' inner rfl
      exact .inl ⟨front, head, c, hh, rfl, free, fun close => flat (List.mem_append_left _ close)⟩

theorem stops {front : Text} (h : ¬ OpenCall front) : Stops IsEasing isNamePart front := by
  rintro start a b rfl free easing hne
  obtain ⟨name, listed, c, rest, filled, rfl, rfl⟩ := (split_cases easing hne free).resolve_left h
  have plain : (keywords ++ calls).all fun name => !name.contains 'v' := by decide
  have other : 'v' ∉ a ++ c := by simpa using List.all_eq_true.1 plain _ listed
  obtain ⟨d, c, rfl⟩ := List.exists_cons_of_ne_nil filled
  constructor
  · intro short
    obtain ⟨rfl, -⟩ := List.cons_prefix_cons.1 short
    exact other (by simp)
  · intro long
    obtain ⟨rfl, -⟩ := List.cons_prefix_cons.1 long
    exact other (by simp)

theorem isNamePart_of_isPart {c : Char} (h : TokenName.isPart c) : isNamePart c := by
  have joins := joinsNext_of_isPart h
  simp only [Length.joinsNext, Bool.or_eq_true, beq_iff_eq] at joins
  rcases joins with (word | rfl) | rfl
  · exact Bool.or_eq_true_iff.2 (.inl word)
  · cases h
  · rfl

/-- The first characters of easings. -/
def initials : List Char := ['e', 'l', 's', 'c']

theorem exists_head {t : Text} (h : IsEasing t) :
    ∃ c d rest, t = c :: d :: rest ∧ initials.contains c ∧ isWord d := by
  have heads : ∀ name ∈ keywords ++ calls,
      name.head?.any (initials.contains ·) ∧ name.tail.head?.any isWord := by decide
  have split {name : Text} (listed : name ∈ keywords ++ calls) : ∃ c d rest,
      name = c :: d :: rest ∧ initials.contains c ∧ isWord d := by
    have first := heads name listed
    cases name with
    | nil => cases first.1
    | cons c name =>
        cases name with
        | nil => cases first.2
        | cons d rest => exact ⟨c, d, rest, rfl, first⟩
  rcases h with keyword | ⟨head, hh, args, -, rfl⟩
  · exact split (List.mem_append_left _ keyword)
  · obtain ⟨c, d, rest, rfl, first⟩ := split (List.mem_append_right _ hh)
    exact ⟨c, d, rest ++ args ++ [')'], by simp, first⟩

/-- An easing does not start like a numeral. -/
theorem not_first {c : Char} (h : initials.contains c)
    (first : isDigit c ∨ c = '.' ∨ c = '-') : False := by
  have letters : initials.all fun c => !isDigit c := by decide
  rcases first with digit | rfl | rfl
  · have other := List.all_eq_true.1 letters c (List.contains_iff_mem.1 h)
    rw [digit] at other
    cases other
  · cases h
  · cases h

/-- No duration starts in a keyword or in the name of a call. -/
theorem not_measures {a c : Text} (listed : a ++ c ∈ keywords ++ calls) (hc : c ≠ []) {token rest
    back : Text} (h : Measures Duration.unitNames token) (text : c ++ rest = token ++ back) :
    False := by
  have plain : (keywords ++ calls).all fun name =>
      (name.all fun d => !isDigit d && d != '.') && name.getLast?.any (· != '-') := by decide
  have name := List.all_eq_true.1 plain _ listed
  simp only [Bool.and_eq_true, List.all_eq_true, Bool.not_eq_true', bne_iff_ne] at name
  obtain ⟨letters, last⟩ := name
  obtain ⟨n, unit, -, written, rfl⟩ := h
  rw [List.append_assoc] at text
  cases c with
  | nil => exact hc rfl
  | cons d c =>
      cases c with
      | nil =>
          obtain ⟨e, size, split⟩ := List.exists_cons_of_ne_nil written.text_ne_nil
          rw [split] at text
          obtain ⟨rfl, -⟩ := List.cons.inj text
          have apart := letters d (by simp)
          rcases written.mem_text_cases d (by simp [split]) with digit | rfl | rfl
          · rw [apart.1] at digit
            cases digit
          · exact apart.2 rfl
          · simp at last
      | cons e c =>
          obtain ⟨x, hx, first⟩ := written.exists_mem_take_two
          have taken : x ∈ [d, e] := by
            have start := ((List.prefix_append n.text (unit ++ back)).take 2).subset hx
            rwa [← text] at start
          have apart := letters x (by
            rcases List.mem_cons.1 taken with rfl | taken
            · simp
            · simp [List.mem_singleton.1 taken])
          rcases first with digit | point
          · rw [apart.1] at digit
            cases digit
          · exact apart.2 point

/-- Where an easing is found no duration starts up to its end, unless one is in an open call. -/
theorem pass_duration {P : Text → Text → Prop} {Q : Text → Text → Text → Prop}
    {front text rest : Text} (found : token front.getLast? (text ++ rest) = some text.length)
    (h : Walk Duration.token P Q front (text ++ rest))
    (closed : ∀ front token back, Q front token back → ¬ OpenCall front) :
    Silent Duration.token front.getLast? text rest ∧
      Walk Duration.token P Q (front ++ text) rest := by
  obtain ⟨easing, free, -⟩ := scans_token.taken found
  refine h.pass.resolve_right ?_
  rintro ⟨a, b, duration, back, rfl, hb, same, taken, known⟩
  obtain ⟨name, listed, c, tail, filled, rfl, rfl⟩ :=
    (split_cases easing hb free).resolve_left (closed _ _ _ known)
  rw [List.append_assoc] at same
  exact not_measures listed filled (Duration.scans_token.taken taken).1 same

end Easing

namespace Duration

theorem close_notMem {text : Text} (h : Measures unitNames text) : ')' ∉ text := by
  obtain ⟨n, unit, hu, written, rfl⟩ := h
  have units : ∀ unit ∈ unitNames, ')' ∉ unit := by decide
  rw [List.mem_append, not_or]
  refine ⟨fun close => ?_, units unit hu⟩
  rcases written.mem_text_cases _ close with digit | other | other
  · cases digit
  · cases other
  · cases other

/-- Where a duration is found no easing starts inside of it. -/
theorem pass_easing {P : Text → Text → Prop} {Q : Text → Text → Text → Prop}
    {front text rest : Text} (found : token front.getLast? (text ++ rest) = some text.length)
    (h : Walk Easing.token P Q front (text ++ rest))
    (copied : ∀ n, Easing.token front.getLast? (text ++ rest) ≠ some (n + 1)) :
    Walk Easing.token P Q (front ++ text) rest := by
  obtain ⟨⟨n, unit, hu, written, rfl⟩, -, next⟩ := scans_token.taken found
  refine (h.pass.resolve_right ?_).2
  rintro ⟨a, b, easing, back, text, hb, same, taken, -⟩
  obtain ⟨c, d, tail, rfl, hc, hd⟩ := Easing.exists_head (Easing.scans_token.taken taken).1
  obtain ⟨e, b, rfl⟩ := List.exists_cons_of_ne_nil hb
  obtain ⟨rfl, later⟩ := List.cons.inj same
  -- Only the last letter of the unit could start an easing, but no letter follows.
  have letter : e :: b <:+ unit := by
    rcases List.append_eq_append_iff.1 text with ⟨x, -, cut⟩ | ⟨x, cut, text'⟩
    · exact ⟨x, cut.symm⟩
    · cases x with
      | nil => exact ⟨[], text'⟩
      | cons y x =>
          obtain ⟨rfl, -⟩ := List.cons.inj text'
          exact (Easing.not_first hc (written.mem_text_cases e (by simp [cut]))).elim
  have lasts : unitNames.all fun unit => unit.tails.all fun ending =>
      ending.tail.isEmpty || !ending.head?.any (Easing.initials.contains ·) := by decide
  have last := List.all_eq_true.1 (List.all_eq_true.1 lasts unit hu) _ ((List.mem_tails _ _).2 letter)
  cases b with
  | nil =>
      obtain rfl : rest = d :: (tail ++ back) := later
      have word : nextIs isWord (d :: (tail ++ back)) := hd
      rw [next] at word
      cases word
  | cons f b =>
      have starts : (!Easing.initials.contains e) = true := last
      rw [hc] at starts
      cases starts

end Duration

/-! ### Motion -/

namespace Motion

/-- The texts that are replaced in a motion value. -/
def IsMotion (t : Text) : Prop := Easing.IsEasing t ∨ Measures Duration.unitNames t

/-- The easings and durations that stand alone. -/
def token : Recognizer := eitherToken (aloneToken Easing.token) (aloneToken Duration.token)

theorem head?_ne {text text' : Text} (easing : Easing.IsEasing text)
    (measures : Measures Duration.unitNames text') : text.head? ≠ text'.head? := by
  intro same
  obtain ⟨c, d, rest, rfl, letter, -⟩ := Easing.exists_head easing
  obtain ⟨n, unit, -, written, rfl⟩ := measures
  have first : c ∈ n.text := by
    rw [List.head?_cons, List.head?_append_of_ne_nil _ written.text_ne_nil] at same
    exact List.mem_of_mem_head? same.symm
  exact Easing.not_first letter (written.mem_text_cases c first)

theorem joinsNext_of_isNamePart {c : Char} (h : Easing.isNamePart c) : Length.joinsNext c := by
  rw [Easing.isNamePart, Bool.or_eq_true] at h
  rw [Length.joinsNext, Bool.or_eq_true, Bool.or_eq_true]
  exact h.imp_left .inl

theorem joinsNext_of_joinsNumber {c : Char} (h : Duration.joinsNumber c) : Length.joinsNext c :=
  Bool.or_eq_true_iff.2 (.inl h)

theorem joinsPrevious_of_joinsNext {c : Char} (h : Length.joinsNext c) : joinsPrevious c :=
  Bool.or_eq_true_iff.2 (.inl h)

theorem joinsPrevious_of_isWord {c : Char} (h : isWord c) : joinsPrevious c :=
  joinsPrevious_of_joinsNext (joinsNext_of_joinsNumber (Bool.or_eq_true_iff.2 (.inl h)))

theorem scans_token : Scans token IsMotion Length.joinsNext joinsPrevious :=
  (Easing.scans_token.alone (fun _ => joinsNext_of_isNamePart)
    fun _ part => joinsPrevious_of_joinsNext (joinsNext_of_isNamePart part)).either
      (Duration.scans_token.alone (fun _ => joinsNext_of_joinsNumber)
        fun _ => joinsPrevious_of_isWord)
      fun _ _ => head?_ne

/-- A token that is known, stands alone and is in no open call. -/
structure Ready (known : Text → Prop) (front token back : Text) : Prop where
  known : known token
  alone : standsAlone front.getLast? back
  closed : ¬ Easing.OpenCall front

/-- One walk that takes the easings and the durations. -/
theorem walk_token {known : Text → Prop} {front t : Text}
    (easings : Walk Easing.token (fun _ _ => True) (Ready known) front t)
    (durations : Walk Duration.token (fun _ _ => True) (Ready known) front t) :
    Walk token
      (fun front t => (∀ n, Easing.token front.getLast? t ≠ some (n + 1)) ∧
        ∀ n, Duration.token front.getLast? t ≠ some (n + 1))
      (fun front token back => Ready known front token back ∧
        (Easing.IsEasing token → Silent Duration.token front.getLast? token back)) front t := by
  have found {front text rest : Text} (motion : IsMotion text)
      (alone : standsAlone front.getLast? rest) :
      token front.getLast? (text ++ rest) = some text.length := by
    rw [standsAlone, Bool.and_eq_true, Bool.not_eq_true', Bool.not_eq_true'] at alone
    exact scans_token.of_append motion alone.1 alone.2
  have shorter {text rest : Text} {k : Nat} (hne : text ≠ []) (length : (text ++ rest).length = k) :
      rest.length < k := by
    have positive := List.length_pos_of_ne_nil hne
    rw [List.length_append] at length
    omega
  induction length : t.length using Nat.strong_induction_on generalizing front t with
  | h k ih =>
      cases t with
      | nil => exact .nil
      | cons c t =>
          rcases easings.cases_cons with ⟨copied, -, easings'⟩ |
              ⟨text, rest, same, hne, taken, ready, easings'⟩
          · rcases durations.cases_cons with ⟨copied', -, durations'⟩ |
                ⟨text, rest, same, hne, taken, ready, durations'⟩
            · have none (n : Nat) : token front.getLast? (c :: t) ≠ some (n + 1) := by
                intro taken
                rcases Option.or_eq_some_iff.1 taken with alone | ⟨-, alone⟩
                · exact copied n (Scans.alone_iff.1 alone).1
                · exact copied' n (Scans.alone_iff.1 alone).1
              exact .plain none ⟨copied, copied'⟩
                (ih _ (shorter (List.cons_ne_nil c []) length) easings' durations' rfl)
            · rw [same] at easings copied length ⊢
              have motion : IsMotion text := .inr (Duration.scans_token.taken taken).1
              refine .token hne (found motion ready.alone) ⟨ready, fun easing => ?_⟩
                (ih _ (shorter hne length) (Duration.pass_easing taken easings copied) durations' rfl)
              exact absurd rfl (head?_ne easing (Duration.scans_token.taken taken).1)
          · rw [same] at durations length ⊢
            obtain ⟨silent, durations'⟩ := Easing.pass_duration taken durations
              fun _ _ _ ready => ready.closed
            have motion : IsMotion text := .inl (Easing.scans_token.taken taken).1
            exact .token hne (found motion ready.alone) ⟨ready, fun _ => silent⟩
              (ih _ (shorter hne length) easings' durations' rfl)

end Motion

/-! ### Names -/

/-- A duration has a digit right before its unit, which starts with one of two letters. -/
theorem Duration.exists_digit_unit {token : Text} (h : Measures Duration.unitNames token) :
    ∃ number e u unit, isDigit e ∧ (u = 's' ∨ u = 'm') ∧ token = number ++ [e] ++ u :: unit := by
  obtain ⟨m, unit, hu, written, rfl⟩ := h
  obtain ⟨e, last, digit⟩ := (Option.any_eq_true _ _).1 written.getLast?_text
  obtain ⟨number, split⟩ := List.getLast?_eq_some_iff.1 last
  obtain ⟨u, unit, rfl⟩ := List.exists_cons_of_ne_nil (Duration.areUnits.ne_nil hu)
  have units : ∀ unit ∈ Duration.unitNames, unit.head? = some 's' ∨ unit.head? = some 'm' := by
    decide
  exact ⟨number, e, u, unit, digit, by simpa using units _ hu, by rw [split]⟩

namespace TokenName

/-- In a name no digit is directly followed by the first letter of a unit of time. -/
def Untimed (name : Text) : Prop :=
  ∃ front back, name = front ++ back ∧ (∀ c ∈ front, isDigit c = false) ∧ 's' ∉ back ∧ 'm' ∉ back

theorem untimed_append {front back : Text} (hf : front.all (!isDigit ·))
    (hb : ∀ c ∈ back, isDashOrDigit c ∨ c ∈ "0123456789abcdef".toList) : Untimed (front ++ back) := by
  have other {c : Char} (plain : ¬ (isDashOrDigit c ∨ c ∈ "0123456789abcdef".toList)) : c ∉ back :=
    fun mem => plain (hb c mem)
  exact ⟨front, back, rfl, by simpa using hf, other (by decide), other (by decide)⟩

theorem untimed_suffixed {name : Text} (h : Untimed name) (n : Nat) :
    Untimed (suffixed name n) := by
  obtain ⟨front, back, rfl, plain, hs, hm⟩ := h
  have other {c : Char} (letter : isDashOrDigit c = false) : c ∉ '-' :: Number.digits n := by
    intro mem
    rw [isDashOrDigit, Bool.or_eq_false_iff, beq_eq_false_iff_ne] at letter
    rcases List.mem_cons.1 mem with dash | digit
    · exact letter.1 dash
    · rw [Number.isDigit_of_mem_digits c digit] at letter
      cases letter.2
  refine ⟨front, back ++ '-' :: Number.digits n, List.append_assoc _ _ _, plain, ?_, ?_⟩
  · rw [List.mem_append, not_or]
    exact ⟨hs, other (by decide)⟩
  · rw [List.mem_append, not_or]
    exact ⟨hm, other (by decide)⟩

theorem untimed_base {s : NameScheme} (start : s.start.all (!isDigit ·))
    (separator : s.separator = ['-']) (literal : Text) (index : Int) :
    Untimed (s.base literal index) := by
  have front : ("--".toList ++ s.start).all (!isDigit ·) := by
    rw [List.all_append, start]
    decide
  rw [NameScheme.base]
  split
  · refine untimed_append front fun c hc => ?_
    rcases List.mem_cons.1 hc with rfl | hc
    · exact .inl rfl
    · obtain ⟨b, -, hc⟩ := List.mem_flatMap.1 hc
      exact .inr (mem_of_mem_hexDigits c hc)
  · rw [separator, List.append_assoc]
    refine untimed_append front fun c hc => .inl ?_
    rcases List.mem_append.1 hc with dash | digit
    · rw [List.mem_singleton.1 dash]
      rfl
    · exact isDashOrDigit_of_mem_padNumber c digit

/-- A digit right before a unit of time is not in what comes up to the end of such a name. -/
theorem Untimed.append_ne {name : Text} {e u : Char} (h : Untimed name) (digit : isDigit e)
    (letter : u = 's' ∨ u = 'm') (a back : Text) : opening ++ name ≠ a ++ [e] ++ u :: back := by
  obtain ⟨start, tail, rfl, plain, hs, hm⟩ := h
  rw [← List.append_assoc]
  intro places
  rcases List.append_eq_append_iff.1 places with ⟨y, -, cut⟩ | ⟨y, cut, -⟩
  · have inside : u ∈ tail := by simp [cut]
    rcases letter with rfl | rfl
    · exact hs inside
    · exact hm inside
  · have inside : e ∈ opening ++ start := by simp [cut]
    rcases List.mem_append.1 inside with opens | inside
    · have letters : opening.all (!isDigit ·) := by decide
      have none := List.all_eq_true.1 letters e opens
      rw [digit] at none
      cases none
    · rw [plain e inside] at digit
      cases digit

/-- A duration is not found in a reference with such a name. -/
theorem Untimed.avoids {name : Text} (h : Untimed name) : Avoids Duration.token name := by
  intro before rest a b n hne text found
  obtain ⟨token, after, same, -, measures, -⟩ := (Duration.scans_token.iff _ _ _).1 found
  obtain ⟨b, d, rfl⟩ := List.eq_nil_or_concat b |>.resolve_left hne
  rw [List.concat_eq_append] at text same
  have whole : opening ++ name ++ [')'] = a ++ b ++ [d] :=
    text.trans (List.append_assoc _ _ _).symm
  obtain ⟨inner, close⟩ := List.append_inj' whole rfl
  obtain rfl := (List.singleton_inj.1 close).symm
  rw [List.append_assoc] at same
  -- the duration is over before the reference closes
  obtain ⟨x, rfl⟩ : ∃ x, b = token ++ x := by
    rcases List.append_eq_append_iff.1 same with ⟨x, cut, tail⟩ | ⟨x, cut, -⟩
    · cases x with
      | nil => exact ⟨[], by simp [cut]⟩
      | cons e x =>
          obtain ⟨rfl, -⟩ := List.cons.inj tail
          exact absurd (by simp [cut]) (Duration.close_notMem measures)
    · exact ⟨x, cut⟩
  obtain ⟨number, e, u, unit, digit, letter, rfl⟩ := Duration.exists_digit_unit measures
  exact h.append_ne digit letter (a ++ number) (unit ++ x) (by simpa using inner)

end TokenName

theorem TokenTables.untimed_table {candidates : Candidates} {roles : RoleAssignment}
    {config : Config} (prefixes : config.tokenPrefix = Config.default.tokenPrefix) (c : Category) :
    ∀ e ∈ ((ofCandidates candidates roles config).table c).entries, TokenName.Untimed e.2 := by
  intro e he
  rw [table_ofCandidates, nameCategory] at he
  split at he
  · refine TokenName.forall_mem_assign (TokenName.untimed_base ?_ rfl)
      (fun _ n h => TokenName.untimed_suffixed h n) _ _ _
        (List.of_mem_zip (OrderedMap.mem_ofList he)).2
    change (config.nameStart (.category c)).all (!isDigit ·)
    rw [nameStart_eq prefixes]
    cases c <;> decide
  · cases he

namespace Motion

/-! ### Values -/

/-- A closing parenthesis stands only at the end of what is replaced. -/
theorem close_last {text a b : Text} (motion : IsMotion text) (cut : text = a ++ b) (hb : b ≠ []) :
    ')' ∉ a := by
  have names : (Easing.keywords ++ Easing.calls).all fun name => !name.contains ')' := by decide
  have plain {name : Text} (listed : name ∈ Easing.keywords ++ Easing.calls) : ')' ∉ name := by
    simpa using List.all_eq_true.1 names name listed
  rcases motion with (keyword | ⟨head, hh, args, flat, text⟩) | measures
  · exact fun close => plain (List.mem_append_left _ keyword) (by simp [cut, close])
  · obtain ⟨b, d, rfl⟩ := List.eq_nil_or_concat b |>.resolve_left hb
    rw [text, List.concat_eq_append, ← List.append_assoc] at cut
    obtain ⟨same, -⟩ := List.append_inj' cut rfl
    intro close
    rcases List.mem_append.1 (same ▸ List.mem_append_left b close) with inside | inside
    · exact plain (List.mem_append_right _ hh) inside
    · exact flat inside
  · exact fun close => Duration.close_notMem measures (by simp [cut, close])

theorem stops {front : Text} (h : ¬ Easing.OpenCall front) :
    Stops IsMotion Length.joinsNext front := by
  intro start a b text free motion hne
  rcases motion with easing | measures
  · have apart := any_eq_false_of_imp (fun _ => joinsNext_of_isNamePart) free
    exact Easing.stops h start a b text apart easing hne
  · exact Duration.areUnits.stops Length.joinsNext front start a b text free measures hne

section Map

variable {durations easings : TokenMap} {v : Text}
  (timed : ∀ e ∈ durations.entries, Measures Duration.unitNames e.1)
  (eased : ∀ e ∈ easings.entries, Easing.IsEasing e.1)
  (names : ∀ e ∈ durations.entries ++ easings.entries, TokenName.Valid e.2)
  (listed : ∀ text ∈ Duration.literals v, text ∈ durations.keys)
  (listed' : ∀ text ∈ Easing.literals v, text ∈ easings.keys)
  (ready : ∀ r ∈ [Duration.token, Easing.token], ∀ front text back, Takes r v front text back →
    standsAlone front.getLast? back ∧ ¬ Easing.OpenCall front)

/-- A literal that has a token among the durations or the easings. -/
def Known (durations easings : TokenMap) (text : Text) : Prop :=
  Measures Duration.unitNames text ∧ text ∈ durations.keys ∨
    Easing.IsEasing text ∧ text ∈ easings.keys

include timed in
/-- Longer easings come first. -/
theorem length_le_of_later {done later : List (Text × Text)} {e : Text × Text}
    (split : durations.byLength ++ easings.byLength = done ++ e :: later)
    (easing : Easing.IsEasing e.1) {text : Text} (known : text ∈ easings.keys)
    (new : done.lookup text = none) (other : text ≠ e.1) : text.length ≤ e.1.length := by
  obtain ⟨x, cut, before⟩ : ∃ x, easings.byLength = x ++ e :: later ∧ ∀ e ∈ x, e ∈ done := by
    rcases List.append_eq_append_iff.1 split with ⟨x, rfl, cut⟩ | ⟨x, text, cut⟩
    · exact ⟨x, cut, fun e he => List.mem_append_right _ he⟩
    · cases x with
      | nil => exact ⟨[], cut.symm, nofun⟩
      | cons d x =>
          obtain ⟨rfl, -⟩ := List.cons.inj cut
          have duration := timed e (TokenMap.mem_byLength.1 (by simp [text]))
          exact absurd rfl (head?_ne easing duration)
  obtain ⟨e', he', rfl⟩ := List.mem_map.1 known
  have place := TokenMap.mem_byLength.2 he'
  have lengths := easings.pairwise_byLength
  rw [cut] at place lengths
  rcases List.mem_append.1 place with earlier | place
  · have missing := List.lookup_eq_none_iff.1 new e' (before e' earlier)
    simp at missing
  · rcases List.mem_cons.1 place with rfl | place
    · exact absurd rfl other
    · exact (List.pairwise_cons.1 (List.pairwise_append.1 lengths).2.1).1 e' place

/-- Inside of a call neither a duration nor a short easing stands alone. -/
theorem inside_call {front text back literal : Text} (closed : text.getLast? = some ')')
    (silent : Silent Duration.token front.getLast? text back) (hl : IsMotion literal)
    (short : Easing.IsEasing literal → text.length ≤ literal.length) :
    Inside (loneToken .exact literal) text := by
  intro a b rest cut ha hb
  rw [Option.eq_none_iff_forall_ne_some]
  intro n found
  obtain ⟨alone, -⟩ := loneToken_eq_some_iff.1 found
  have close : ')' ∈ b := by
    rw [cut, List.getLast?_append_of_ne_nil _ hb] at closed
    exact List.mem_of_getLast? closed
  -- the literal is over before the call is, since it has no closing parenthesis but its last one
  obtain ⟨x, start⟩ := List.isPrefixOf_iff_prefix.1 alone.found
  obtain ⟨y, rfl⟩ : ∃ y, b = literal ++ y := by
    rcases List.append_eq_append_iff.1 start with ⟨y, same, -⟩ | ⟨y, same, -⟩
    · exact ⟨y, same⟩
    · by_cases past : y = []
      · exact ⟨[], by simp [same, past]⟩
      · exact absurd close (close_last hl same past)
  rcases hl with easing | measures
  · have long := short easing
    have lengths := congrArg List.length cut
    have positive := List.length_pos_of_ne_nil ha
    rw [List.length_append, List.length_append] at lengths
    omega
  · have after := alone.back
    cases y with
    | nil =>
        rw [List.append_nil] at close
        exact Duration.close_notMem measures close
    | cons c y =>
        rw [List.append_assoc, List.drop_left] at after
        have next : nextIs isWord (c :: y ++ back) = false :=
          any_eq_false_of_imp (c := some c) (fun _ => joinsPrevious_of_isWord) after
        have taken := Duration.scans_token.of_append measures
          (any_eq_false_of_imp (fun _ => joinsNext_of_joinsNumber) alone.front) next
        have filled := (Duration.areUnits.begins measures).ne_nil
        refine silent.ne cut hb filled ?_
        rwa [List.append_assoc, List.getLast?_eq_some_getLast ha, Option.some_or,
          ← List.getLast?_eq_some_getLast ha]

/-- Inside of a token neither a duration nor a short easing stands alone. -/
theorem inside_loneToken {front text back literal : Text} (motion : IsMotion text)
    (silent : Easing.IsEasing text → Silent Duration.token front.getLast? text back)
    (hl : IsMotion literal)
    (short : Easing.IsEasing text → Easing.IsEasing literal → text.length ≤ literal.length) :
    Inside (loneToken .exact literal) text := by
  rcases motion with (keyword | ⟨head, hh, args, flat, rfl⟩) | measures
  · have keywords : Easing.keywords.all fun k => k.all Length.joinsNext := by decide
    have joins := List.all_eq_true.1 (List.all_eq_true.1 keywords _ keyword)
    exact fun a b rest text ha hb => loneToken_inside_eq_none
      (fun c hc => joins c (List.dropLast_subset _ hc)) text ha hb rest
  · have easing : Easing.IsEasing (head ++ args ++ [')']) := .inr ⟨head, hh, args, flat, rfl⟩
    exact inside_call List.getLast?_concat (silent easing) hl (short easing)
  · exact Duration.areUnits.inside measures .exact literal

include listed listed' ready in
theorem walk_value : Walk token
    (fun front t => (∀ n, Easing.token front.getLast? t ≠ some (n + 1)) ∧
      ∀ n, Duration.token front.getLast? t ≠ some (n + 1))
    (fun front text back => Ready (Known durations easings) front text back ∧
      (Easing.IsEasing text → Silent Duration.token front.getLast? text back)) [] v := by
  refine walk_token (.of_takes Easing.scans_token.bounded fun front text back taken => ?_)
    (.of_takes Duration.scans_token.bounded fun front text back taken => ?_)
  · obtain ⟨alone, closed⟩ := ready Easing.token (by simp) _ _ _ taken
    exact ⟨.inr ⟨Easing.eq_of_mem_literals taken.mem_tokens, listed' _ taken.mem_tokens⟩, alone,
      closed⟩
  · obtain ⟨alone, closed⟩ := ready Duration.token (by simp) _ _ _ taken
    obtain ⟨n, unit, hu, written, text⟩ := Duration.exists_of_mem_literals taken.mem_tokens
    exact ⟨.inl ⟨⟨n, unit, hu, written, text⟩, listed _ taken.mem_tokens⟩, alone, closed⟩

include listed listed' ready timed eased names in
/-- The easings and durations that stand alone are replaced, and nothing else is. -/
theorem substitute_eq :
    easings.substituteLone .exact (durations.substituteLone .exact v) =
      mapTokens token (named fun text => (durations.byLength ++ easings.byLength).lookup text) v := by
  have entries {P : Text × Text → Prop} (hd : ∀ e ∈ durations.entries, P e)
      (he : ∀ e ∈ easings.entries, P e) : ∀ e ∈ durations.byLength ++ easings.byLength, P e :=
    List.forall_mem_append.2 ⟨fun e h => hd e (TokenMap.mem_byLength.1 h),
      fun e h => he e (TokenMap.mem_byLength.1 h)⟩
  have kinds : ∀ e ∈ durations.byLength ++ easings.byLength, IsMotion e.1 :=
    entries (fun e h => .inr (timed e h)) fun e h => .inl (eased e h)
  rw [List.forall_mem_append] at names
  have whole := (walk_value listed listed' ready).foldl_replaceLone scans_token kinds
    (fun e he => (entries names.1 names.2 e he).unbroken) (fun _ _ _ known => stops known.1.closed) ?_
  · rw [← whole, List.foldl_append]
    rfl
  · rintro done e later split front text back ⟨⟨known, -, -⟩, silent⟩ new other
    refine inside_loneToken (known.elim (fun h => .inr h.1) fun h => .inl h.1) silent
      (kinds e (by simp [split])) fun easing easing' => ?_
    refine length_le_of_later timed split easing' ?_ new other
    exact (known.resolve_left fun h => head?_ne easing h.1 rfl).2

/-- The text of an easing or a duration becomes the reference of its token. -/
theorem exists_name_of_known {text : Text} (known : Known durations easings text) :
    ∃ name, (durations.byLength ++ easings.byLength).lookup text = some name ∧
      ∃ e ∈ durations.entries ++ easings.entries, e.2 = name := by
  obtain ⟨e, he, rfl⟩ : ∃ e ∈ durations.byLength ++ easings.byLength, e.1 = text := by
    rcases known with ⟨-, listed⟩ | ⟨-, listed⟩ <;> obtain ⟨e, he, rfl⟩ := List.mem_map.1 listed
    · exact ⟨e, List.mem_append_left _ (TokenMap.mem_byLength.2 he), rfl⟩
    · exact ⟨e, List.mem_append_right _ (TokenMap.mem_byLength.2 he), rfl⟩
  obtain ⟨name, known⟩ := Option.isSome_iff_exists.1
    (List.lookup_isSome_iff.2 ⟨e, he, beq_self_eq_true _⟩)
  have entry : (e.1, name) ∈ durations.byLength ++ easings.byLength := mem_of_lookup_eq_some known
  exact ⟨name, known, _, (List.mem_append.1 entry).elim
    (fun h => List.mem_append_left _ (TokenMap.mem_byLength.1 h))
    (fun h => List.mem_append_right _ (TokenMap.mem_byLength.1 h)), rfl⟩

include listed listed' ready timed eased names in
/-- Where all durations and easings stand alone and none is in an open call, neither is left. -/
theorem literals_substitute (untimed : ∀ e ∈ durations.entries ++ easings.entries,
    TokenName.Untimed e.2) :
    Duration.literals (easings.substituteLone .exact (durations.substituteLone .exact v)) = [] ∧
      Easing.literals (easings.substituteLone .exact (durations.substituteLone .exact v)) = [] := by
  rw [substitute_eq timed eased names listed listed' ready, Duration.literals, Easing.literals,
    tokens_eq_nil_iff, tokens_eq_nil_iff]
  have walk := walk_value listed listed' ready
  constructor
  · refine walk.silent_mapFrom scans_token Duration.scans_token (by decide)
      (fun front _ _ _ => Duration.areUnits.stops _ front) ?_ ?_ (.inl rfl)
    · rintro front text back ⟨ready, -⟩
      obtain ⟨name, known, e, he, rfl⟩ := exists_name_of_known ready.known
      exact ⟨_, known, (untimed e he).avoids⟩
    · rintro front t n - ⟨-, copied⟩ found
      obtain ⟨text, back, -, rfl, measures, -⟩ := (Duration.scans_token.iff _ _ _).1 found
      rw [length_eq_succ (Duration.areUnits.begins measures).ne_nil] at found
      exact absurd found (copied _)
  · refine walk.silent_mapFrom scans_token Easing.scans_token (by decide)
      (fun front _ _ known => Easing.stops known.1.closed) ?_ ?_ (.inl rfl)
    · rintro front text back ⟨ready, -⟩
      obtain ⟨name, known, e, he, rfl⟩ := exists_name_of_known ready.known
      exact ⟨_, known, Easing.scans_token.avoids (by decide) (names e he).dashes fun c hc =>
        Easing.isNamePart_of_isPart ((names e he).parts c hc)⟩
    · rintro front t n - ⟨copied, -⟩ found
      obtain ⟨text, back, -, rfl, easing, -⟩ := (Easing.scans_token.iff _ _ _).1 found
      rw [length_eq_succ (Easing.begins easing).ne_nil] at found
      exact absurd found (copied _)

end Map

end Motion

end DesignTokens
