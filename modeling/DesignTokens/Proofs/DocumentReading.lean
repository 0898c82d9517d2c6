import DesignTokens.Proofs.DeclarableValues
import DesignTokens.Proofs.TokenNames

/-!
A document without its comments is read as the declarations that are its lines. A line is a chunk
with the line feed in front of it; a chunk that loses its comment leaves blanks, and these are part
of what stands before the next name.
-/
namespace DesignTokens

open Text

namespace Text

theorem length_cutFirst? {part t front rest : Text} (h : cutFirst? part t = some (front, rest)) :
    rest.length ≤ t.length := by
  induction t generalizing front with
  | nil =>
      rw [cutFirst?] at h
      split_ifs at h
      cases h
      exact le_rfl
  | cons c t ih =>
      rw [cutFirst?] at h
      split_ifs at h
      · cases h
        exact (List.drop_sublist _ _).length_le
      · obtain ⟨⟨front, rest⟩, hr, he⟩ := Option.map_eq_some_iff.1 h
        cases he
        exact (ih hr).trans (by simp)

/-- The text without its comments, from left to right. A comment ends at the first `*/` after its
opening; an opening that nothing closes stays. -/
def withoutComments (t : Text) : Text :=
  match t with
  | [] => []
  | c :: rest =>
    if ['/', '*'].isPrefixOf (c :: rest) then
      match _h : cutFirst? ['*', '/'] (rest.drop 1) with
      | some (_, after) => withoutComments after
      | none => c :: rest
    else c :: withoutComments rest
termination_by t.length
decreasing_by
  · have tail := length_cutFirst? _h
    rw [List.length_drop] at tail
    simp only [List.length_cons]
    omega
  · simp

theorem withoutComments_cons {c : Char} {rest : Text} (h : ¬ ['/', '*'] <+: c :: rest) :
    withoutComments (c :: rest) = c :: withoutComments rest := by
  rw [withoutComments, if_neg (by rwa [List.isPrefixOf_iff_prefix])]

/-- Text without a comment stays in front of text that closes no opening. -/
theorem withoutComments_append {a rest : Text} (h : ¬ ['/', '*'] <:+: a)
    (hr : nextIs (· == '*') rest = false) :
    withoutComments (a ++ rest) = a ++ withoutComments rest := by
  induction a with
  | nil => rfl
  | cons c a ih =>
      rw [List.infix_cons_iff, not_or] at h
      have first : ¬ ['/', '*'] <+: c :: (a ++ rest) := by
        intro start
        cases a with
        | nil =>
            obtain ⟨-, start⟩ := List.cons_prefix_cons.1 start
            cases rest with
            | nil => simp at start
            | cons d rest =>
                obtain ⟨rfl, -⟩ := List.cons_prefix_cons.1 start
                cases hr
        | cons d a =>
            apply h.1
            simpa [List.cons_prefix_cons] using start
      rw [List.cons_append, withoutComments_cons first, ih h.2]
      rfl

theorem cutFirst?_append {d : Char} {front : Text} (h : d ∉ front) (part rest : Text) :
    cutFirst? (d :: part) (front ++ (d :: part ++ rest)) = some (front, rest) := by
  induction front with
  | nil =>
      have start : (d :: part).isPrefixOf (d :: (part ++ rest)) :=
        List.isPrefixOf_iff_prefix.2 (List.prefix_append (d :: part) rest)
      rw [List.nil_append, List.cons_append, cutFirst?, if_pos start]
      simp
  | cons c front ih =>
      rw [List.mem_cons, not_or] at h
      have other : ¬ (d :: part).isPrefixOf (c :: (front ++ (d :: part ++ rest))) := by
        simp [List.isPrefixOf, h.1]
      rw [List.cons_append, cutFirst?, if_neg other, ih h.2]
      rfl

theorem withoutComments_comment {comment : Text} (h : '*' ∉ comment) (rest : Text) :
    withoutComments ('/' :: '*' :: (comment ++ '*' :: '/' :: rest)) = withoutComments rest := by
  have closed := cutFirst?_append h ['/'] rest
  rw [withoutComments, if_pos (by simp [List.isPrefixOf])]
  split
  · rename_i hc
    rw [List.drop_succ_cons, List.drop_zero] at hc
    rw [show cutFirst? ['*', '/'] (comment ++ '*' :: '/' :: rest) = _ from closed] at hc
    cases hc
    rfl
  · rename_i hc
    rw [List.drop_succ_cons, List.drop_zero] at hc
    rw [show cutFirst? ['*', '/'] (comment ++ '*' :: '/' :: rest) = _ from closed] at hc
    cases hc

theorem cons_join (sep : Char) (t : Text) (ts : List Text) :
    sep :: join [sep] (t :: ts) = (t :: ts).flatMap (sep :: ·) := by
  induction ts generalizing t with
  | nil => simp [join]
  | cons t' ts ih =>
      rw [List.flatMap_cons, ← ih t']
      simp [join]

end Text

/-! ### Names -/

namespace TokenName

theorem isPart_cases {c : Char} (h : isPart c) : c.toNat < 128 ∧ c.toLower = c ∧
    Block.isNameChar c ∧ Value.isInert c := by
  have small : c.toNat < 128 := by
    simp only [isPart, Char.isDigit, Char.isLower, Bool.or_eq_true, Bool.and_eq_true, beq_iff_eq,
      decide_eq_true_eq, UInt32.le_iff_toNat_le] at h
    rcases h with (rfl | ⟨-, digit⟩) | ⟨-, letter⟩
    · decide
    · exact digit.trans_lt (by decide)
    · exact letter.trans_lt (by decide)
  have entry := Text.forall_of_lt_128 (p := fun c => !isPart c ||
    (c.toLower == c && Block.isNameChar c && Value.isInert c)) (by decide +kernel) small
  simp only [h, Bool.not_true, Bool.false_or, Bool.and_eq_true, beq_iff_eq] at entry
  exact ⟨small, entry.1.1, entry.1.2, entry.2⟩

theorem Valid.lower_eq {name : Text} (h : Valid name) : lower name = name :=
  lower_of_ascii fun c hc =>
    ⟨(isPart_cases (h.parts c hc)).1, (isPart_cases (h.parts c hc)).2.1⟩

theorem Valid.isName {name : Text} (h : Valid name) : Block.IsName name := by
  constructor
  · rintro rfl
    exact absurd h.dashes (by decide)
  · exact fun c hc => (isPart_cases (h.parts c hc)).2.2.1

end TokenName

/-! ### Lines -/

namespace DocumentLine

/-- A title that holds no end of a comment, or a declaration that can be read again. -/
def IsReadable : DocumentLine → Prop
  | title _ t => '*' ∉ t
  | declaration name value => TokenName.Valid name ∧ Value.IsDeclarable value

/-- What is left of a line without comments. -/
def bareText : DocumentLine → Text
  | title opening _ => (if opening then [] else ['\n']) ++ "  ".toList
  | declaration name value => (declaration name value).text

/-- The name and the value that a line declares. -/
def declared? : DocumentLine → Option (Text × Text)
  | title _ _ => none
  | declaration name value => some (name, value)

theorem text_declaration (name value : Text) : (declaration name value).text =
    ' ' :: ' ' :: (name ++ ':' :: ' ' :: (value ++ [';'])) := by
  simp [text]

theorem withoutComments_text {l : DocumentLine} (h : l.IsReadable) {rest : Text}
    (hr : nextIs (· == '*') rest = false) :
    withoutComments (l.text ++ rest) = l.bareText ++ withoutComments rest := by
  cases l with
  | title opening t =>
      have comment : '*' ∉ ' ' :: (t ++ [' ']) := by
        have plain : '*' ∉ t := h
        simpa using plain
      have line : (title opening t).text ++ rest = (title opening t).bareText ++
          ('/' :: '*' :: (' ' :: (t ++ [' ']) ++ '*' :: '/' :: rest)) := by
        simp [text, bareText]
      have front : ¬ ['/', '*'] <:+: (title opening t).bareText := by
        cases opening <;> simp [bareText, List.infix_cons_iff, List.cons_prefix_cons]
      rw [line, withoutComments_append front rfl, withoutComments_comment comment]
  | declaration name value =>
      obtain ⟨valid, declarable⟩ := h
      have named : ¬ ['/', '*'] <:+: name :=
        Value.isDeclarable_of_inert (fun c hc => (TokenName.isPart_cases (valid.parts c hc)).2.2.2)
          _ (by decide)
      have plain : ¬ ['/', '*'] <:+: value := (Value.isDeclarable_iff.1 declarable).2
      apply withoutComments_append _ hr
      rw [text_declaration, infix_cons_iff_of_notMem (by simp) (by simp),
        infix_cons_iff_of_notMem (by simp) (by simp), infix_append_cons_iff (by simp),
        infix_cons_iff_of_notMem (by simp) (by simp), infix_append_cons_iff (by simp)]
      simp [named, plain]

/-- The lines of a block, each after a line feed. -/
def lines (f : DocumentLine → Text) (ls : List DocumentLine) : Text :=
  '\n' :: join ['\n'] (ls.map f)

theorem withoutComments_lines {ls : List DocumentLine} (h : ∀ l ∈ ls, l.IsReadable) (rest : Text) :
    withoutComments (lines text ls ++ '\n' :: rest) =
      lines bareText ls ++ '\n' :: withoutComments rest := by
  have feed (rest : Text) : withoutComments ('\n' :: rest) = '\n' :: withoutComments rest :=
    withoutComments_cons (by simp [List.cons_prefix_cons])
  cases ls with
  | nil => exact (feed _).trans (congrArg _ (feed rest))
  | cons l ls =>
      simp only [lines, List.map_cons, cons_join]
      rw [← List.map_cons, ← List.map_cons, List.flatMap_map, List.flatMap_map, ← feed]
      generalize l :: ls = all at h
      induction all with
      | nil => rfl
      | cons l all ih =>
          have next : nextIs (· == '*') (all.flatMap (fun l => '\n' :: l.text) ++ '\n' :: rest) =
              false := by
            cases all <;> rfl
          rw [List.flatMap_cons, List.flatMap_cons, List.append_assoc, List.append_assoc,
            List.cons_append, List.cons_append, feed, withoutComments_text (h l (by simp)) next,
            ih fun l hl => h l (by simp [hl])]

theorem read_declaration {name value lead : Text} (hn : TokenName.Valid name) (hv : ';' ∉ value)
    (hl : ∀ c ∈ lead, Block.isNameChar c = false) (rest : Text) :
    Block.read (lead ++ '\n' :: ((declaration name value).bareText ++ rest)) =
      (Block.read rest).cons
        ⟨lead ++ ['\n', ' ', ' '], name, Block.valueOf (' ' :: value), true⟩ := by
  have front : ∀ c ∈ lead ++ ['\n', ' ', ' '], Block.isNameChar c = false := by
    simpa [or_imp, forall_and] using ⟨hl, by decide, by decide⟩
  have plain : ';' ∉ ' ' :: value := by simpa using hv
  have follows := Block.readValue?_eq_some_iff.2
    (@Block.ReadsValue.closed [] (' ' :: value) rest (by simp) (by simp) plain)
  have text : lead ++ '\n' :: ((declaration name value).bareText ++ rest) =
      (lead ++ ['\n', ' ', ' ']) ++ name ++ ([] ++ ':' :: (' ' :: value ++ ';' :: rest)) := by
    simp [bareText, text_declaration]
  rw [text, Block.read_name front hn.isName rfl, follows]

/-- The blanks of titles gather in front of the next declaration. -/
theorem read_chunks {ls : List DocumentLine} (h : ∀ l ∈ ls, l.IsReadable) {lead : Text}
    (hl : ∀ c ∈ lead, Block.isNameChar c = false) :
    (Block.read (lead ++ (ls.flatMap (fun l => '\n' :: l.bareText) ++ ['\n']))).entries.map
      (fun e => (e.property, trim e.value)) =
        (ls.filterMap declared?).map fun (name, value) => (name, trim value) := by
  induction ls generalizing lead with
  | nil =>
      have nameless : ∀ c ∈ lead ++ ['\n'], Block.isNameChar c = false := by
        simpa [or_imp, forall_and] using ⟨hl, by decide⟩
      rw [List.flatMap_nil, List.nil_append, Block.read_nameless nameless]
      rfl
  | cons l ls ih =>
      have later : ∀ l ∈ ls, l.IsReadable := fun l hl => h l (by simp [hl])
      rw [List.flatMap_cons, List.append_assoc, List.cons_append]
      cases l with
      | title opening t =>
          have blanks : ∀ c ∈ lead ++ '\n' :: (title opening t).bareText,
              Block.isNameChar c = false := by
            cases opening <;> simpa [bareText, or_imp, forall_and] using ⟨hl, by decide, by decide⟩
          have gathered := ih later blanks
          rwa [List.append_assoc, List.cons_append] at gathered
      | declaration name value =>
          obtain ⟨valid, declarable⟩ := h (declaration name value) (by simp)
          have open' := (Value.isDeclarable_iff.1 declarable).1.entry_open
          have others := @ih later [] (by simp)
          have value_eq : trim (Block.valueOf (' ' :: value)) = trim value := by
            rw [Block.trim_valueOf, trim_cons_of_blank rfl]
          rw [read_declaration valid open' hl]
          simp only [Block.cons, List.map_cons, List.filterMap_cons, declared?, Entry.property,
            valid.lower_eq, value_eq]
          exact congrArg _ others

/-- A body is read as the declarations of its lines. -/
theorem read_lines {ls : List DocumentLine} (h : ∀ l ∈ ls, l.IsReadable) :
    (Block.read (lines bareText ls ++ ['\n'])).entries.map (fun e => (e.property, trim e.value)) =
      (ls.filterMap declared?).map fun (name, value) => (name, trim value) := by
  cases ls with
  | nil =>
      have nameless : ∀ c ∈ lines bareText [] ++ ['\n'], Block.isNameChar c = false := by
        simpa [lines, join] using (by decide)
      rw [Block.read_nameless nameless]
      rfl
  | cons l ls =>
      rw [lines, List.map_cons, cons_join, ← List.map_cons, List.flatMap_map]
      exact @read_chunks _ h [] (by simp)

theorem rule_open_lines {ls : List DocumentLine} (h : ∀ l ∈ ls, l.IsReadable) :
    '\x7d' ∉ lines bareText ls ++ ['\n'] := by
  have line : ∀ l ∈ ls, '\x7d' ∉ '\n' :: l.bareText := by
    intro l hl
    cases l with
    | title opening t => cases opening <;> simp [bareText]
    | declaration name value =>
        obtain ⟨valid, declarable⟩ := h _ hl
        have named : '\x7d' ∉ name := fun mem => absurd (valid.parts _ mem) (by decide)
        simp [bareText, text_declaration, named, (Value.isDeclarable_iff.1 declarable).1.rule_open]
  cases ls with
  | nil => decide
  | cons l ls =>
      rw [lines, List.map_cons, cons_join, ← List.map_cons, List.flatMap_map]
      simp only [List.mem_append, List.mem_flatMap, not_or, not_exists, not_and]
      exact ⟨line, by decide⟩

end DocumentLine

/-! ### Blocks -/

namespace TokenDocument

open DocumentLine

/-- A block and what follows it. -/
def ruleText (f : DocumentLine → Text) (selector : Text) (ls : List DocumentLine) (rest : Text) :
    Text :=
  selector ++ '\x7b' :: (lines f ls ++ ['\n'] ++ '\x7d' :: rest)

theorem text_eq (d : TokenDocument) : d.text =
    ruleText DocumentLine.text rootSelector d.root
      ('\n' :: ruleText DocumentLine.text ('\n' :: darkSelector) d.dark ['\n']) := by
  simp [text, blockText, ruleText, lines]

/-- The declarations that the lines of a block stand for. -/
def declarationsOf (selector : Text) (ls : List DocumentLine) : List Declaration :=
  (ls.filterMap declared?).map fun (name, value) => ⟨selector, name, trim value⟩

variable {selector : Text} {ls : List DocumentLine} (h : ∀ l ∈ ls, l.IsReadable)
include h

theorem withoutComments_ruleText (hs : ¬ ['/', '*'] <:+: selector) (rest : Text) :
    withoutComments (ruleText DocumentLine.text selector ls ('\n' :: rest)) =
      ruleText bareText selector ls ('\n' :: withoutComments rest) := by
  have char {c : Char} (hc : c ≠ '/') (rest : Text) :
      withoutComments (c :: rest) = c :: withoutComments rest :=
    withoutComments_cons (by simp [List.cons_prefix_cons, hc.symm])
  rw [ruleText, withoutComments_append hs rfl, char (by decide), List.append_assoc,
    List.singleton_append, withoutComments_lines h, char (by decide), char (by decide)]
  simp [ruleText]

theorem parse_ruleText (hs : Sheet.IsPrelude selector) (rest : Text) :
    Declaration.parse (ruleText bareText selector ls rest) =
      declarationsOf (trim selector) ls ++ Declaration.parse rest := by
  have rule := @Sheet.read_rule [] selector (by simp) hs _ (rule_open_lines h) rest
  have block : Declaration.ofRule ⟨selector, lines bareText ls ++ ['\n']⟩ =
      declarationsOf (trim selector) ls := by
    have entries := congrArg (List.map fun (e : Text × Text) =>
      (⟨trim selector, e.1, e.2⟩ : Declaration)) (read_lines h)
    rw [List.map_map, List.map_map] at entries
    exact entries
  rw [← block]
  exact congrArg (fun s => s.rules.flatMap fun entry => Declaration.ofRule entry.2) rule

omit h

/-- A document without its comments is read as the declarations of both blocks. -/
theorem parse_text (d : TokenDocument) (h : ∀ l ∈ d.root ++ d.dark, l.IsReadable) :
    Declaration.parse (withoutComments d.text) =
      declarationsOf rootSelector d.root ++ declarationsOf darkSelector d.dark := by
  have root : ∀ l ∈ d.root, l.IsReadable := fun l hl => h l (by simp [hl])
  have dark : ∀ l ∈ d.dark, l.IsReadable := fun l hl => h l (by simp [hl])
  have prelude {t : Text} (hne : t ≠ []) (ht : t.all (!Sheet.isBrace ·)) : Sheet.IsPrelude t :=
    ⟨hne, fun c hc => by simpa using List.all_eq_true.1 ht c hc⟩
  have later := parse_ruleText dark (prelude (t := '\n' :: '\n' :: darkSelector) (by simp)
    (by decide)) ['\n']
  have last : Declaration.parse ['\n'] = [] := by cbv
  rw [last, List.append_nil] at later
  rw [text_eq, withoutComments_ruleText root (by decide), withoutComments_ruleText dark (by decide),
    parse_ruleText root (prelude (by decide) (by decide)), show withoutComments [] = [] by
      rw [withoutComments]]
  have trimmed : trim ('\n' :: '\n' :: darkSelector) = darkSelector := by decide
  rw [trimmed] at later
  exact congrArg _ later

end TokenDocument

end DesignTokens
