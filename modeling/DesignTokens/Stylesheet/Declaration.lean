import DesignTokens.Stylesheet.Rule
import DesignTokens.Text.LetterCase

/-!
Declarations in the body of a rule. An entry is a name, blanks, `:`, and a value that is not empty
and ends before the next `;` or at the end of the body. Text that is part of no entry is kept, so a
body can be written again with other values.
-/
namespace DesignTokens

/-- An entry with the text between it and the entry before. The value has no blanks in front, unless
it is a single blank; `closed` tells whether a `;` ends it. -/
structure Entry where
  lead : Text
  name : Text
  value : Text
  closed : Bool
  deriving DecidableEq, Repr

namespace Entry

/-- The property that an entry sets: its name in lower case. -/
def property (e : Entry) : Text := Text.lower e.name

/-- The entry with another value, in the normal form `name: value;`. -/
def textWith (e : Entry) (value : Text) : Text :=
  e.lead ++ e.name ++ ": ".toList ++ value ++ if e.closed then [';'] else []

end Entry

/-- The entries of a body and the text after the last one. -/
structure Block where
  entries : List Entry
  tail : Text
  deriving DecidableEq, Repr

namespace Block

def after (front : Text) : Block → Block
  | ⟨[], tail⟩ => ⟨[], front ++ tail⟩
  | ⟨e :: rest, tail⟩ => ⟨{ e with lead := front ++ e.lead } :: rest, tail⟩

def cons (e : Entry) (b : Block) : Block := ⟨e :: b.entries, b.tail⟩

def isNameChar (c : Char) : Bool := c == '-' || Text.isWord c

/-- The value in the text after a colon: blanks in front are dropped, but if all is blank the last
blank is the value. -/
def valueOf (raw : Text) : Text :=
  match Text.trimLeft raw with
  | [] => raw.drop (raw.length - 1)
  | value => value

/-- What follows a name: blanks, a colon and a value, then the rest, and whether `;` ends the value.
-/
def readValue? (t : Text) : Option (Text × Bool × Text) :=
  match Text.trimLeft t with
  | ':' :: t =>
    match Text.cut ';' t with
    | ([], _) => none
    | (raw, some rest) => some (valueOf raw, true, rest)
    | (raw, none) => some (valueOf raw, false, [])
  | _ => none

theorem length_readValue {t value rest : Text} {closed : Bool}
    (h : readValue? t = some (value, closed, rest)) : rest.length < t.length := by
  unfold readValue? at h
  have hle := Text.length_dropWhile_le Text.isBlank t
  split at h
  · rename_i u hu
    rw [show Text.trimLeft t = t.dropWhile Text.isBlank from rfl] at hu
    rw [hu, List.length_cons] at hle
    split at h
    · simp at h
    · rename_i raw r _ hc
      simp only [Option.some.injEq, Prod.mk.injEq] at h
      have := Text.length_cut_tail (congrArg Prod.snd hc)
      grind
    · simp only [Option.some.injEq, Prod.mk.injEq] at h
      obtain ⟨_, _, rfl⟩ := h
      simp only [List.length_nil]
      omega
  · simp at h

/-- The entries of a body from left to right. A name that no value follows is skipped. -/
def read (t : Text) : Block :=
  let lead := t.takeWhile (!isNameChar ·)
  match _h : t.dropWhile (!isNameChar ·) with
  | [] => ⟨[], t⟩
  | c :: rest =>
    let name := c :: rest.takeWhile isNameChar
    match _hv : readValue? (rest.dropWhile isNameChar) with
    | some (value, closed, following) => (read following).cons ⟨lead, name, value, closed⟩
    | none => (read (rest.dropWhile isNameChar)).after (lead ++ name)
termination_by t.length
decreasing_by
  all_goals
    have h1 := Text.length_dropWhile_le (!isNameChar ·) t
    rw [_h, List.length_cons] at h1
    have h2 := Text.length_dropWhile_le isNameChar rest
  · have h3 := length_readValue _hv
    omega
  · omega

def textWith (f : Text → Text → Text) (b : Block) : Text :=
  b.entries.flatMap (fun e => e.textWith (f e.property e.value)) ++ b.tail

end Block

structure Declaration where
  selector : Text
  property : Text
  value : Text
  deriving DecidableEq, Repr

namespace Declaration

/-- The declarations of a rule: selector and values without blanks around them. -/
def ofRule (r : Rule) : List Declaration :=
  (Block.read r.body).entries.map fun e =>
    ⟨Text.trim r.selector, e.property, Text.trim e.value⟩

def parse (t : Text) : List Declaration := (Sheet.read t).rules.flatMap fun (_, r) => ofRule r

end Declaration

namespace Sheet

/-- A stylesheet with every value changed by a function of selector, property and value. -/
def mapValues (f : Text → Text → Text → Text) (t : Text) : Text :=
  ((read t).mapBodies fun selector body => (Block.read body).textWith (f selector)).text

end Sheet

end DesignTokens
