import DesignTokens.Length.Literal

/-!
Conversion of lengths between units. A list of conversions is a chain: each step reads the unit that
the step before has left. In a value every length is converted once, inside the arguments of `calc`,
`min`, `max` and `clamp` as outside; the rest of the value is kept.
-/
namespace DesignTokens

structure Conversion where
  source : LengthUnit
  target : LengthUnit
  deriving DecidableEq, Repr

namespace Conversion

/-- One step on one length. A length of another unit, and one that cannot be expressed, stay. -/
def apply (b : LengthBases) (token : Text) (c : Conversion) : Text :=
  match Length.parse? LengthUnit.known .anyCase (Text.trim token) with
  | some (n, unit) =>
    if unit = c.source then
      match b.fromPixels c.target (b.inPixels unit n.toFloat) with
      | .ok size => lengthText size c.target
      | .error _ => token
    else token
  | none => token

def applyAll (b : LengthBases) (chain : List Conversion) (token : Text) : Text :=
  chain.foldl (apply b) token

/-- Every length of a text that holds no call to look into. -/
def convertFlat (b : LengthBases) (chain : List Conversion) (t : Text) : Text :=
  Text.mapTokens Length.convertible (applyAll b chain) t

def callNames : List Text := ["calc(".toList, "min(".toList, "max(".toList, "clamp(".toList]

/-- The name of a call with its parenthesis at the start of a text, in any letter case. -/
def callHead? (before : Option Char) (t : Text) : Option Text :=
  if before.any Text.isWord then none
  else (callNames.find? fun name => Text.isPrefixNoCase name t).map fun name => t.take name.length

/-- The text before the first call, the head of that call, and what follows the parenthesis. -/
def cutCall? (before : Option Char) : Text → Option (Text × Text × Text)
  | [] => none
  | c :: rest =>
    match callHead? before (c :: rest) with
    | some head => some ([], head, (c :: rest).drop head.length)
    | none => (cutCall? (some c) rest).map fun (front, head, tail) => (c :: front, head, tail)

/-- The text before the parenthesis that closes `depth + 1` open ones, and the text after it. -/
def cutClosing? : Nat → Text → Option (Text × Text)
  | _, [] => none
  | depth, c :: rest =>
    if c = ')' ∧ depth = 0 then some ([], rest)
    else
      let depth := if c = '(' then depth + 1 else if c = ')' then depth - 1 else depth
      (cutClosing? depth rest).map fun (inner, tail) => (c :: inner, tail)

theorem length_cutCall {before : Option Char} {t front head tail : Text}
    (h : cutCall? before t = some (front, head, tail)) : tail.length ≤ t.length := by
  induction t generalizing before front head with
  | nil => simp [cutCall?] at h
  | cons c rest ih =>
      simp only [cutCall?] at h
      split at h
      · simp only [Option.some.injEq, Prod.mk.injEq] at h
        simp [← h.2.2]
      · obtain ⟨⟨f, hd, tl⟩, hrest, he⟩ := Option.map_eq_some_iff.1 h
        simp only [Prod.mk.injEq] at he
        obtain ⟨_, _, rfl⟩ := he
        exact Nat.le_succ_of_le (ih hrest)

theorem length_cutClosing {depth : Nat} {t inner tail : Text}
    (h : cutClosing? depth t = some (inner, tail)) : inner.length + tail.length < t.length := by
  induction t generalizing depth inner with
  | nil => simp [cutClosing?] at h
  | cons c rest ih =>
      simp only [cutClosing?] at h
      split at h
      · simp only [Option.some.injEq, Prod.mk.injEq] at h
        simp [← h.1, ← h.2]
      · obtain ⟨⟨i, tl⟩, hrest, he⟩ := Option.map_eq_some_iff.1 h
        simp only [Prod.mk.injEq] at he
        obtain ⟨rfl, rfl⟩ := he
        have := ih hrest
        simp only [List.length_cons]
        omega

/-- A value with every length converted. A call whose parenthesis is not closed, and all that
follows it, is read as plain text. -/
def convert (b : LengthBases) (chain : List Conversion) (value : Text) : Text :=
  match _h : cutCall? none value with
  | none => convertFlat b chain value
  | some (front, head, tail) =>
    match _hc : cutClosing? 0 tail with
    | none => convertFlat b chain value
    | some (inner, rest) =>
      convertFlat b chain front ++ head ++ convert b chain inner ++ ')' ::
        convert b chain rest
termination_by value.length
decreasing_by
  all_goals
    have h1 := length_cutCall _h
    have h2 := length_cutClosing _hc
    omega

end Conversion

end DesignTokens
