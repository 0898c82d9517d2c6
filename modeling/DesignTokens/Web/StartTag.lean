import DesignTokens.Text.LetterCase

/-!
Start tags of HTML, from the name to the end. An attribute has a name, which follows a blank, a
slash or a quote, and a value after `=` or none. A value is in quotes, or it is bare and goes up to
a blank or `>`. A quote that is never closed starts no value; it belongs to the name of an attribute
of its own where one can start there.
-/
namespace DesignTokens

inductive TagEnd where
  | closed (isEmpty : Bool) (rest : Text)
  | broken (rest : Text)
  | unclosed
  deriving DecidableEq, Repr

/-- A start tag. The values of its attributes are as they are written. -/
structure StartTag where
  name : Text
  attributes : List (Text × Text)
  ending : TagEnd
  deriving DecidableEq, Repr

namespace StartTag

def isNameChar (c : Char) : Bool :=
  !(c == '\t' || c == '\n' || c == '\r' || c == '\x0C' || c == ' ' || c == '/' || c == '>' ||
    c == '\x00')

def isAttributeNameChar (c : Char) : Bool :=
  !(Text.isBlank c || c == '/' || c == '=' || c == '>')

def isBareValueChar (c : Char) : Bool := !Text.isBlank c && c != '>'

/-- The text from the first character that is neither a blank nor a slash. A slash before `>` stays.
-/
def skipGap : Text → Text
  | [] => []
  | c :: rest =>
    if Text.isBlank c || (c == '/' && rest.head? != some '>') then skipGap rest else c :: rest

theorem length_skipGap_le (t : Text) : (skipGap t).length ≤ t.length := by
  induction t with
  | nil => simp [skipGap]
  | cons c rest ih =>
      simp only [skipGap]
      split
      · exact Nat.le_succ_of_le ih
      · exact Nat.le_refl _

/-- The value of an attribute, what follows it, and whether a name can start right there. -/
structure Value where
  text : Text
  rest : Text
  isOpen : Bool
  deriving DecidableEq, Repr

namespace Value

def bare (t : Text) : Value := ⟨t.takeWhile isBareValueChar, t.dropWhile isBareValueChar, false⟩

def quoted? : Text → Option Value
  | [] => none
  | quote :: t =>
    if Text.isQuote quote then
      match Text.cut quote t with
      | (text, some rest) => some ⟨text, rest, true⟩
      | (_, none) => none
    else none

/-- The value after an equals sign. Before a quote that is never closed, blanks make an empty value,
and the last of several equals signs starts a bare one. -/
def afterEquals? (t : Text) : Option Value :=
  let margin := t.dropWhile (· == '=')
  let start := margin.dropWhile Text.isBlank
  match quoted? start with
  | some value => some value
  | none =>
    if !start.head?.any Text.isQuote then some (bare start)
    else if start.length < margin.length then some ⟨[], margin, false⟩
    else if margin.length < t.length then some (bare ('=' :: start))
    else none

/-- The value of an attribute in front of a text; the empty one if it has none. -/
def read (isOpen : Bool) (t : Text) : Value :=
  let value? :=
    match t.dropWhile Text.isBlank with
    | '=' :: rest => afterEquals? rest
    | _ => none
  value?.getD ⟨[], t, isOpen⟩

theorem length_bare_le (t : Text) : (bare t).rest.length ≤ t.length :=
  Text.length_dropWhile_le _ _

theorem length_quoted?_le {t : Text} {v : Value} (h : quoted? t = some v) :
    v.rest.length ≤ t.length := by
  cases t with
  | nil => simp [quoted?] at h
  | cons quote t =>
      simp only [quoted?] at h
      split at h
      · split at h
        · rename_i text rest hcut
          have hc : (Text.cut quote t).2 = some rest := by rw [hcut]
          have := Text.length_cut_tail hc
          obtain rfl := Option.some.inj h
          simp only [List.length_cons]
          omega
        · cases h
      · cases h

theorem length_afterEquals?_le {t : Text} {v : Value} (h : afterEquals? t = some v) :
    v.rest.length ≤ t.length := by
  have hm := Text.length_dropWhile_le (· == '=') t
  have hs := Text.length_dropWhile_le Text.isBlank (t.dropWhile (· == '='))
  simp only [afterEquals?] at h
  split at h
  · rename_i value hq
    obtain rfl := Option.some.inj h
    have := length_quoted?_le hq
    omega
  · split at h
    · obtain rfl := Option.some.inj h
      have := length_bare_le ((t.dropWhile (· == '=')).dropWhile Text.isBlank)
      omega
    · split at h
      · obtain rfl := Option.some.inj h
        exact hm
      · split at h
        · obtain rfl := Option.some.inj h
          have := length_bare_le ('=' :: (t.dropWhile (· == '=')).dropWhile Text.isBlank)
          simp only [List.length_cons] at this
          omega
        · cases h

theorem length_read_le (isOpen : Bool) (t : Text) : (read isOpen t).rest.length ≤ t.length := by
  have hb := Text.length_dropWhile_le Text.isBlank t
  simp only [read]
  split
  · rename_i rest ht
    rw [ht, List.length_cons] at hb
    cases hv : afterEquals? rest with
    | none => exact Nat.le_refl _
    | some v =>
        have := length_afterEquals?_le hv
        simp only [Option.getD_some]
        omega
  · exact Nat.le_refl _

end Value

/-- The attributes in front of a text and the end of the tag; `isOpen` tells whether a name can
start right there. -/
def readAttributes (isOpen : Bool) (t : Text) : List (Text × Text) × TagEnd :=
  match _ht : skipGap t with
  | [] => ([], .unclosed)
  | '/' :: rest => ([], .closed true (rest.drop 1))
  | '>' :: rest => ([], .closed false rest)
  | c :: rest =>
    if isOpen || (skipGap t).length < t.length then
      let name := c :: rest.takeWhile isAttributeNameChar
      let value := Value.read (name.getLast?.any Text.isQuote) (rest.dropWhile isAttributeNameChar)
      let (others, ending) := readAttributes value.isOpen value.rest
      ((Text.lower name, value.text) :: others, ending)
    else ([], if c.isAlpha || c == '=' then .unclosed else .broken (c :: rest))
termination_by t.length
decreasing_by
  have h1 := length_skipGap_le t
  have h2 := Value.length_read_le
    ((c :: rest.takeWhile isAttributeNameChar).getLast?.any Text.isQuote)
    (rest.dropWhile isAttributeNameChar)
  have h3 := Text.length_dropWhile_le isAttributeNameChar rest
  rw [_ht, List.length_cons] at h1
  omega

def read (t : Text) : StartTag :=
  let name := t.takeWhile isNameChar
  let isOpen := name.getLast?.any fun c => Text.isQuote c || Text.isBlank c
  let (attributes, ending) := readAttributes isOpen (t.dropWhile isNameChar)
  ⟨Text.lower name, attributes, ending⟩

end StartTag

end DesignTokens
