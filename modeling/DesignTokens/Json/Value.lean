import DesignTokens.Number.Shortest
import DesignTokens.OrderedMap
import DesignTokens.Text.Quoted

/-!
JSON values. Whole numbers and numbers with a fraction or power are kept apart, and an object keeps
the order of its members. Strings are made of code points, since escapes can spell halves of
surrogate pairs. `display` is how a value is shown as plain text, in names and messages: a string as
it is, anything else as a literal.
-/
namespace DesignTokens

inductive Json where
  | null
  | bool (b : Bool)
  | int (n : Int)
  | float (x : Float)
  | string (t : CodeText)
  | array (items : List Json)
  | object (members : List (CodeText × Json))
  deriving Inhabited

namespace Json

def text (t : Text) : Json := string (.ofText t)

def record (members : List (Text × Json)) : Json :=
  object (members.map fun (name, value) => (.ofText name, value))

/-- Object members with the last value of a name that comes more than once, at its first place. -/
def objectOf (members : List (CodeText × Json)) : Json := object (OrderedMap.ofList members).entries

def intText (n : Int) : Text :=
  if n < 0 then '-' :: Number.digits n.natAbs else Number.digits n.natAbs

mutual

def literal : Json → Text
  | null => "None".toList
  | bool true => "True".toList
  | bool false => "False".toList
  | int n => intText n
  | float x => Number.shortestText x
  | string t => t.quoted
  | array items => '[' :: literals items ++ [']']
  | object members => '\x7b' :: memberLiterals members ++ ['\x7d']

def literals : List Json → Text
  | [] => []
  | [item] => literal item
  | item :: rest => literal item ++ ", ".toList ++ literals rest

def memberLiterals : List (CodeText × Json) → Text
  | [] => []
  | [(name, value)] => name.quoted ++ ": ".toList ++ literal value
  | (name, value) :: rest =>
    name.quoted ++ ": ".toList ++ literal value ++ ", ".toList ++ memberLiterals rest

end

def display : Json → CodeText
  | string t => t
  | value => .ofText (literal value)

/-- Is the value more than nothing: not null, false, zero or empty? -/
def isSet : Json → Bool
  | null => false
  | bool b => b
  | int n => n != 0
  | float x => !(x == 0.0)
  | string t => !t.isEmpty
  | array items => !items.isEmpty
  | object members => !members.isEmpty

/-- The kinds of value, as messages name them. -/
def kindName : Json → String
  | null => "NoneType"
  | bool _ => "bool"
  | int _ => "int"
  | float _ => "float"
  | string _ => "str"
  | array _ => "list"
  | object _ => "dict"

end Json

end DesignTokens
