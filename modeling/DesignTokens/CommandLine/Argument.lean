import DesignTokens.CommandLine.Flag
import DesignTokens.Text.Quoted

/-!
Reading a command line. Every argument is first told to be a flag or an operand; a flag may be
shortened to a start of its name that no other flag has, and may have its value after `=`. Then
flags take their values and one operand is the input. After `--` all arguments are operands.
-/
namespace DesignTokens

inductive UsageError where
  | ambiguousFlag (t : Text)
  | missingValue (flag : String)
  | unexpectedValue (flag : String)
  | badValue (flag : String) (t : Text)
  | unrecognized (t : Text)
  | missingInput
  deriving DecidableEq, Repr

def UsageError.message : UsageError → Text
  | ambiguousFlag t => "several flags start with ".toList ++ t
  | missingValue flag => s!"{flag} needs a value".toList
  | unexpectedValue flag => s!"{flag} takes no value".toList
  | badValue flag t => s!"no value of {flag}: ".toList ++ Text.quoted t
  | unrecognized t => "unrecognized argument: ".toList ++ t
  | missingInput => "no input is given".toList

inductive Request where
  | help
  | run (i : Invocation)

inductive Argument where
  | operand (t : Text)
  | separator
  | flag (f : Flag) (value : Option Text)
  | unknown (t : Text)

namespace Argument

/-- A minus sign and digits, with a point among them or without. -/
def isNegativeNumber : Text → Bool
  | '-' :: rest =>
    match rest.dropWhile Text.isDigit with
    | '.' :: fraction =>
      Text.nextIs Text.isDigit fraction && Text.atEnd (fraction.dropWhile Text.isDigit)
    | tail => Text.nextIs Text.isDigit rest && Text.atEnd tail
  | _ => false

def help : Flag := ⟨"-h", .help, "show the list of flags"⟩

/-- The short flag with letters after it, or with an equals sign and letters. Any number of these
may be the same flag again. -/
def shortHelp (letters : Text) : Argument :=
  match letters with
  | [] => flag help none
  | '=' :: [] => flag help (some [])
  | '=' :: letters | letters => flag help (if letters.all (· == 'h') then none else some letters)

/-- An argument that starts like a flag and is none. -/
def unmatched (t : Text) : Argument :=
  if isNegativeNumber t || t.any (· == ' ') then operand t else unknown t

/-- A flag by a start of its name. -/
def abbreviated (t : Text) : Except UsageError Argument :=
  let (name, value) := Text.cut '=' t
  match Flag.startingWith name with
  | [] => .ok (unmatched t)
  | [f] => .ok (flag f value)
  | _ => .error (.ambiguousFlag t)

def ofText (t : Text) : Except UsageError Argument :=
  let (name, value) := Text.cut '=' t
  match t with
  | '-' :: '-' :: _ =>
    match Flag.find? t, Flag.find? name with
    | some f, _ => .ok (flag f none)
    | none, some f => .ok (flag f value)
    | none, none => abbreviated t
  | '-' :: 'h' :: letters => .ok (shortHelp letters)
  | '-' :: _ :: _ => .ok (unmatched t)
  | _ => .ok (operand t)

def ofTexts : List Text → Except UsageError (List Argument)
  | [] => .ok []
  | t :: rest =>
    if t = "--".toList then .ok (separator :: rest.map operand)
    else do return (← ofText t) :: (← ofTexts rest)

end Argument

namespace Request

/-- The request of the arguments, after the input and something superfluous were found or not. -/
def ofArguments (i : Invocation) (input superfluous : Option Text) :
    List Argument → Except UsageError Request
  | [] =>
    match input, superfluous with
    | none, _ => .error .missingInput
    | some _, some t => .error (.unrecognized t)
    | some input, none => .ok (.run { i with input := input })
  | .operand t :: rest =>
    match input, rest with
    | none, .separator :: rest => ofArguments i (some t) superfluous rest
    | none, rest => ofArguments i (some t) superfluous rest
    | some _, rest => ofArguments i input (superfluous.or (some t)) rest
  | .separator :: rest =>
    match input, rest with
    | none, .operand t :: rest => ofArguments i (some t) superfluous rest
    | _, rest => ofArguments i input (superfluous.or (some "--".toList)) rest
  | .unknown t :: rest => ofArguments i input (superfluous.or (some t)) rest
  | .flag f value :: rest =>
    match f.effect, value, rest with
    | .help, none, _ => .ok .help
    | .switch set, none, rest => ofArguments (set i) input superfluous rest
    | .value set? setEmpty, some t, rest =>
      match if t = "--".toList then some (setEmpty i) else set? t i with
      | some i => ofArguments i input superfluous rest
      | none => .error (.badValue f.name t)
    | .value set? _, none, .operand t :: rest =>
      match set? t i with
      | some i => ofArguments i input superfluous rest
      | none => .error (.badValue f.name t)
    | .value _ _, none, _ => .error (.missingValue f.name)
    | .help, some _, _ | .switch _, some _, _ => .error (.unexpectedValue f.name)

def parse (arguments : List Text) : Except UsageError Request := do
  ofArguments {} none none (← Argument.ofTexts arguments)

end Request

end DesignTokens
