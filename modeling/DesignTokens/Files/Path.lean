import DesignTokens.Text.Basic

/-!
Paths of files. A path is read without empty parts and without `.`; a part `..` stays, for what it
means depends on the directories there are. `text` is the written form of a path.
-/
namespace DesignTokens

/-- A path from the working directory, or from the root that it starts with. -/
structure Path where
  root : Text
  parts : List Text
  deriving DecidableEq, Repr

namespace Path

def upward : Text := "..".toList

/-- The root that a path starts with. Two slashes, and no more, are a root of their own. -/
def rootOf (t : Text) : Text :=
  match (t.takeWhile (· == '/')).length with
  | 0 => []
  | 2 => ['/', '/']
  | _ => ['/']

def isPart (t : Text) : Bool := !t.isEmpty && t != ['.']

def ofText (t : Text) : Path := ⟨rootOf t, (Text.splitOn '/' t).filter isPart⟩

def text (p : Path) : Text :=
  if p.root.isEmpty && p.parts.isEmpty then ['.'] else p.root ++ Text.join ['/'] p.parts

def parent (p : Path) : Path := { p with parts := p.parts.dropLast }

/-- The place that a part leads to from a place without parts `..` inside. Above the root is the
root. -/
def descend (p : Path) (part : Text) : Path :=
  if part ≠ upward then { p with parts := p.parts ++ [part] }
  else
    match p.parts.getLast? with
    | none => if p.root.isEmpty then { p with parts := [upward] } else p
    | some last =>
      { p with parts := if last = upward then p.parts ++ [upward] else p.parts.dropLast }

def isAbove (p : Path) : Bool := p.parts.all (· == upward)

end Path

end DesignTokens
