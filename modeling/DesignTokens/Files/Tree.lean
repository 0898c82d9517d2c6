import DesignTokens.Files.Path
import DesignTokens.OrderedMap
import DesignTokens.Text.Quoted
import DesignTokens.Text.Utf8

/-!
Files in directories. A path is followed part by part through directories that exist. `store` writes
a file and makes the directories that are missing on the way to it.
-/
namespace DesignTokens

inductive FileFault where
  | notFound
  | exists
  | notDirectory
  | isDirectory
  | nameTooLong
  | nullCharacter
  deriving DecidableEq, Repr

structure FileError where
  fault : FileFault
  path : Path
  deriving DecidableEq, Repr

/-- Does the fault leave open whether there is a file? All others tell that there is none. -/
def FileFault.isUndecided (f : FileFault) : Bool := f == .nameTooLong

def FileError.message (e : FileError) : Text :=
  let withPath (reason : String) := reason.toList ++ ": ".toList ++ Text.quoted e.path.text
  match e.fault with
  | .notFound => withPath "[Errno 2] No such file or directory"
  | .exists => withPath "[Errno 17] File exists"
  | .notDirectory => withPath "[Errno 20] Not a directory"
  | .isDirectory => withPath "[Errno 21] Is a directory"
  | .nameTooLong => withPath "[Errno 36] File name too long"
  | .nullCharacter => "embedded null byte".toList

inductive Node where
  | file (content : Bytes)
  | directory
  deriving DecidableEq, Repr

/-- The files and directories at and below the working directory, by place. -/
structure FileTree where
  nodes : OrderedMap Path Node
  deriving DecidableEq

namespace FileTree

def empty : FileTree := ⟨.empty⟩

def node? (t : FileTree) (place : Path) : Option Node :=
  if place.isAbove then some .directory else t.nodes.get? place

def put (t : FileTree) (place : Path) (node : Node) : FileTree := ⟨t.nodes.insert place node⟩

/-- The most bytes of a part of a path. -/
def partLimit : Nat := 255

/-- The most bytes of a path. -/
def pathLimit : Nat := 4095

def follow (t : FileTree) (place : Path) : List Text → Except FileFault Path
  | [] => .ok place
  | part :: rest =>
    match t.node? place with
    | some .directory =>
      if partLimit < (Utf8.encode part).length then .error .nameTooLong
      else follow t (place.descend part) rest
    | some (.file _) => .error .notDirectory
    | none => .error .notFound

def place (t : FileTree) (p : Path) : Except FileError Path :=
  if p.text.any (· == '\x00') then .error ⟨.nullCharacter, p⟩
  else if pathLimit < (Utf8.encode p.text).length then .error ⟨.nameTooLong, p⟩
  else (t.follow ⟨p.root.take 1, []⟩ p.parts).mapError (⟨·, p⟩)

def read (t : FileTree) (p : Path) : Except FileError Bytes := do
  match t.node? (← t.place p) with
  | some (.file content) => return content
  | some .directory => throw ⟨.isDirectory, p⟩
  | none => throw ⟨.notFound, p⟩

def write (t : FileTree) (p : Path) (content : Bytes) : Except FileError FileTree := do
  let place ← t.place p
  if t.node? place = some .directory then throw ⟨.isDirectory, p⟩
  return t.put place (.file content)

def makeDirectory (t : FileTree) (p : Path) : Except FileError FileTree := do
  let place ← t.place p
  if (t.node? place).isSome then throw ⟨.exists, p⟩
  return t.put place .directory

def isDirectory (t : FileTree) (p : Path) : Bool :=
  match t.place p with
  | .ok place => t.node? place = some .directory
  | .error _ => false

def ensureDirectory (t : FileTree) (p : Path) : Except FileError FileTree :=
  match t.makeDirectory p with
  | .error e => if e.fault ≠ .notFound && t.isDirectory p then .ok t else .error e
  | .ok t => .ok t

/-- The directories on the way from a root are made where there are none. The parts come last first.
-/
def ensureDirectories (t : FileTree) (root : Text) : List Text → Except FileError FileTree
  | [] => .ok t
  | part :: up =>
    let p : Path := ⟨root, (part :: up).reverse⟩
    match t.ensureDirectory p with
    | .error e =>
      if e.fault = .notFound then do (← ensureDirectories t root up).ensureDirectory p else .error e
    | .ok t => .ok t

def store (t : FileTree) (p : Path) (content : Bytes) : Except FileError FileTree := do
  (← t.ensureDirectories p.root p.parent.parts.reverse).write p content

def ofList (files : List (Path × Bytes)) : FileTree :=
  files.foldl (fun t (p, content) => (t.store p content).toOption.getD t) empty

/-- The files below the working directory, in the order of their paths. -/
def files (t : FileTree) : List (Text × Bytes) :=
  let found := t.nodes.entries.filterMap fun (place, node) =>
    match node with
    | .file content =>
      if place.root.isEmpty && place.parts.head? != some Path.upward then some (place.text, content)
      else none
    | .directory => none
  found.mergeSort fun a b => Text.precedes a.1 b.1

/-- The files that `t` has not or has with another content. -/
def changedSince (later t : FileTree) : List (Text × Bytes) :=
  later.files.filter fun entry => !t.files.contains entry

end FileTree

end DesignTokens
