import DesignTokens.Sorting.Merge

/-!
A stable sort that makes use of the order that a list has already. The list is cut into runs, each
in ascending order as it stands or in strictly descending order, which is reversed; short runs take
in the items after them. Neighbouring runs are merged by the depth that their border would have in a
balanced tree over the list. Where some items compare with nothing, the result depends on the items
that are compared, and these are fixed here.
-/
namespace DesignTokens.Sorting

variable {α : Type}

/-- The items that go on in one direction after an item, and what follows them. -/
def goesOn (step : α → α → Bool) (before : α) : List α → List α × List α
  | [] => ([], [])
  | x :: rest =>
    if step before x then
      let (run, rest) := goesOn step x rest
      (x :: run, rest)
    else ([], x :: rest)

/-- The run at the start of a list in ascending order, and what follows it. -/
def cutRun (less : α → α → Bool) : List α → List α × List α
  | [] => ([], [])
  | [x] => ([x], [])
  | x :: y :: rest =>
    if less y x then
      let (run, rest) := goesOn (fun a b => less b a) y rest
      ((x :: y :: run).reverse, rest)
    else
      let (run, rest) := goesOn (fun a b => !less b a) y rest
      (x :: y :: run, rest)

/-- A run with another item, which goes after all that it is not less than. -/
def insert (less : α → α → Bool) (run : List α) (x : α) : List α :=
  let place := bisect (fun y => !less x y) false run 0 run.length
  run.take place ++ x :: run.drop place

/-- The least length of runs among `n` items: from 32 to 64, so that there are a power of two of
them or slightly fewer; all items if they are less than 64. -/
def leastRun (n : Nat) : Nat :=
  if n < 64 then n
  else
    let count := 1 <<< (n.log2 - 5)
    (n + count - 1) / count

/-- The runs of a list. Every run but the last has the least length. Each has an item, so as many
runs as there are items are enough. -/
def runsUpTo (less : α → α → Bool) (least : Nat) : Nat → List α → List (List α)
  | _, [] => []
  | 0, items => [items]
  | count + 1, items =>
    let (run, rest) := cutRun less items
    let missing := least - run.length
    (rest.take missing).foldl (insert less) run :: runsUpTo less least count (rest.drop missing)

def runs (less : α → α → Bool) (items : List α) : List (List α) :=
  runsUpTo less (leastRun items.length) items.length items

/-- The first binary place at which two fractions of `n` differ. -/
def depthOf (n : Nat) : Nat → Nat → Nat → Nat
  | 0, _, _ => 0
  | places + 1, a, b =>
    if n ≤ a then 1 + depthOf n places (2 * (a - n)) (2 * (b - n))
    else if n ≤ b then 1
    else 1 + depthOf n places (2 * a) (2 * b)

/-- The depth of the border between a run from `start` on and the run after it, among `n` items:
where the middles of the two runs part. -/
def borderDepth (n start length nextLength : Nat) : Nat :=
  let middle := 2 * start + length
  depthOf n (n + 1) middle (middle + length + nextLength)

/-- A run that waits to be merged, and the depth of the border after it. -/
structure Pending (α : Type) where
  run : List α
  depth : Nat

/-- The last two of the waiting runs as one, as long as the border between them is deeper than
`depth`. The last run comes first in the list. -/
def collapse (less : α → α → Bool) (depth : Nat) :
    Nat → List (Pending α) → List (Pending α) × Nat
  | patience, last :: before :: others =>
    if depth < before.depth then
      let (run, patience) := merge less patience before.run last.run
      collapse less depth patience (⟨run, before.depth⟩ :: others)
    else (last :: before :: others, patience)
  | patience, waiting => (waiting, patience)
termination_by _ waiting => waiting.length

/-- Another run after those that wait. -/
def push (less : α → α → Bool) (n : Nat) (state : List (Pending α) × Nat) (run : List α) :
    List (Pending α) × Nat :=
  let (waiting, patience) := state
  match waiting with
  | [] => ([⟨run, 0⟩], patience)
  | last :: _ =>
    let start := (waiting.drop 1).foldl (fun sum w => sum + w.run.length) 0
    let depth := borderDepth n start last.run.length run.length
    match collapse less depth patience waiting with
    | (last :: others, patience) => (⟨run, 0⟩ :: ⟨last.run, depth⟩ :: others, patience)
    | ([], patience) => ([⟨run, 0⟩], patience)

/-- All waiting runs as one. The last run is merged with the one before it, unless the one before
that is shorter than the last. -/
def mergeAll (less : α → α → Bool) : Nat → List (Pending α) → List α
  | _, [] => []
  | _, [w] => w.run
  | patience, [last, before] => (merge less patience before.run last.run).1
  | patience, last :: before :: first :: others =>
    if first.run.length < last.run.length then
      let (run, patience) := merge less patience first.run before.run
      mergeAll less patience (last :: ⟨run, first.depth⟩ :: others)
    else
      let (run, patience) := merge less patience before.run last.run
      mergeAll less patience (⟨run, before.depth⟩ :: first :: others)
termination_by _ waiting => waiting.length

/-- The items in ascending order; those that are alike keep their order. -/
def sort (less : α → α → Bool) (items : List α) : List α :=
  let (waiting, patience) := (runs less items).foldl (push less items.length) ([], worthwhile)
  mergeAll less patience waiting

end DesignTokens.Sorting
