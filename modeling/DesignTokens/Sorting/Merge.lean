import DesignTokens.Sorting.Search

/-!
Merging two sorted runs. Items are compared one by one until one run has given many in a row; then
whole stretches are searched for and taken at once, until that does not pay any more. `patience` is
how many in a row are needed; it is kept from merge to merge, and falls while stretches pay.
-/
namespace DesignTokens.Sorting

variable {α : Type}

/-- A merge in one direction: from the front, or from the back with both runs in reverse. -/
structure Direction (α : Type) where
  /-- Does an item of the eager run go before one of the patient run? -/
  wins : α → α → Bool
  reversed : Bool

/-- Items that were given out, and what is left of the runs unless the merge is complete. `taken` is
how long the stretch among these items is. -/
inductive Progress (α : Type) where
  | complete (items : List α)
  | partly (items : List α) (taken : Nat) (eager patient : List α)

/-- A stretch of the patient run, then an item of the eager run. -/
def takePatient (d : Direction α) (eager patient : List α) : Progress α :=
  match eager with
  | [] => .complete patient
  | e :: eagerRest =>
    let taken := gallop (fun x => !d.wins e x) d.reversed patient
    let stretch := patient.take taken
    match patient.drop taken, eagerRest with
    | [], _ => .complete (stretch ++ eager)
    | [last], _ => .complete (stretch ++ eager ++ [last])
    | rest, [] => .complete (stretch ++ e :: rest)
    | rest, eagerRest => .partly (stretch ++ [e]) taken eagerRest rest

/-- A stretch of the eager run, then an item of the patient run. -/
def takeEager (d : Direction α) (eager patient : List α) : Progress α :=
  match patient with
  | [] => .complete eager
  | p :: patientRest =>
    let taken := gallop (fun x => d.wins x p) d.reversed eager
    let stretch := eager.take taken
    match eager.drop taken, patientRest with
    | [], _ => .complete (stretch ++ patient)
    | rest, [] => .complete (stretch ++ p :: rest)
    | rest, [last] => .complete (stretch ++ p :: rest ++ [last])
    | rest, patientRest => .partly (stretch ++ [p]) taken rest patientRest

/-- What is left goes on with another step, unless the merge is complete. -/
def Progress.andThen (next : List α → List α → Progress α) : Progress α → Progress α
  | complete items => complete items
  | partly items taken eager patient =>
    match next eager patient with
    | complete others => complete (items ++ others)
    | partly others alsoTaken eager patient =>
      partly (items ++ others) (max taken alsoTaken) eager patient

/-- A stretch of each run, in the order that the direction has. -/
def takeBoth (d : Direction α) (eager patient : List α) : Progress α :=
  if d.reversed then (takeEager d eager patient).andThen (takePatient d)
  else (takePatient d eager patient).andThen (takeEager d)

/-- How many items in a row make stretches worth a search. -/
def worthwhile : Nat := 7

/-- How many items the runs have given in a row. Stretches are searched for where neither is told.
-/
inductive Mode where
  | single (eagerCount patientCount : Nat)
  | stretches
  deriving DecidableEq, Repr

/-- The two runs as one, and the patience after it. The patient run has more than one item. Each
round gives out an item, so as many rounds as there are items are enough. -/
def mergeRounds (d : Direction α) :
    Nat → Nat → Mode → List α → List α → List α × Nat
  | rounds + 1, patience, .stretches, eager, patient =>
    let patience := if 1 < patience then patience - 1 else patience
    match takeBoth d eager patient with
    | .complete items => (items, patience)
    | .partly items taken eager patient =>
      let (others, patience) :=
        if worthwhile ≤ taken then mergeRounds d rounds patience .stretches eager patient
        else mergeRounds d rounds (patience + 1) (.single 0 0) eager patient
      (items ++ others, patience)
  | rounds + 1, patience, .single eagerCount patientCount, e :: eager, p :: patient =>
    if d.wins e p then
      if eager.isEmpty then (e :: p :: patient, patience)
      else
        let (others, patience) :=
          if patience ≤ eagerCount + 1 then
            mergeRounds d rounds (patience + 1) .stretches eager (p :: patient)
          else mergeRounds d rounds patience (.single (eagerCount + 1) 0) eager (p :: patient)
        (e :: others, patience)
    else if patient.length = 1 then (p :: e :: eager ++ patient, patience)
    else
      let (others, patience) :=
        if patience ≤ patientCount + 1 then
          mergeRounds d rounds (patience + 1) .stretches (e :: eager) patient
        else mergeRounds d rounds patience (.single 0 (patientCount + 1)) (e :: eager) patient
      (p :: others, patience)
  | _, patience, _, eager, patient => (eager ++ patient, patience)

/-- The two runs as one, where the first item of the eager run comes first and the last item of the
patient run comes last. -/
def mergeToward (d : Direction α) (patience : Nat) (eager patient : List α) : List α × Nat :=
  match eager, patient with
  | e :: [], patient => (e :: patient, patience)
  | e :: eager, [p] => (e :: eager ++ [p], patience)
  | e :: eager, patient =>
    let rounds := eager.length + patient.length
    let (items, patience) := mergeRounds d rounds patience (.single 0 0) eager patient
    (e :: items, patience)
  | [], patient => (patient, patience)

/-- Two neighbouring runs as one. What is in its place at both ends stays there; the shorter of what
is left is the patient run. -/
def merge (less : α → α → Bool) (patience : Nat) (left right : List α) : List α × Nat :=
  match left.getLast?, right with
  | some last, first :: _ =>
    let kept := gallop (fun x => !less first x) false left
    let keptRight := gallop (fun x => !less x last) true right.reverse
    let middleLeft := left.drop kept
    let middleRight := right.take (right.length - keptRight)
    if middleLeft.isEmpty || middleRight.isEmpty then (left ++ right, patience)
    else
      let (middle, patience) :=
        if middleLeft.length ≤ middleRight.length then
          mergeToward ⟨less, false⟩ patience middleRight middleLeft
        else
          let (items, patience) := mergeToward ⟨fun x y => less y x, true⟩ patience
            middleLeft.reverse middleRight.reverse
          (items.reverse, patience)
      (left.take kept ++ middle ++ right.drop (right.length - keptRight), patience)
  | _, _ => (left ++ right, patience)

end DesignTokens.Sorting
