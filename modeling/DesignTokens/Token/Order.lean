import DesignTokens.Candidates
import DesignTokens.Font.Rank
import DesignTokens.Sorting.Adaptive

/-!
The order of the tokens of a category: descending count, then by size or by literal. Candidates that
are alike in both keep the order in which they were found. A size that is no number compares with
nothing.
-/
namespace DesignTokens.CandidateTable

abbrev Entry := Text × Candidate

/-- Descending count; `tie` decides between equal counts. -/
def precedes (tie : Entry → Entry → Bool) (a b : Entry) : Bool :=
  b.2.count < a.2.count || (a.2.count == b.2.count && tie a b)

def ordered (tie : Entry → Entry → Bool) (table : CandidateTable) : List Text :=
  (table.entries.mergeSort (precedes tie)).map Prod.fst

def byMeasure (measure : Text → Float) (table : CandidateTable) : List Text :=
  (Sorting.sort (precedes fun a b => measure b.1 < measure a.1) table.entries).map Prod.fst

def bySize (b : LengthBases) (table : CandidateTable) : List Text :=
  byMeasure (Length.rank b) table

def byFontLength (b : LengthBases) (table : CandidateTable) : List Text :=
  byMeasure (Length.pixels b) table

def byLineHeight (b : LengthBases) (table : CandidateTable) : List Text :=
  byMeasure (Font.lineHeightRank b) table

def byWeight (table : CandidateTable) : List Text :=
  ordered (fun a b => Font.weightRank b.1 ≤ Font.weightRank a.1) table

def byDuration (table : CandidateTable) : List Text :=
  let time (entry : Entry) := entry.2.milliseconds.getD 0.0
  (Sorting.sort (precedes fun a b => time a < time b) table.entries).map Prod.fst

def byLiteral (table : CandidateTable) : List Text :=
  ordered (fun a b => Text.precedes a.1 b.1) table

end DesignTokens.CandidateTable

namespace DesignTokens.Category

def order (bases : LengthBases) : Category → CandidateTable → List Text
  | spacing | borderWidths | radii => CandidateTable.bySize bases
  | fontSizes | letterSpacings => CandidateTable.byFontLength bases
  | lineHeights => CandidateTable.byLineHeight bases
  | fontWeights => CandidateTable.byWeight
  | durations => CandidateTable.byDuration
  | shadows | easings | fontFamilies => CandidateTable.byLiteral

end DesignTokens.Category
