import DesignTokens.Text.Basic

/-!
Tokens inside a text. A `Recognizer` looks at the character before a position and at the text that
follows and gives the length of the token that starts there. `pieces` walks a text from left to
right and takes a token wherever one starts, so tokens never overlap; the pieces put together again
are the text (`pieces_text`).
-/
namespace DesignTokens.Text

abbrev Recognizer := Option Char → Text → Option Nat

inductive Piece where
  | plain (c : Char)
  | token (t : Text)
  deriving DecidableEq, Repr

namespace Piece

def text : Piece → Text
  | plain c => [c]
  | token t => t

def token? : Piece → Option Text
  | plain _ => none
  | token t => some t

def mapToken (f : Text → Text) : Piece → Text
  | plain c => [c]
  | token t => f t

end Piece

/-- The pieces of a text of which the next `skip` characters belong to a token already taken. -/
def piecesFrom (r : Recognizer) : Option Char → Nat → Text → List Piece
  | _, _, [] => []
  | _, skip + 1, c :: rest => piecesFrom r (some c) skip rest
  | before, 0, c :: rest =>
    match r before (c :: rest) with
    | some (n + 1) => .token (c :: rest.take n) :: piecesFrom r (some c) n rest
    | _ => .plain c :: piecesFrom r (some c) 0 rest

def pieces (r : Recognizer) (t : Text) : List Piece := piecesFrom r none 0 t

def tokens (r : Recognizer) (t : Text) : List Text := (pieces r t).filterMap Piece.token?

def firstToken? (r : Recognizer) (t : Text) : Option Text := (tokens r t).head?

/-- The text with every token replaced and all else kept. -/
def mapTokens (r : Recognizer) (f : Text → Text) (t : Text) : Text :=
  (pieces r t).flatMap (Piece.mapToken f)

theorem piecesFrom_text (r : Recognizer) (before : Option Char) (skip : Nat) (t : Text) :
    (piecesFrom r before skip t).flatMap Piece.text = t.drop skip := by
  fun_induction piecesFrom r before skip t with
  | case1 => simp
  | case2 _ _ _ _ ih => simpa using ih
  | case3 _ _ _ n _ ih => simp [Piece.text, ih, List.take_append_drop]
  | case4 _ _ _ _ ih => simp [Piece.text, ih]

theorem pieces_text (r : Recognizer) (t : Text) : (pieces r t).flatMap Piece.text = t := by
  simp [pieces, piecesFrom_text]

end DesignTokens.Text
