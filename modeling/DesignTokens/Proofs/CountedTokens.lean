import DesignTokens.Proofs.ReferencedTokens

/-!
Walks through a text. A walk copies plain characters and takes tokens whole, and at each token it
knows the text before and the text after it, so that a claim about every token that is counted can
speak of the neighbours of the token.
-/
namespace DesignTokens.Text

variable {r : Recognizer} {before : Option Char} {front s t v : Text}

/-- A recognizer takes a token from a text, between the text before it and the text after it. -/
def Takes (r : Recognizer) (t front token back : Text) : Prop :=
  ∃ ps ps', pieces r t = ps ++ .token token :: ps' ∧
    ps.flatMap Piece.text = front ∧ ps'.flatMap Piece.text = back

/-- A test of all tokens that are taken from a text. -/
def allTaken (r : Recognizer) (test : Text → Text → Text → Bool) (t : Text) : Bool :=
  (List.range (pieces r t).length).all fun k =>
    match (pieces r t).splitAt k with
    | (ps, .token token :: ps') => test (ps.flatMap Piece.text) token (ps'.flatMap Piece.text)
    | _ => true

/-- A recognizer takes nothing that is not there. -/
def Bounded (r : Recognizer) : Prop := ∀ before t n, r before t = some n → n ≤ t.length

/-- No token starts in a part of a text, with the rest of the text behind it. -/
def Silent (r : Recognizer) (before : Option Char) (s rest : Text) : Prop :=
  ∀ front back n, back ≠ [] → s = front ++ back →
    r (front.getLast?.or before) (back ++ rest) ≠ some (n + 1)

/-! ### Pieces -/

theorem piecesFrom_skip_append (s rest : Text) :
    piecesFrom r before s.length (s ++ rest) = piecesFrom r (s.getLast?.or before) 0 rest := by
  induction s generalizing before with
  | nil => rfl
  | cons c s ih => rw [List.cons_append, List.length_cons, piecesFrom, ih, getLast?_cons_or]

theorem piecesFrom_plain {c : Char} (copied : ∀ n, r before (c :: t) ≠ some (n + 1)) :
    piecesFrom r before 0 (c :: t) = .plain c :: piecesFrom r (some c) 0 t := by
  rw [piecesFrom]
  split
  · rename_i n taken
    exact absurd taken (copied n)
  · rfl

theorem piecesFrom_token {token : Text} (hne : token ≠ [])
    (taken : r before (token ++ t) = some token.length) :
    piecesFrom r before 0 (token ++ t) = .token token :: piecesFrom r token.getLast? 0 t := by
  obtain ⟨c, token, rfl⟩ := List.exists_cons_of_ne_nil hne
  have last : (c :: token).getLast? = token.getLast?.or (some c) := by
    rw [← getLast?_cons_or none, Option.or_none]
  rw [List.cons_append, List.length_cons] at taken
  rw [List.cons_append, piecesFrom, taken, last]
  simp only [List.take_left', piecesFrom_skip_append]

/-- The text that is put together while the tokens of a text are replaced. -/
def mapFrom (r : Recognizer) (f : Text → Text) (before : Option Char) (t : Text) : Text :=
  (piecesFrom r before 0 t).flatMap (Piece.mapToken f)

section MapFrom

variable {f : Text → Text}

theorem mapFrom_nil : mapFrom r f before [] = [] := rfl

theorem mapFrom_plain {c : Char} (copied : ∀ n, r before (c :: t) ≠ some (n + 1)) :
    mapFrom r f before (c :: t) = c :: mapFrom r f (some c) t := by
  rw [mapFrom, piecesFrom_plain copied]
  rfl

theorem mapFrom_token {token : Text} (hne : token ≠ [])
    (taken : r before (token ++ t) = some token.length) :
    mapFrom r f before (token ++ t) = f token ++ mapFrom r f token.getLast? t := by
  rw [mapFrom, piecesFrom_token hne taken]
  rfl

end MapFrom

theorem Takes.mem_tokens {token back : Text} (h : Takes r v front token back) :
    token ∈ tokens r v := by
  obtain ⟨ps, ps', split, -, -⟩ := h
  exact List.mem_filterMap.2 ⟨.token token, by simp [split], rfl⟩

theorem Takes.text_eq {token back : Text} (h : Takes r v front token back) :
    v = front ++ (token ++ back) := by
  obtain ⟨ps, ps', split, rfl, rfl⟩ := h
  rw [← pieces_text r v, split, List.flatMap_append, List.flatMap_cons]
  rfl

theorem allTaken_iff {test : Text → Text → Text → Bool} : allTaken r test v ↔
    ∀ front token back, Takes r v front token back → test front token back := by
  rw [allTaken, List.all_eq_true]
  constructor
  · rintro h front token back ⟨ps, ps', split, rfl, rfl⟩
    have place := h ps.length (by simp [split])
    rwa [split, List.splitAt_eq, List.take_left, List.drop_left] at place
  · intro h k _
    split
    · rename_i ps token ps' split
      rw [List.splitAt_eq, Prod.mk.injEq] at split
      refine h _ _ _ ⟨ps, ps', ?_, rfl, rfl⟩
      rw [← split.1, ← split.2, List.take_append_drop]
    · rfl

/-! ### Where no token starts -/

theorem silent_nil (rest : Text) : Silent r before [] rest := fun _ _ _ hne text =>
  absurd (List.append_eq_nil_iff.1 text.symm).2 hne

theorem length_eq_succ {token : Text} (h : token ≠ []) : token.length = token.length - 1 + 1 :=
  (Nat.succ_pred_eq_of_pos (List.length_pos_of_ne_nil h)).symm

theorem Silent.ne {rest a b token : Text} (h : Silent r before s rest) (text : s = a ++ b)
    (hb : b ≠ []) (ht : token ≠ []) :
    r (a.getLast?.or before) (b ++ rest) ≠ some token.length := by
  rw [length_eq_succ ht]
  exact h a b _ hb text

theorem silent_cons_iff {c : Char} {rest : Text} : Silent r before (c :: s) rest ↔
    (∀ n, r before (c :: (s ++ rest)) ≠ some (n + 1)) ∧ Silent r (some c) s rest := by
  constructor
  · intro h
    refine ⟨fun n => h [] (c :: s) n (by simp) rfl, fun front back n hne text => ?_⟩
    rw [← getLast?_cons_or]
    exact h (c :: front) back n hne (by rw [text]; rfl)
  · rintro ⟨first, later⟩ front back n hne text
    cases front with
    | nil =>
        obtain rfl : c :: s = back := text
        exact first n
    | cons d front =>
        obtain ⟨rfl, tail⟩ := List.cons.inj text
        rw [getLast?_cons_or]
        exact later front back n hne tail

theorem silent_append_iff {u rest : Text} : Silent r before (s ++ u) rest ↔
    Silent r before s (u ++ rest) ∧ Silent r (s.getLast?.or before) u rest := by
  induction s generalizing before with
  | nil => simp [silent_nil]
  | cons c s ih =>
      rw [List.cons_append, silent_cons_iff, silent_cons_iff, ih, getLast?_cons_or,
        List.append_assoc, and_assoc]

theorem mapFrom_append {f : Text → Text} {rest : Text} (h : Silent r before s rest) :
    mapFrom r f before (s ++ rest) = s ++ mapFrom r f (s.getLast?.or before) rest := by
  induction s generalizing before with
  | nil => rfl
  | cons c s ih =>
      obtain ⟨first, later⟩ := silent_cons_iff.1 h
      rw [List.cons_append, mapFrom_plain first, ih later, getLast?_cons_or]
      rfl

theorem piecesFrom_of_silent (h : Silent r before t []) :
    piecesFrom r before 0 t = t.map .plain := by
  induction t generalizing before with
  | nil => rfl
  | cons c t ih =>
      obtain ⟨first, later⟩ := silent_cons_iff.1 h
      rw [List.append_nil] at first
      rw [piecesFrom_plain first, ih later]
      rfl

/-- A text has no tokens if and only if none starts anywhere in it. -/
theorem tokens_eq_nil_iff : tokens r t = [] ↔ Silent r none t [] := by
  constructor
  · suffices walk : ∀ before, (piecesFrom r before 0 t).filterMap Piece.token? = [] →
        Silent r before t [] from walk none
    induction t with
    | nil => exact fun _ _ => silent_nil []
    | cons c t ih =>
        intro before none
        have first (n : Nat) : r before (c :: t) ≠ some (n + 1) := by
          intro taken
          rw [piecesFrom, taken] at none
          cases none
        rw [piecesFrom_plain first] at none
        exact silent_cons_iff.2 ⟨by rwa [List.append_nil], ih _ none⟩
  · intro h
    rw [tokens, pieces, piecesFrom_of_silent h]
    simp [Piece.token?]

/-! ### Walks -/

/-- A walk goes on from a place in a text. `P` is known where a character is copied, and `Q` where a
token is taken, of the text before and of what follows. -/
inductive Walk (r : Recognizer) (P : Text → Text → Prop) (Q : Text → Text → Text → Prop) :
    Text → Text → Prop
  | nil {front : Text} : Walk r P Q front []
  | plain {front t : Text} {c : Char} (copied : ∀ n, r front.getLast? (c :: t) ≠ some (n + 1))
      (known : P front (c :: t)) (h : Walk r P Q (front ++ [c]) t) : Walk r P Q front (c :: t)
  | token {front token t : Text} (hne : token ≠ [])
      (taken : r front.getLast? (token ++ t) = some token.length) (known : Q front token t)
      (h : Walk r P Q (front ++ token) t) : Walk r P Q front (token ++ t)

namespace Walk

variable {P : Text → Text → Prop} {Q : Text → Text → Text → Prop}

theorem getLast?_append_of_ne_nil {token : Text} (hne : token ≠ []) :
    (front ++ token).getLast? = token.getLast? := List.getLast?_append_of_ne_nil _ hne

/-- A walk that goes on from every place where the facts about it hold. -/
theorem of_forall (hr : Bounded r)
    (hP : ∀ front c t, v = front ++ c :: t → (∀ n, r front.getLast? (c :: t) ≠ some (n + 1)) →
      P front (c :: t))
    (hQ : ∀ front token t, v = front ++ (token ++ t) → token ≠ [] →
      r front.getLast? (token ++ t) = some token.length → Q front token t)
    (text : v = front ++ t) : Walk r P Q front t := by
  induction length : t.length using Nat.strong_induction_on generalizing front t with
  | h k ih =>
      cases t with
      | nil => exact .nil
      | cons c t =>
          by_cases first : ∃ n, r front.getLast? (c :: t) = some (n + 1)
          · obtain ⟨n, taken⟩ := first
            have short := hr _ _ _ taken
            obtain ⟨token, rest, cut, size⟩ : ∃ token rest, c :: t = token ++ rest ∧
                token.length = n + 1 :=
              ⟨_, _, (List.take_append_drop (n + 1) (c :: t)).symm, List.length_take_of_le short⟩
            have hne : token ≠ [] := List.ne_nil_of_length_pos (by omega)
            rw [cut] at taken text length ⊢
            rw [← size] at taken
            rw [List.length_append] at length
            refine .token hne taken (hQ _ _ _ text hne taken) (ih rest.length (by omega) ?_ rfl)
            rw [text, List.append_assoc]
          · rw [List.length_cons] at length
            have copied (n : Nat) : r front.getLast? (c :: t) ≠ some (n + 1) :=
              fun taken => first ⟨n, taken⟩
            refine .plain copied (hP _ _ _ text copied) (ih t.length (by omega) ?_ rfl)
            rw [text, List.append_assoc]
            rfl

/-- The tokens of a walk through a whole text are those that are taken from it. -/
theorem of_takes (hr : Bounded r) (h : ∀ front token back, Takes r v front token back →
    Q front token back) : Walk r (fun _ _ => True) Q [] v := by
  suffices later : ∀ ps front t, Walk r (fun _ _ => True) (fun _ _ _ => True) front t →
      pieces r v = ps ++ piecesFrom r front.getLast? 0 t → ps.flatMap Piece.text = front →
        Walk r (fun _ _ => True) Q front t by
    exact later [] [] v (of_forall hr (fun _ _ _ _ _ => trivial) (fun _ _ _ _ _ _ => trivial) rfl)
      rfl rfl
  intro ps front t walk
  induction walk generalizing ps with
  | nil => exact fun _ _ => .nil
  | @plain front t c copied known walk ih =>
      intro split text
      rw [piecesFrom_plain copied] at split
      refine .plain copied trivial (ih (ps ++ [.plain c]) ?_ ?_)
      · simpa using split
      · simp [text, Piece.text]
  | @token front token t hne taken known walk ih =>
      intro split text
      rw [piecesFrom_token hne taken] at split
      refine .token hne taken (h _ _ _ ⟨ps, _, split, text, ?_⟩) (ih (ps ++ [.token token]) ?_ ?_)
      · rw [piecesFrom_text]
        rfl
      · rw [getLast?_append_of_ne_nil hne]
        simpa using split
      · simp [text, Piece.text]

/-- What is known of the tokens of a walk is known of those that are taken. -/
theorem known_of_takes {token back : Text} (h : Walk r P Q [] v) (taken : Takes r v front token back) :
    Q front token back := by
  suffices later : ∀ start t ps ps', Walk r P Q start t →
      piecesFrom r start.getLast? 0 t = ps ++ .token token :: ps' →
        Q (start ++ ps.flatMap Piece.text) token (ps'.flatMap Piece.text) by
    obtain ⟨ps, ps', split, rfl, rfl⟩ := taken
    simpa using later [] v ps ps' h split
  intro start t ps ps' walk
  induction walk generalizing ps with
  | nil =>
      intro split
      simp [piecesFrom] at split
  | @plain start t c copied known walk ih =>
      intro split
      rw [piecesFrom_plain copied] at split
      cases ps with
      | nil => cases (List.cons.inj split).1
      | cons p ps =>
          obtain ⟨rfl, later⟩ := List.cons.inj split
          rw [← List.getLast?_concat (l := start)] at later
          simpa [Piece.text] using ih ps later
  | @token start token' t hne taken known walk ih =>
      intro split
      rw [piecesFrom_token hne taken] at split
      cases ps with
      | nil =>
          obtain ⟨same, rfl⟩ := List.cons.inj split
          obtain rfl := Piece.token.inj same
          rw [piecesFrom_text]
          simpa using known
      | cons p ps =>
          obtain ⟨rfl, later⟩ := List.cons.inj split
          rw [← @getLast?_append_of_ne_nil start _ hne] at later
          simpa [Piece.text] using ih ps later

theorem imp {P' : Text → Text → Prop} {Q' : Text → Text → Text → Prop} (h : Walk r P Q front t)
    (hP : ∀ front t, P front t → P' front t)
    (hQ : ∀ front token t, Q front token t → Q' front token t) : Walk r P' Q' front t := by
  induction h with
  | nil => exact .nil
  | plain copied known _ ih => exact .plain copied (hP _ _ known) ih
  | token hne taken known _ ih => exact .token hne taken (hQ _ _ _ known) ih

/-- The first step of a walk. -/
theorem cases_cons {c : Char} (h : Walk r P Q front (c :: t)) :
    ((∀ n, r front.getLast? (c :: t) ≠ some (n + 1)) ∧ P front (c :: t) ∧
      Walk r P Q (front ++ [c]) t) ∨
    ∃ token rest, c :: t = token ++ rest ∧ token ≠ [] ∧
      r front.getLast? (token ++ rest) = some token.length ∧ Q front token rest ∧
      Walk r P Q (front ++ token) rest := by
  generalize text : c :: t = u at h
  cases h with
  | nil => cases text
  | plain copied known walk =>
      obtain ⟨rfl, rfl⟩ := List.cons.inj text
      exact .inl ⟨copied, known, walk⟩
  | token hne taken known walk => exact .inr ⟨_, _, rfl, hne, taken, known, walk⟩

theorem known_of_found {token rest : Text} (h : Walk r P Q front (token ++ rest)) (hne : token ≠ [])
    (found : r front.getLast? (token ++ rest) = some token.length) : Q front token rest := by
  obtain ⟨c, token, rfl⟩ := List.exists_cons_of_ne_nil hne
  rcases h.cases_cons with ⟨copied, -, -⟩ | ⟨token', rest', text, -, taken, known, -⟩
  · exact absurd found (copied token.length)
  · rw [← text] at taken
    obtain ⟨rfl, rfl⟩ := List.append_inj text (Option.some.inj (found.symm.trans taken))
    exact known

/-- A walk comes to every place that is not inside of a token. -/
theorem at_place {p : Char → Bool} (h : Walk r P Q front t)
    (joined : ∀ before token rest a b, r before (token ++ rest) = some token.length →
      token = a ++ b → a ≠ [] → b ≠ [] → a.getLast?.any p) {g u : Text} (text : t = g ++ u)
    (free : (front ++ g).getLast?.any p = false) : Walk r P Q (front ++ g) u := by
  induction h generalizing g with
  | nil =>
      obtain ⟨rfl, rfl⟩ := List.append_eq_nil_iff.1 text.symm
      exact .nil
  | @plain front t c copied known walk ih =>
      cases g with
      | nil =>
          obtain rfl : _ = u := text
          simpa using walk.plain copied known
      | cons d g =>
          obtain ⟨rfl, tail⟩ := List.cons.inj text
          have split : front ++ c :: g = front ++ [c] ++ g := by simp
          rw [split] at free ⊢
          exact ih tail free
  | @token front token t hne taken known walk ih =>
      rcases List.append_eq_append_iff.1 text with ⟨b, rfl, tail⟩ | ⟨b, cut, rfl⟩
      · rw [← List.append_assoc] at free ⊢
        exact ih tail free
      · by_cases start : g = []
        · subst start
          obtain rfl : token = b := cut
          simpa using walk.token hne taken known
        · by_cases whole : b = []
          · subst whole
            obtain rfl : token = g := by simpa using cut
            exact walk
          · rw [getLast?_append_of_ne_nil start, joined _ _ _ _ _ taken cut start whole] at free
            cases free

/-- A walk goes through a part of a text without a token, or takes one that starts in this part. -/
theorem pass {rest : Text} (h : Walk r P Q front (s ++ rest)) :
    (Silent r front.getLast? s rest ∧ Walk r P Q (front ++ s) rest) ∨
      ∃ a b token back, s = a ++ b ∧ b ≠ [] ∧ b ++ rest = token ++ back ∧
        r (front ++ a).getLast? (token ++ back) = some token.length ∧
          Q (front ++ a) token back := by
  induction s generalizing front with
  | nil => exact .inl ⟨silent_nil rest, by simpa using h⟩
  | cons c s ih =>
      rcases h.cases_cons with ⟨copied, -, walk⟩ | ⟨token, back, text, -, taken, known, -⟩
      · rcases ih walk with ⟨silent, walk⟩ | ⟨a, b, token, back, rfl, hne, text, taken, known⟩
        · rw [List.getLast?_concat] at silent
          exact .inl ⟨silent_cons_iff.2 ⟨copied, silent⟩, by simpa using walk⟩
        · exact .inr ⟨c :: a, b, token, back, rfl, hne, text, by simpa using taken,
            by simpa using known⟩
      · exact .inr ⟨[], c :: s, token, back, rfl, by simp, text, by simpa using taken,
          by simpa using known⟩

end Walk

end DesignTokens.Text
