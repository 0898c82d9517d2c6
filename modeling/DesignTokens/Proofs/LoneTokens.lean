import DesignTokens.Proofs.ScannedTokens
import Mathlib

/-!
Literals that are replaced one after another, and tokens that are replaced at once. Where a walk
takes the tokens that stand alone, each literal in its turn finds in the text so far exactly the
tokens that it is; so in the end each token is the reference of its literal, and nothing else has
changed. A recognizer that finds nothing among the plain characters finds nothing in the end.
-/
namespace DesignTokens.Text

open Spares

/-- A literal that starts in a text does not go on with an opening behind the text. -/
def Stops (kind : Text → Prop) (p : Char → Bool) (front : Text) : Prop :=
  ∀ start a b, front = start ++ a → start.getLast?.any p = false → kind (a ++ b) → b ≠ [] →
    ¬ b <+: opening ∧ ¬ opening <+: b

/-- A token with the name that is known for it. -/
def named (names : Text → Option Text) (token : Text) : Text := (names token).elim token reference

variable {r : Recognizer} {kind : Text → Prop} {p q : Char → Bool} {before : Option Char}
  {front t literal name token : Text}

namespace Walk

variable {w : Recognizer} {P : Text → Text → Prop} {Q : Text → Text → Text → Prop}
  {names : Text → Option Text}

theorem mapFrom_append_token {f : Text → Text} (hne : token ≠ [])
    (taken : w front.getLast? (token ++ t) = some token.length) :
    mapFrom w f front.getLast? (token ++ t) = f token ++ mapFrom w f (front ++ token).getLast? t := by
  rw [mapFrom_token hne taken, getLast?_append_of_ne_nil hne]

/-- A text that neither is a part of an opening nor goes on behind one does not start a reference. -/
theorem eq_nil_of_reference_append {rest x : Text} (text : reference name ++ rest = literal ++ x)
    (other : literal ≠ [] → ¬ literal <+: opening ∧ ¬ opening <+: literal) : literal = [] := by
  by_contra hne
  obtain ⟨shorter, longer⟩ := other hne
  have opens : opening <+: literal ++ x := text ▸ by simp [reference_append, opening]
  exact (List.prefix_or_prefix_of_prefix opens (List.prefix_append _ _)).elim longer shorter

/-- What a text with references starts with was there before, unless it goes on into a reference.
What follows it has the same first character, or is a reference. -/
theorem exists_of_mapFrom_eq {x : Text} (h : Walk w P Q front t)
    (apart : ∀ a token back, t = a ++ (token ++ back) → Q (front ++ a) token back →
      (names token).isSome → ∀ b, literal = a ++ b → b ≠ [] → ¬ b <+: opening ∧ ¬ opening <+: b)
    (text : mapFrom w (named names) front.getLast? t = literal ++ x) :
    ∃ y, t = literal ++ y ∧ (x.head? = y.head? ∨ x.head? = some 'v') := by
  induction h generalizing literal with
  | nil =>
      obtain ⟨rfl, rfl⟩ := List.append_eq_nil_iff.1 text.symm
      exact ⟨[], rfl, .inl rfl⟩
  | @plain front t c copied known walk ih =>
      rw [mapFrom_plain copied] at text
      cases literal with
      | nil =>
          obtain rfl : _ = x := text
          exact ⟨c :: t, rfl, .inl rfl⟩
      | cons d literal =>
          obtain ⟨rfl, tail⟩ := List.cons.inj text
          rw [← List.getLast?_concat (l := front)] at tail
          obtain ⟨y, rfl, heads⟩ := ih (fun a token back cut known some b same hne =>
            apart (c :: a) token back (by rw [cut]; rfl) (by simpa using known) some b
              (by rw [same]; rfl) hne) tail
          exact ⟨y, rfl, heads⟩
  | @token front token t hne taken known walk ih =>
      rw [mapFrom_append_token hne taken] at text
      cases name : names token with
      | none =>
          rw [named, name, Option.elim_none] at text
          rcases List.append_eq_append_iff.1 text with ⟨b, rfl, tail⟩ | ⟨b, rfl, rfl⟩
          · obtain ⟨y, rfl, heads⟩ := ih (fun a token' back cut known some b' same hne =>
              apart (token ++ a) token' back (by simp [cut]) (by simpa using known) some b'
                (by simp [same]) hne) tail
            exact ⟨y, (List.append_assoc _ _ _).symm, heads⟩
          · by_cases last : b = []
            · subst last
              obtain ⟨y, rfl, heads⟩ := @ih [] (fun a token' back cut known some b' same hne =>
                absurd (List.append_eq_nil_iff.1 same.symm).2 hne) rfl
              exact ⟨_, by simp, heads⟩
            · refine ⟨b ++ t, List.append_assoc _ _ _, .inl ?_⟩
              rw [List.head?_append_of_ne_nil _ last, List.head?_append_of_ne_nil _ last]
      | some name' =>
          rw [named, name, Option.elim_some] at text
          obtain rfl := eq_nil_of_reference_append text fun hne =>
            apart [] token t rfl (by simpa using known) (by simp [name]) _ rfl hne
          obtain rfl : _ = x := text
          exact ⟨token ++ t, rfl, .inr rfl⟩

theorem head?_mapFrom (h : Walk w P Q front t) :
    (mapFrom w (named names) front.getLast? t).head? = t.head? ∨
      (mapFrom w (named names) front.getLast? t).head? = some 'v' := by
  have whole : mapFrom w (named names) front.getLast? t = [] ++ mapFrom w (named names) _ t := rfl
  obtain ⟨y, rfl, heads⟩ := h.exists_of_mapFrom_eq
    (fun a token back _ _ _ b same hne => absurd (List.append_eq_nil_iff.1 same.symm).2 hne) whole
  exact heads

theorem getLast?_mapFrom (h : Walk w P Q front t) :
    (mapFrom w (named names) front.getLast? t).getLast? = t.getLast? ∨
      (mapFrom w (named names) front.getLast? t).getLast? = some ')' := by
  induction h with
  | nil => exact .inl rfl
  | plain copied known walk ih =>
      rw [List.getLast?_concat] at ih
      rw [mapFrom_plain copied, List.getLast?_cons, List.getLast?_cons]
      rcases ih with same | close
      · exact .inl (by rw [same])
      · exact .inr (by rw [close]; rfl)
  | @token front token t hne taken known walk ih =>
      rw [mapFrom_append_token hne taken]
      generalize mapFrom w (named names) (front ++ token).getLast? t = x at ih ⊢
      rw [List.getLast?_append, List.getLast?_append]
      rcases ih with same | close
      · rw [same]
        cases t.getLast? with
        | some c => exact .inl rfl
        | none =>
            cases known_name : names token with
            | none => exact .inl (by rw [named, known_name]; rfl)
            | some name =>
                rw [named, known_name, Option.elim_some, Option.none_or]
                exact .inr List.getLast?_concat
      · exact .inr (by rw [close]; rfl)

/-- A text without blanks at its ends has none with references. -/
theorem isSolid_mapTokens {v : Text} (h : Walk w P Q [] v) (hv : IsSolid v) :
    IsSolid (mapTokens w (named names) v) := by
  have first : (mapFrom w (named names) ([] : Text).getLast? v).head? = _ ∨ _ := h.head?_mapFrom
  have last : (mapFrom w (named names) ([] : Text).getLast? v).getLast? = _ ∨ _ := h.getLast?_mapFrom
  change IsSolid (mapFrom w (named names) ([] : Text).getLast? v)
  refine ⟨fun none => ?_, fun c hc => ?_, fun c hc => ?_⟩
  · obtain ⟨c, v, rfl⟩ := List.exists_cons_of_ne_nil hv.ne_nil
    rw [none] at first
    rcases first with same | reference
    · cases same
    · cases reference
  · rcases first with same | reference
    · exact hv.head c (same ▸ hc)
    · rw [reference] at hc
      cases hc
      rfl
  · rcases last with same | close
    · exact hv.last c (same ▸ hc)
    · rw [close] at hc
      cases hc
      rfl

/-- The character before a place in a text with references is that of the text, or it is that of a
reference and what follows does not go on with a name or a number. -/
def Follows (before : Option Char) (front t : Text) : Prop :=
  before = front.getLast? ∨ before = some ')' ∧ nextIs joinsPrevious t = false

/-- The text behind a token follows it, or the reference of the token. -/
theorem follows_named (hne : token ≠ []) (next : nextIs joinsPrevious t = false) :
    Follows ((named names token).getLast?.or before) (front ++ token) t := by
  cases known_name : names token with
  | some name =>
      have last : (reference name).getLast? = some ')' := List.getLast?_concat
      rw [named, known_name, Option.elim_some, last]
      exact .inr ⟨rfl, next⟩
  | none =>
      rw [named, known_name, Option.elim_none, List.getLast?_eq_some_getLast hne,
        Option.some_or, ← List.getLast?_eq_some_getLast hne]
      exact .inl (getLast?_append_of_ne_nil hne).symm

/-- What a recognizer finds in a text with references it finds in the text. -/
theorem of_mapFrom (h : Walk w P Q front t) (hr : Scans r kind p q) (hq : q 'v')
    (stops : ∀ front token back, Q front token back → (names token).isSome → Stops kind p front)
    (follows : Follows before front t) {n : Nat}
    (found : r before (mapFrom w (named names) front.getLast? t) = some n) :
    before = front.getLast? ∧ r front.getLast? t = some n := by
  obtain ⟨literal, x, text, rfl, hk, free, after⟩ := (hr.iff _ _ _).1 found
  have begins := hr.begins _ hk
  have same : before = front.getLast? := by
    refine follows.resolve_right fun ⟨_, next⟩ => ?_
    have joins := begins.joinsPrevious x
    have other := begins.other
    rw [← List.head?_append_of_ne_nil _ begins.ne_nil, ← text] at other
    rw [← text, nextIs_eq_any, h.head?_mapFrom.resolve_right other, ← nextIs_eq_any, next] at joins
    cases joins
  subst same
  obtain ⟨y, rfl, heads⟩ := h.exists_of_mapFrom_eq (fun a token back cut known some b same hne =>
    stops _ _ _ known some front a b rfl free (same ▸ hk) hne) text
  refine ⟨rfl, hr.of_append hk free ?_⟩
  rw [nextIs_eq_any] at after ⊢
  rcases heads with same | reference
  · rwa [← same]
  · rw [reference, Option.any_some, hq] at after
    cases after

section Lone

variable (hw : Scans w kind Length.joinsNext joinsPrevious)
include hw

theorem nextIs_mapFrom (h : Walk w P Q front t) (next : nextIs joinsPrevious t = false) :
    nextIs joinsPrevious (mapFrom w (named names) front.getLast? t) = false := by
  cases h with
  | nil => rfl
  | plain copied known walk =>
      rw [mapFrom_plain copied]
      exact next
  | token hne taken known walk =>
      rw [(hw.begins _ (hw.taken taken).1).joinsPrevious] at next
      cases next

/-- A literal that is found alone in a text with references is found in the text. -/
theorem of_mapFrom_loneToken (h : Walk w P Q front t) (hk : kind literal)
    (stops : ∀ front token back, Q front token back → (names token).isSome →
      Stops kind Length.joinsNext front)
    (follows : Follows before front t) {n : Nat}
    (found : loneToken .exact literal before (mapFrom w (named names) front.getLast? t) = some n) :
    n = literal.length ∧ w front.getLast? t = some literal.length := by
  have scans := Scans.loneToken (hw.begins _ hk)
  obtain ⟨-, alone⟩ := h.of_mapFrom scans (by decide) (fun f token back known some =>
    fun start a b cut free same hne => stops f token back known some start a b cut free
      (same ▸ hk) hne) follows found
  obtain ⟨_, rest, rfl, rfl, rfl, free, after⟩ := (scans.iff _ _ _).1 alone
  exact ⟨rfl, hw.of_append hk free after⟩

/-- A literal is not found in another token, neither at its start nor inside of it. -/
theorem silent_loneToken (h : Walk w P Q front (token ++ t)) (hk : kind literal) (hne : token ≠ [])
    (stops : ∀ front token back, Q front token back → (names token).isSome →
      Stops kind Length.joinsNext front)
    (taken : w front.getLast? (token ++ t) = some token.length) (copied : named names token = token)
    (other : token ≠ literal) (inside : Inside (loneToken .exact literal) token) :
    Silent (loneToken .exact literal) front.getLast? token
      (mapFrom w (named names) (front ++ token).getLast? t) := by
  intro a b n b_ne text alone
  by_cases start : a = []
  · subst start
    obtain rfl : token = b := text
    rw [List.getLast?_nil, Option.none_or] at alone
    obtain ⟨rest, text⟩ := ((seeks_loneToken (hw.begins _ hk).ne_nil).taken _ _ _ alone).1
    nth_rewrite 1 [← copied] at alone
    rw [← mapFrom_append_token hne taken] at alone
    obtain ⟨-, whole⟩ := of_mapFrom_loneToken hw h hk stops (.inl rfl) alone
    rw [taken] at whole
    exact other (List.append_inj_left text (Option.some.inj whole).symm).symm
  · have none := inside a b (mapFrom w (named names) (front ++ token).getLast? t) text start b_ne
    rw [List.getLast?_eq_some_getLast start, Option.some_or,
      ← List.getLast?_eq_some_getLast start, none] at alone
    cases alone

/-- The text in which the next literal is replaced as well. -/
theorem replaceFrom_loneToken (h : Walk w P Q front t) (hk : kind literal)
    (unbroken : ∀ token name, names token = some name → TokenName.Unbroken name)
    (stops : ∀ front token back, Q front token back → (names token).isSome →
      Stops kind Length.joinsNext front)
    (inside : ∀ front token back, Q front token back → names token = none → token ≠ literal →
      Inside (loneToken .exact literal) token)
    (follows : Follows before front t) :
    mapFrom (loneToken .exact literal) (fun _ => reference name) before
        (mapFrom w (named names) front.getLast? t) =
      mapFrom w (named fun token => (names token).or (if token = literal then some name else none))
        front.getLast? t := by
  have scans := Scans.loneToken (hw.begins _ hk)
  induction h generalizing before with
  | nil => rfl
  | @plain front t c copied known walk ih =>
      have quiet (n : Nat) : loneToken .exact literal before
          (c :: mapFrom w (named names) (some c) t) ≠ some (n + 1) := by
        intro taken
        rw [← mapFrom_plain copied] at taken
        obtain ⟨length, taken⟩ :=
          of_mapFrom_loneToken hw (.plain copied known walk) hk stops follows taken
        rw [← length] at taken
        exact copied n taken
      rw [mapFrom_plain copied, mapFrom_plain copied, mapFrom_plain quiet]
      rw [List.getLast?_concat] at ih
      rw [ih (.inl List.getLast?_concat.symm)]
  | @token front token t hne taken known walk ih =>
      obtain ⟨hk', free, next⟩ := hw.taken taken
      have here : before = front.getLast? := by
        refine follows.resolve_right fun ⟨_, apart⟩ => ?_
        rw [(hw.begins _ hk').joinsPrevious] at apart
        cases apart
      subst here
      rw [mapFrom_append_token hne taken, mapFrom_append_token hne taken]
      cases known_name : names token with
      | some other =>
          have avoids : Avoids (loneToken .exact literal) other :=
            scans.avoids_of_unbroken (unbroken _ _ known_name)
          have last : (reference other).getLast? = some ')' := List.getLast?_concat
          rw [named, named, known_name, Option.some_or, Option.elim_some,
            mapFrom_append (avoids _ _), last, Option.some_or, ih (.inr ⟨rfl, next⟩)]
      | none =>
          have copied : named names token = token := by
            rw [named, known_name]
            rfl
          by_cases same : token = literal
          · subst same
            have after : nextIs _ (mapFrom w (named names) _ t) = _ := nextIs_mapFrom hw walk next
            have last : (front ++ token).getLast? = _ := getLast?_append_of_ne_nil hne
            rw [copied, mapFrom_token hne (scans.of_append rfl free after), ← last, ih (.inl rfl)]
            rw [named, known_name, if_pos rfl]
            rfl
          · have silent := silent_loneToken hw (.token hne taken known walk) hk hne stops taken
              copied same (inside _ _ _ known known_name same)
            have last : token.getLast?.or front.getLast? = (front ++ token).getLast? := by
              rw [List.getLast?_append]
            rw [copied, mapFrom_append silent, last, ih (.inl rfl)]
            rw [named, known_name, if_neg same]
            rfl

/-- Literals that are replaced one after another: each token that stands alone becomes the reference
of the first literal that it is. -/
theorem foldl_replaceLone {v : Text} (h : Walk w P Q [] v) {entries : List (Text × Text)}
    (kinds : ∀ e ∈ entries, kind e.1) (unbroken : ∀ e ∈ entries, TokenName.Unbroken e.2)
    (stops : ∀ front token back, Q front token back → Stops kind Length.joinsNext front)
    (inside : ∀ done e later, entries = done ++ e :: later → ∀ front token back,
      Q front token back → done.lookup token = none → token ≠ e.1 →
        Inside (loneToken .exact e.1) token) :
    entries.foldl (fun v e => replaceLone .exact e.1 (reference e.2) v) v =
      mapTokens w (named fun token => entries.lookup token) v := by
  suffices some : ∀ done later, entries = done ++ later →
      done.foldl (fun v e => replaceLone .exact e.1 (reference e.2) v) v =
        mapFrom w (named fun token => done.lookup token) none v from some entries [] (List.append_nil _).symm
  intro done
  induction done using List.reverseRecOn with
  | nil =>
      intro later _
      have texts : Piece.mapToken (named fun token => [].lookup token) = Piece.text := by
        funext piece
        cases piece <;> rfl
      rw [mapFrom, texts]
      exact (pieces_text w v).symm
  | append_singleton done e ih =>
      intro later split
      rw [List.append_assoc] at split
      have listed : e ∈ entries := by simp [split]
      have named_unbroken (token name : Text) (known : done.lookup token = some name) :
          TokenName.Unbroken name := by
        rw [split] at unbroken
        exact unbroken _ (List.mem_append_left _ (mem_of_lookup_eq_some known))
      have filled : e.1.isEmpty = false :=
        List.isEmpty_eq_false_iff.2 (hw.begins _ (kinds e listed)).ne_nil
      have lookup (token : Text) : (done ++ [e]).lookup token =
          (done.lookup token).or (if token = e.1 then some e.2 else none) := by
        rw [List.lookup_append, List.lookup_cons, List.lookup_nil]
        cases same : token == e.1 <;> simp_all
      rw [List.foldl_append, ih _ split, List.foldl_cons, List.foldl_nil, replaceLone, filled,
        if_neg Bool.false_ne_true, funext lookup]
      exact h.replaceFrom_loneToken hw (kinds e listed) named_unbroken
        (fun front token back known _ => stops _ _ _ known) (inside done e later split) (.inl rfl)

/-- Where all tokens have become references, a recognizer that finds nothing among the plain
characters finds nothing. -/
theorem silent_mapFrom {kind' : Text → Prop} (h : Walk w P Q front t) (hr : Scans r kind' p q)
    (hq : q 'v') (stops : ∀ front token back, Q front token back → Stops kind' p front)
    (replaced : ∀ front token back, Q front token back →
      ∃ name, names token = some name ∧ Avoids r name)
    (plain : ∀ front t n, Walk w P Q front t → P front t → r front.getLast? t = some n →
      nextIs q ((mapFrom w (named names) front.getLast? t).drop n))
    (follows : Follows before front t) :
    Silent r before (mapFrom w (named names) front.getLast? t) [] := by
  induction h generalizing before with
  | nil => exact silent_nil []
  | @plain front t c copied known walk ih =>
      have quiet (n : Nat) : r before (mapFrom w (named names) front.getLast? (c :: t)) ≠
          some (n + 1) := by
        intro found
        have here := walk.plain copied known
        obtain ⟨_, x, text, length, _, -, after⟩ := (hr.iff _ _ _).1 found
        obtain ⟨-, found⟩ := here.of_mapFrom hr hq (fun _ _ _ known _ => stops _ _ _ known) follows
          found
        have joined := plain _ _ _ here known found
        rw [text, ← length, List.drop_left, after] at joined
        cases joined
      rw [mapFrom_plain copied] at quiet ⊢
      rw [List.getLast?_concat] at ih
      exact silent_cons_iff.2 ⟨by simpa using quiet, ih (.inl List.getLast?_concat.symm)⟩
  | @token front token t hne taken known walk ih =>
      obtain ⟨name, known_name, avoids⟩ := replaced _ _ _ known
      have last : (reference name).getLast? = some ')' := List.getLast?_concat
      rw [mapFrom_append_token hne taken, named, known_name, Option.elim_some, silent_append_iff,
        last]
      exact ⟨avoids _ _, ih (.inr ⟨rfl, (hw.taken taken).2.2⟩)⟩

/-- A place behind which a name or a number can start is a place in the text with references. -/
theorem exists_place (h : Walk w P Q front t)
    (joined : ∀ token a b, kind token → token = a ++ b → a ≠ [] → b ≠ [] →
      a.getLast?.any Length.joinsNext) {g u : Text} (text : t = g ++ u)
    (free : (front ++ g).getLast?.any Length.joinsNext = false) (follows : Follows before front t) :
    ∃ g', mapFrom w (named names) front.getLast? t =
        g' ++ mapFrom w (named names) (front ++ g).getLast? u ∧
      Follows (g'.getLast?.or before) (front ++ g) u := by
  induction h generalizing g before with
  | nil =>
      obtain ⟨rfl, rfl⟩ := List.append_eq_nil_iff.1 text.symm
      exact ⟨[], rfl, by simpa using follows⟩
  | @plain front t c copied known walk ih =>
      cases g with
      | nil =>
          obtain rfl : _ = u := text
          exact ⟨[], by simp, by simpa using follows⟩
      | cons d g =>
          obtain ⟨rfl, tail⟩ := List.cons.inj text
          have split : front ++ c :: g = front ++ [c] ++ g := by simp
          rw [split] at free
          obtain ⟨g', same, follows⟩ := ih tail free (.inl List.getLast?_concat.symm)
          rw [List.getLast?_concat] at same
          refine ⟨c :: g', ?_, ?_⟩
          · rw [mapFrom_plain copied, same, split]
            rfl
          · rwa [getLast?_cons_or, split]
  | @token front token t hne taken known walk ih =>
      obtain ⟨hk, -, next⟩ := hw.taken taken
      have later {g : Text} (tail : t = g ++ u) (free : (front ++ token ++ g).getLast?.any
          Length.joinsNext = false) : ∃ g', mapFrom w (named names) front.getLast? (token ++ t) =
            g' ++ mapFrom w (named names) (front ++ (token ++ g)).getLast? u ∧
          Follows (g'.getLast?.or before) (front ++ (token ++ g)) u := by
        obtain ⟨g', same, follows⟩ := ih tail free (follows_named hne next)
        rw [List.append_assoc] at same follows
        refine ⟨named names token ++ g', ?_, ?_⟩
        · rw [mapFrom_append_token hne taken, same, List.append_assoc]
        · rwa [List.getLast?_append, Option.or_assoc]
      rcases List.append_eq_append_iff.1 text with ⟨b, rfl, tail⟩ | ⟨b, cut, rfl⟩
      · rw [← List.append_assoc] at free
        exact later tail free
      · by_cases whole : b = []
        · subst whole
          obtain rfl : token = g := by simpa using cut
          simpa using @later [] rfl (by simpa using free)
        · by_cases start : g = []
          · subst start
            obtain rfl : token = b := cut
            exact ⟨[], by simp, by simpa using follows⟩
          · have inner := joined token g b hk cut start whole
            rw [getLast?_append_of_ne_nil start, inner] at free
            cases free

end Lone

end Walk

end DesignTokens.Text
