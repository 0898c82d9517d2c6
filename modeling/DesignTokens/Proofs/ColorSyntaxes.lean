import DesignTokens.Color.Literal
import DesignTokens.Proofs.CaseParts

/-!
The two ways to write the arguments of a color: between commas, or between blanks with the opacity
after a slash. Blanks around the arguments and the letter case of the name do not matter, and both
ways are read as the same arguments, so they give the same color or the same fault. Main statement:
`ofLiteral_listed_eq_spaced`.
-/
namespace DesignTokens

namespace Text

/-- A text with blanks around it, or without. -/
def IsPadded (a t : Text) : Prop :=
  ∃ u v, t = u ++ (a ++ v) ∧ (∀ c ∈ u, isBlank c) ∧ ∀ c ∈ v, isBlank c

namespace IsPadded

variable {a t : Text}

theorem lower (h : IsPadded a t) : IsPadded (lower a) (lower t) := by
  obtain ⟨u, v, rfl, hu, hv⟩ := h
  exact ⟨u, v, by rw [lower_blank_append hu, lower_append_blank hv], hu, hv⟩

theorem trim_eq (h : IsPadded a t) (solid : ∀ c ∈ a, isBlank c = false) : trim t = a := by
  obtain ⟨u, v, rfl, hu, hv⟩ := h
  rw [trim_append_of_blank hu, trim_append_of_solid solid hv]

theorem words_eq (h : IsPadded a t) (hne : a ≠ []) (solid : ∀ c ∈ a, isBlank c = false) :
    words t = [a] := by
  obtain ⟨u, v, rfl, hu, hv⟩ := h
  rw [words_blank_append hu, words_append_blank hv, words_of_solid hne solid]

theorem notMem (h : IsPadded a t) {c : Char} (solid : isBlank c = false) (hc : c ∉ a) : c ∉ t := by
  obtain ⟨u, v, rfl, hu, hv⟩ := h
  have outside {s : Text} (hs : ∀ c ∈ s, isBlank c) : c ∉ s := by
    intro mem
    simp [hs c mem] at solid
  simp [outside hu, outside hv, hc]

end IsPadded

end Text

namespace Color

open Text

/-- What an argument of a color is: a word without the marks that part arguments. -/
structure IsArgument (a : Text) : Prop where
  ne_nil : a ≠ []
  solid : ∀ c ∈ a, isBlank c = false
  comma_notMem : ',' ∉ a
  slash_notMem : '/' ∉ a

instance (a : Text) : Decidable (IsArgument a) :=
  decidable_of_iff (a ≠ [] ∧ a.all (!isBlank ·) ∧ ',' ∉ a ∧ '/' ∉ a)
    ⟨fun ⟨ne_nil, solid, comma, slash⟩ => ⟨ne_nil, by simpa using solid, comma, slash⟩,
      fun h => ⟨h.ne_nil, by simpa using h.solid, h.comma_notMem, h.slash_notMem⟩⟩

theorem IsArgument.lower {a : Text} (h : IsArgument a) : IsArgument (lower a) where
  ne_nil := lower_ne_nil h.ne_nil
  solid := solid_lower h.solid
  comma_notMem mem := h.comma_notMem (mem_of_mem_lower mem (by decide) (by decide))
  slash_notMem mem := h.slash_notMem (mem_of_mem_lower mem (by decide) (by decide))

/-- Arguments with commas between them. -/
inductive Listed : List Text → Text → Prop
  | last {a t : Text} (h : IsPadded a t) : Listed [a] t
  | cons {a t rest : Text} {others : List Text} (h : IsPadded a t) (later : Listed others rest) :
    Listed (a :: others) (t ++ ',' :: rest)

/-- Arguments with one blank or more between them. -/
inductive Spaced : List Text → Text → Prop
  | last {a t : Text} (h : IsPadded a t) : Spaced [a] t
  | cons {a t rest : Text} {others : List Text} {c : Char} (h : IsPadded a t) (hc : isBlank c)
    (later : Spaced others rest) : Spaced (a :: others) (t ++ c :: rest)

variable {args : List Text} {s t : Text}

theorem Listed.lower (h : Listed args t) : Listed (args.map lower) (lower t) := by
  induction h with
  | last h => exact .last h.lower
  | cons h _ ih =>
      rw [lower_append_cons (isCaseless_of_mem (by simp))]
      exact .cons h.lower ih

theorem Spaced.lower (h : Spaced args t) : Spaced (args.map lower) (lower t) := by
  induction h with
  | last h => exact .last h.lower
  | cons h hc _ ih =>
      rw [lower_append_cons (isCaseless_of_isBlank hc)]
      exact .cons h.lower hc ih

theorem Listed.pieces_eq (h : Listed args t) (plain : ∀ a ∈ args, IsArgument a) :
    (splitOn ',' t).map trim = args := by
  induction h with
  | last h =>
      have first := plain _ List.mem_cons_self
      rw [splitOn_of_notMem (h.notMem (by decide) first.comma_notMem), List.map_singleton,
        h.trim_eq first.solid]
  | cons h _ ih =>
      have first := plain _ List.mem_cons_self
      rw [splitOn_append_cons (h.notMem (by decide) first.comma_notMem), List.map_cons,
        h.trim_eq first.solid, ih fun a ha => plain a (.tail _ ha)]

theorem Spaced.words_eq (h : Spaced args t) (plain : ∀ a ∈ args, IsArgument a) :
    words t = args := by
  induction h with
  | last h =>
      have first := plain _ List.mem_cons_self
      exact h.words_eq first.ne_nil first.solid
  | cons h hc _ ih =>
      have first := plain _ List.mem_cons_self
      rw [words_append_cons hc, h.words_eq first.ne_nil first.solid,
        ih fun a ha => plain a (.tail _ ha)]
      rfl

theorem Spaced.notMem {c : Char} (solid : isBlank c = false) (h : Spaced args t)
    (hc : ∀ a ∈ args, c ∉ a) : c ∉ t := by
  induction h with
  | last h => exact h.notMem solid (hc _ List.mem_cons_self)
  | @cons _ _ _ _ d h blank _ ih =>
      have later := ih fun a ha => hc a (.tail _ ha)
      have other : c ≠ d := by
        rintro rfl
        simp [blank] at solid
      simp [h.notMem solid (hc _ List.mem_cons_self), other, later]

/-! ### What is read -/

def call (name inner : Text) : Text := name ++ '(' :: (inner ++ [')'])

def callNames : List Text := ["rgb".toList, "rgba".toList, "hsl".toList, "hsla".toList]

theorem inner_call {name : Text} (hname : '(' ∉ name) (inner : Text) :
    beforeLast ')' (after '(' (call name inner)) = inner := by
  rw [after, call, cut_append_cons hname, Option.getD_some, beforeLast, List.reverse_append,
    List.reverse_singleton, List.singleton_append, cut, if_pos rfl]
  exact List.reverse_reverse inner

section Arguments

variable {name : Text} (hname : '(' ∉ name)
include hname

theorem Listed.arguments_eq (h : Listed args t) (plain : ∀ a ∈ args, IsArgument a) :
    arguments (call name t) = args := by
  rw [arguments, inner_call hname]
  dsimp only
  cases h with
  | last h =>
      have first := plain _ List.mem_cons_self
      have comma := h.notMem (by decide) first.comma_notMem
      rw [if_neg (by simpa using comma), cut_of_notMem (h.notMem (by decide) first.slash_notMem),
        h.words_eq first.ne_nil first.solid]
      rfl
  | cons h later =>
      rw [if_pos (by simp)]
      exact (Listed.cons h later).pieces_eq plain

theorem Spaced.arguments_eq (h : Spaced args t) (plain : ∀ a ∈ args, IsArgument a) :
    arguments (call name t) = args := by
  have comma := h.notMem (by decide) fun a ha => (plain a ha).comma_notMem
  have slash := h.notMem (by decide) fun a ha => (plain a ha).slash_notMem
  rw [arguments, inner_call hname]
  dsimp only
  rw [if_neg (by simpa using comma), cut_of_notMem slash, h.words_eq plain]
  exact List.append_nil args

/-- The opacity after a slash is the last of the arguments. -/
theorem Spaced.arguments_slash_eq (h : Spaced args t) (plain : ∀ a ∈ args, IsArgument a)
    {alpha u : Text} (opacity : IsArgument alpha) (hu : IsPadded alpha u) :
    arguments (call name (t ++ '/' :: u)) = args ++ [alpha] := by
  have comma : ',' ∉ t ++ '/' :: u := by
    simp [h.notMem (by decide) fun a ha => (plain a ha).comma_notMem,
      hu.notMem (by decide) opacity.comma_notMem]
  have slash := h.notMem (by decide) fun a ha => (plain a ha).slash_notMem
  rw [arguments, inner_call hname]
  dsimp only
  rw [if_neg (by simpa using comma), cut_append_cons slash, h.words_eq plain, Option.getD_some,
    hu.trim_eq opacity.solid, if_neg (by simpa using opacity.ne_nil)]

end Arguments

end Color

namespace Rgba

open Color Text

variable {name : Text}

theorem lower_trim_call (hname : lower name ∈ callNames) (inner : Text) :
    lower (trim (call name inner)) = call (lower name) (lower inner) := by
  have names : ∀ n ∈ callNames, n ≠ [] ∧ n.all fun c => !isBlank c := by decide
  obtain ⟨hne, solid⟩ := names _ hname
  have first : nextIs isBlank (call name inner) = false := by
    cases name with
    | nil => exact absurd rfl hne
    | cons c rest =>
        by_contra blank
        replace blank : isBlank c := by simpa [call, nextIs] using blank
        obtain ⟨same, sigma, dotted⟩ := lowerChar_of_isBlank blank
        have inside := mem_lower_of_mem (t := c :: rest) List.mem_cons_self same sigma dotted
        simpa [blank] using List.all_eq_true.1 solid c inside
  have last : (call name inner).getLast?.any isBlank = false := by
    rw [call, List.getLast?_append_cons, ← List.cons_append, List.getLast?_concat]
    decide
  rw [trim_of_ends first last, call, lower_append_cons (isCaseless_of_mem (by simp)),
    lower_append_cons (isCaseless_of_mem (by simp))]
  rfl

/-- A call is read by its name and its arguments. -/
theorem ofLiteral_call_congr (hname : lower name ∈ callNames) {s t : Text}
    (same : arguments (call (lower name) (lower s)) = arguments (call (lower name) (lower t))) :
    ofLiteral (call name s) = ofLiteral (call name t) := by
  have rgb : ofRgbCall (call (lower name) (lower s)) = ofRgbCall (call (lower name) (lower t)) := by
    rw [ofRgbCall, ofRgbCall, same]
  have hsl : ofHslCall (call (lower name) (lower s)) = ofHslCall (call (lower name) (lower t)) := by
    rw [ofHslCall, ofHslCall, same]
  have starts (start : Text) (h : start.length ≤ 3) (u : Text) :
      start.isPrefixOf (call (lower name) u) = start.isPrefixOf (lower name) := by
    have long : ∀ n ∈ callNames, 3 ≤ n.length := by decide
    have shorter : start.length ≤ (lower name).length := h.trans (long _ hname)
    rw [Bool.eq_iff_iff, List.isPrefixOf_iff_prefix, List.isPrefixOf_iff_prefix, call]
    exact ⟨fun p => List.prefix_of_prefix_length_le p (List.prefix_append _ _) shorter,
      fun p => p.trans (List.prefix_append _ _)⟩
  rw [ofLiteral, ofLiteral, lower_trim_call hname, lower_trim_call hname, starts _ (by decide),
    starts _ (by decide), starts _ (by decide), starts _ (by decide), starts _ (by decide),
    starts _ (by decide), rgb, hsl]
  have named : ∀ n ∈ callNames, "#".toList.isPrefixOf n = false := by decide
  rw [named _ hname]
  rfl

/-- Both ways to write the arguments of a color give the same color or the same fault, with an
opacity and without. -/
theorem ofLiteral_listed_eq_spaced (hname : lower name ∈ callNames) {channels : List Text}
    (plain : ∀ a ∈ channels, IsArgument a) {s : Text} (spaced : Spaced channels s) :
    (∀ t, Listed channels t → ofLiteral (call name t) = ofLiteral (call name s)) ∧
      ∀ alpha u t, IsArgument alpha → IsPadded alpha u → Listed (channels ++ [alpha]) t →
        ofLiteral (call name t) = ofLiteral (call name (s ++ '/' :: u)) := by
  have names : ∀ n ∈ callNames, '(' ∉ n := by decide
  have open_notMem := names _ hname
  have lowered : ∀ a ∈ channels.map lower, IsArgument a := by
    intro a ha
    obtain ⟨b, hb, rfl⟩ := List.mem_map.1 ha
    exact (plain b hb).lower
  constructor
  · intro t listed
    apply ofLiteral_call_congr hname
    rw [listed.lower.arguments_eq open_notMem lowered,
      spaced.lower.arguments_eq open_notMem lowered]
  · intro alpha u t opacity padded listed
    have all : ∀ a ∈ (channels ++ [alpha]).map lower, IsArgument a := by
      rw [List.map_append, List.map_singleton, List.forall_mem_append, List.forall_mem_singleton]
      exact ⟨lowered, opacity.lower⟩
    apply ofLiteral_call_congr hname
    rw [listed.lower.arguments_eq open_notMem all,
      lower_append_cons (isCaseless_of_mem (by simp)),
      spaced.lower.arguments_slash_eq open_notMem lowered opacity.lower padded.lower,
      List.map_append, List.map_singleton]

theorem ofLiteral_listed_eq_spaced_halfOpaque :
    lower "RgbA".toList ∈ callNames ∧
      (∀ a ∈ ["10".toList, "20%".toList, "Σ".toList], IsArgument a) ∧
      Spaced ["10".toList, "20%".toList, "Σ".toList] " 10 20%  Σ".toList ∧
      Listed ["10".toList, "20%".toList, "Σ".toList] "10,20% , Σ".toList ∧
      IsArgument "50%".toList ∧ IsPadded "50%".toList " 50%".toList ∧
      Listed ["10".toList, "20%".toList, "Σ".toList, "50%".toList] "10,20%,Σ,50%".toList ∧
      ofLiteral "RgbA(10,20% , Σ)".toList = ofLiteral "RgbA( 10 20%  Σ)".toList ∧
      ofLiteral "RgbA(10,20%,Σ,50%)".toList = ofLiteral "RgbA( 10 20%  Σ/ 50%)".toList := by
  have space : ∀ c ∈ [' '], isBlank c := by
    have blank : isBlank ' ' := by decide
    simpa using blank
  have nothing : ∀ c ∈ ([] : Text), isBlank c := by simp
  have bare (a : Text) : IsPadded a a := ⟨[], [], by simp, nothing, nothing⟩
  have named : lower "RgbA".toList ∈ callNames := by decide
  have plain : ∀ a ∈ ["10".toList, "20%".toList, "Σ".toList], IsArgument a := by decide
  have opacity : IsArgument "50%".toList := by decide
  have padded : IsPadded "50%".toList " 50%".toList := ⟨[' '], [], rfl, space, nothing⟩
  have spaced : Spaced ["10".toList, "20%".toList, "Σ".toList] " 10 20%  Σ".toList :=
    .cons ⟨[' '], [], rfl, space, nothing⟩ (c := ' ') (space _ List.mem_cons_self)
      (.cons (bare _) (c := ' ') (space _ List.mem_cons_self)
        (.last ⟨[' '], [], rfl, space, nothing⟩))
  have channels : Listed ["10".toList, "20%".toList, "Σ".toList] "10,20% , Σ".toList :=
    .cons (bare _) (.cons ⟨[], [' '], rfl, nothing, space⟩
      (.last ⟨[' '], [], rfl, space, nothing⟩))
  have all : Listed ["10".toList, "20%".toList, "Σ".toList, "50%".toList] "10,20%,Σ,50%".toList :=
    .cons (bare _) (.cons (bare _) (.cons (bare _) (.last (bare _))))
  obtain ⟨without_alpha, with_alpha⟩ := ofLiteral_listed_eq_spaced named plain spaced
  refine ⟨named, plain, spaced, channels, opacity, padded, all, ?_, ?_⟩
  · have listed : "RgbA(10,20% , Σ)".toList = call "RgbA".toList "10,20% , Σ".toList := by
      decide +kernel
    have separate : "RgbA( 10 20%  Σ)".toList = call "RgbA".toList " 10 20%  Σ".toList := by
      decide +kernel
    rw [listed, separate]
    exact without_alpha _ channels
  · have listed : "RgbA(10,20%,Σ,50%)".toList = call "RgbA".toList "10,20%,Σ,50%".toList := by
      decide +kernel
    have separate : "RgbA( 10 20%  Σ/ 50%)".toList =
        call "RgbA".toList (" 10 20%  Σ".toList ++ '/' :: " 50%".toList) := by
      decide +kernel
    rw [listed, separate]
    exact with_alpha _ _ _ opacity padded all

end Rgba

end DesignTokens
