import DesignTokens.Proofs.PassedValues

/-!
Where declarations stand. The place of a declaration is the count of the characters before its value
that end values. A pass over values changes no place, since values hold no such character. Cut at
these characters, a sheet has each value at the end of the segment of its place.
-/
namespace DesignTokens

open Text

namespace Text

/-- The characters that end a value. -/
def isStop (c : Char) : Bool := c == ';' || c == '}'

theorem isStop_iff {c : Char} : isStop c ↔ c = ';' ∨ c = '}' := by simp [isStop]

def stops (t : Text) : Nat := t.countP isStop

/-- What stands between the characters that end values. -/
def segments (t : Text) : List Text := t.splitOnP isStop

theorem stops_append (t u : Text) : stops (t ++ u) = stops t + stops u := List.countP_append

theorem stops_eq_zero {t : Text} (h : ∀ c ∈ t, isStop c = false) : stops t = 0 :=
  List.countP_eq_zero.2 fun c hc => by simp [h c hc]

theorem segments_append_cons {c : Char} (hc : isStop c) (t u : Text) :
    segments (t ++ c :: u) = segments t ++ segments u := List.splitOnP_append_cons t u hc

theorem segments_of_stopless {t : Text} (h : ∀ c ∈ t, isStop c = false) : segments t = [t] :=
  List.splitOnP_eq_singleton h

/-- Induction over the segments of a text. -/
theorem segments_steps {P : Text → Prop} (last : ∀ t, (∀ c ∈ t, isStop c = false) → P t)
    (next : ∀ s c t, (∀ c ∈ s, isStop c = false) → isStop c → P t → P (s ++ c :: t)) (t : Text) :
    P t := by
  induction h : t.length using Nat.strong_induction_on generalizing t with
  | h n ih =>
      have cut := List.takeWhile_append_dropWhile (p := (!isStop ·)) (l := t)
      have stopless : ∀ c ∈ t.takeWhile (!isStop ·), isStop c = false :=
        fun c hc => by simpa using List.mem_takeWhile_imp hc
      cases hd : t.dropWhile (!isStop ·) with
      | nil =>
          rw [hd, List.append_nil] at cut
          exact last t (cut ▸ stopless)
      | cons c rest =>
          have stop : isStop c := by simpa using of_dropWhile_eq_cons hd
          rw [hd] at cut
          have shorter := congrArg List.length cut
          rw [List.length_append, List.length_cons] at shorter
          exact cut ▸ next _ c rest stopless stop (ih rest.length (by omega) rest rfl)

/-- Text in front of a segment is counted, and what is not ended in it comes into the segment. -/
theorem getElem?_segments_append (front : Text) {t part : Text} {k : Nat}
    (h : (segments t)[k]? = some part) :
    ∃ before, (segments (front ++ t))[stops front + k]? = some (before ++ part) := by
  induction front with
  | nil =>
      refine ⟨[], ?_⟩
      rw [List.nil_append, List.nil_append, stops, List.countP_nil, Nat.zero_add]
      exact h
  | cons c front ih =>
      obtain ⟨before, found⟩ := ih
      cases hc : isStop c with
      | true =>
          have whole := segments_append_cons hc [] (front ++ t)
          have count : stops (c :: front) + k = (stops front + k) + 1 := by
            rw [stops, List.countP_cons_of_pos hc, stops]
            omega
          exact ⟨before, by rw [count, List.cons_append]; exact whole ▸ found⟩
      | false =>
          have count : stops (c :: front) = stops front := List.countP_cons_of_neg (by simp [hc])
          have whole : segments (c :: (front ++ t)) =
              (segments (front ++ t)).modifyHead (c :: ·) := by
            rw [segments, List.splitOnP_cons_eq_if_modifyHead, hc]
            rfl
          rw [List.cons_append, whole, count]
          cases hs : segments (front ++ t) with
          | nil => simp [hs] at found
          | cons first others =>
              rw [hs] at found
              cases hk : stops front + k with
              | zero =>
                  rw [hk] at found
                  exact ⟨c :: before, by simpa using found⟩
              | succ n =>
                  rw [hk] at found
                  exact ⟨before, by simpa using found⟩

end Text

theorem Value.Fits.stopless {v : Text} (h : Fits v) : ∀ c ∈ v, isStop c = false := by
  intro c hc
  by_contra stop
  rcases isStop_iff.1 (by simpa using stop) with rfl | rfl
  · exact h.entry_open hc
  · exact h.rule_open hc

theorem Value.Fits.of_stopless {v : Text} (h : ∀ c ∈ v, isStop c = false) : Fits v :=
  ⟨fun hc => absurd (h _ hc) (by decide), fun hc => absurd (h _ hc) (by decide)⟩

namespace Block

/-- The places of entries where `k` characters that end values are before them. -/
def entryPlaces (k : Nat) : List Entry → List Nat
  | [] => []
  | e :: rest =>
    let place := k + Text.stops e.lead
    place :: entryPlaces (place + e.closed.toNat) rest

def placesFrom (k : Nat) (b : Block) : List Nat := entryPlaces k b.entries

/-- How many characters in the body end values. -/
def stops (b : Block) : Nat :=
  (b.entries.map fun e => Text.stops e.lead + e.closed.toNat).sum + Text.stops b.tail

theorem placesFrom_after (front : Text) (b : Block) (k : Nat) :
    (b.after front).placesFrom k = b.placesFrom (k + Text.stops front) := by
  obtain ⟨entries, tail⟩ := b
  cases entries with
  | nil => rfl
  | cons e rest => simp [after, placesFrom, entryPlaces, stops_append, Nat.add_assoc]

theorem placesFrom_cons (e : Entry) (b : Block) (k : Nat) : (b.cons e).placesFrom k =
    (k + Text.stops e.lead) :: b.placesFrom (k + Text.stops e.lead + e.closed.toNat) := rfl

theorem stops_cons (e : Entry) (b : Block) :
    (b.cons e).stops = Text.stops e.lead + e.closed.toNat + b.stops := by
  simp [cons, stops, Nat.add_assoc]

theorem stops_after (front : Text) (b : Block) :
    (b.after front).stops = Text.stops front + b.stops := by
  obtain ⟨entries, tail⟩ := b
  cases entries with
  | nil => simp [after, stops, stops_append]
  | cons e rest => simp [after, stops, stops_append, Nat.add_assoc]

theorem placesFrom_withValues (f : Text → Text → Text) (b : Block) (k : Nat) :
    (b.withValues f).placesFrom k = b.placesFrom k := by
  obtain ⟨entries, tail⟩ := b
  induction entries generalizing k with
  | nil => rfl
  | cons e rest ih => exact congrArg (_ :: ·) (ih (k + Text.stops e.lead + e.closed.toNat))

theorem stops_withValues (f : Text → Text → Text) (b : Block) :
    (b.withValues f).stops = b.stops := by
  rw [stops, withValues, List.map_map]
  rfl

end Block

namespace Sheet

def placesFrom (k : Nat) : List (Text × Rule) → List Nat
  | [] => []
  | (gap, r) :: rest =>
    let start := k + stops (gap ++ r.selector)
    let body := Block.read r.body
    body.placesFrom start ++ placesFrom (start + body.stops + 1) rest

theorem placesFrom_after (front : Text) (s : Sheet) (k : Nat) :
    placesFrom k (s.after front).rules = placesFrom (k + stops front) s.rules := by
  obtain ⟨rules, tail⟩ := s
  cases rules with
  | nil => rfl
  | cons entry rest => simp [after, placesFrom, stops_append, Nat.add_assoc]

theorem placesFrom_cons (gap : Text) (r : Rule) (s : Sheet) (k : Nat) :
    placesFrom k (s.cons gap r).rules =
      (Block.read r.body).placesFrom (k + stops (gap ++ r.selector)) ++
        placesFrom (k + stops (gap ++ r.selector) + (Block.read r.body).stops + 1) s.rules := rfl

theorem placesFrom_mapBodies {f : Text → Text → Text → Text} {s : Sheet}
    (h : ∀ entry ∈ s.rules, ∀ e ∈ (Block.read entry.2.body).entries,
      ';' ∉ f (trim entry.2.selector) e.property e.value) (k : Nat) :
    placesFrom k (s.mapBodies fun selector body => (Block.read body).textWith (f selector)).rules =
      placesFrom k s.rules := by
  obtain ⟨rules, tail⟩ := s
  induction rules generalizing k with
  | nil => rfl
  | cons entry rest ih =>
      obtain ⟨gap, r⟩ := entry
      have again := Block.read_textWith (f (trim r.selector)) r.body (h (gap, r) (by simp))
      have others (k : Nat) := ih k fun entry he => h entry (List.mem_cons_of_mem _ he)
      have body := placesFrom_cons gap r ⟨rest, tail⟩ k
      have mapped := placesFrom_cons gap
        ⟨r.selector, (Block.read r.body).textWith (f (trim r.selector))⟩
        (mapBodies (fun selector body => (Block.read body).textWith (f selector)) ⟨rest, tail⟩) k
      simp only [again, Block.placesFrom_withValues, Block.stops_withValues, others] at mapped
      exact mapped.trans body.symm

end Sheet

namespace Declaration

/-- The place of each declaration: how many characters before its value end values. -/
def places (t : Text) : List Nat := Sheet.placesFrom 0 (Sheet.read t).rules

/-- The declarations with their places. -/
def placed (t : Text) : List (Nat × Declaration) := (places t).zip (parse t)

theorem placed_eq_map_raw (t : Text) : placed t = ((places t).zip (raw t)).map fun e =>
    (e.1, { e.2 with value := trim e.2.value }) := by
  rw [placed, parse_eq_map_raw, List.zip_map_right]
  rfl

/-- A change of values changes no place. -/
theorem places_mapValues (f : Text → Text → Text → Text) (t : Text)
    (hf : ∀ d ∈ raw t, Value.Fits (f d.selector d.property d.value)) :
    places (Sheet.mapValues f t) = places t := by
  rw [places, Sheet.read_mapValues f t fun d hd => (hf d hd).rule_open]
  apply Sheet.placesFrom_mapBodies
  intro entry h e he
  exact (hf _ (mem_raw_of_entry h he)).entry_open

end Declaration

namespace Layout

/-- The declarations of a layout with their places, where `k` characters that end values are before
it. -/
def placed (k : Nat) : Layout → List (Nat × Declaration)
  | tail _ => []
  | slot front d rest => (k + Text.stops front, d) :: rest.placed (k + Text.stops front)

/-- How many characters outside of values end values. -/
def stops : Layout → Nat
  | tail t => Text.stops t
  | slot front _ rest => Text.stops front + rest.stops

/-- A colon is in front of each value. -/
def Named : Layout → Prop
  | tail _ => True
  | slot front _ rest => (∃ before, front = before ++ [':']) ∧ rest.Named

variable (front : Text) (l m : Layout) (k : Nat)

theorem placed_after : (l.after front).placed k = l.placed (k + Text.stops front) := by
  cases l with
  | tail t => rfl
  | slot t d rest => simp [after, placed, stops_append, Nat.add_assoc]

theorem stops_after : (l.after front).stops = Text.stops front + l.stops := by
  cases l with
  | tail t => simp [after, stops, stops_append]
  | slot t d rest => simp [after, stops, stops_append, Nat.add_assoc]

theorem placed_append : (l.append m).placed k = l.placed k ++ m.placed (k + l.stops) := by
  induction l generalizing k with
  | tail t => exact placed_after t m k
  | slot t d rest ih => simp [append, placed, stops, ih, Nat.add_assoc]

theorem named_after (h : l.Named) : (l.after front).Named := by
  cases l with
  | tail t => trivial
  | slot t d rest =>
      obtain ⟨⟨before, rfl⟩, others⟩ := h
      exact ⟨⟨front ++ before, by rw [List.append_assoc]⟩, others⟩

variable {l m}

theorem Named.append (h : l.Named) (h' : m.Named) : (l.append m).Named := by
  induction l with
  | tail t => exact named_after t m h'
  | slot t d rest ih => exact ⟨h.1, ih h.2⟩

variable (l)

theorem places_mapValues (f : Text → Text) :
    ((l.mapValues f).placed k).map Prod.fst = (l.placed k).map Prod.fst := by
  induction l generalizing k with
  | tail t => rfl
  | slot t d rest ih => exact congrArg (_ :: ·) (ih _)

theorem raw_eq_map_placed : l.raw = (l.placed k).map fun e =>
    { e.2 with value := Block.valueOf e.2.value } := by
  induction l generalizing k with
  | tail t => rfl
  | slot t d rest ih => exact congrArg (_ :: ·) (ih _)

end Layout

namespace Block

theorem stops_front {lead name blanks : Text} (hn : IsName name) (hb : ∀ c ∈ blanks, isBlank c) :
    Text.stops (lead ++ name ++ blanks ++ [':']) = Text.stops lead := by
  have noName : Text.stops name = 0 := stops_eq_zero fun c hc => by
    by_contra stop
    rcases isStop_iff.1 (by simpa using stop) with rfl | rfl
    · exact absurd (hn.chars _ hc) (by decide)
    · exact absurd (hn.chars _ hc) (by decide)
  have noBlank : Text.stops blanks = 0 := stops_eq_zero fun c hc => by
    by_contra stop
    rcases isStop_iff.1 (by simpa using stop) with rfl | rfl
    · exact absurd (hb _ hc) (by decide)
    · exact absurd (hb _ hc) (by decide)
  rw [stops_append, stops_append, stops_append, noName, noBlank]
  rfl

namespace Lays

variable {selector t : Text} {l : Layout}

theorem named (h : Lays selector t l) : l.Named := by
  induction h with
  | nameless h => trivial
  | entry hl hn hb hne hr h ih => exact ⟨⟨_, rfl⟩, Layout.named_after _ _ ih⟩
  | last hl hn hb hne hr => exact ⟨⟨_, rfl⟩, trivial⟩
  | skip hl hn hstop hv h ih => exact Layout.named_after _ _ ih

theorem places_eq (h : Lays selector t l) :
    (∀ k, (read t).placesFrom k = (l.placed k).map Prod.fst) ∧ (read t).stops = l.stops := by
  induction h with
  | nameless h =>
      rw [read_nameless h]
      exact ⟨fun k => rfl, Nat.zero_add _⟩
  | @entry lead name blanks raw following l hl hn hb hne hr h ih =>
      have front := @stops_front lead name blanks hn hb
      rw [read_name hl hn (nextIs_colon hb _), readValue?_eq_some_iff.2 (.closed hb hne hr)]
      refine ⟨fun k => ?_, ?_⟩
      · rw [placesFrom_cons, Layout.placed, front, Layout.placed_after, List.map_cons, ih.1]
        rfl
      · rw [stops_cons, Layout.stops, front, Layout.stops_after, ih.2, Nat.add_assoc]
        rfl
  | @last lead name blanks raw hl hn hb hne hr =>
      have none := @read_nameless [] (by simp)
      have front := @stops_front lead name blanks hn hb
      rw [read_name hl hn (nextIs_colon hb _), readValue?_eq_some_iff.2 (.last hb hne hr)]
      refine ⟨fun k => ?_, ?_⟩
      · rw [placesFrom_cons, Layout.placed, front, none]
        rfl
      · rw [stops_cons, Layout.stops, front, none]
        rfl
  | @skip lead name rest l hl hn hstop hv h ih =>
      rw [read_name hl hn hstop, hv]
      refine ⟨fun k => ?_, ?_⟩
      · rw [placesFrom_after, Layout.placed_after, ih.1]
      · rw [stops_after, Layout.stops_after, ih.2]

end Lays

end Block

namespace Sheet.Lays

variable {t : Text} {l : Layout}

theorem named (h : Lays t l) : l.Named := by
  induction h with
  | ruleless h => trivial
  | stray hb hr h ih => exact Layout.named_after _ _ ih
  | rule hb hr hbody hi h ih =>
      exact Layout.named_after _ _ (hi.named.append (Layout.named_after _ _ ih))

theorem placesFrom_eq (h : Lays t l) (k : Nat) :
    placesFrom k (read t).rules = (l.placed k).map Prod.fst := by
  induction h generalizing k with
  | ruleless h =>
      rw [read_ruleless h]
      rfl
  | stray hb hr h ih =>
      rw [read_stray hb hr, placesFrom_after, Layout.placed_after, ih]
  | rule hb hr hbody hi h ih =>
      obtain ⟨places, stops⟩ := hi.places_eq
      have brace (run : Text) : Text.stops (run ++ ['{']) = Text.stops run := by
        rw [stops_append]
        rfl
      rw [read_rule hb hr hbody, placesFrom_cons, Layout.placed_after, Layout.placed_append,
        Layout.placed_after, List.map_append, ← ih, places, stops, brace]
      rfl

theorem places_eq (h : Lays t l) : Declaration.places t = (l.placed 0).map Prod.fst :=
  h.placesFrom_eq 0

/-- The places of the declarations are those of a layout. -/
theorem placed_eq (h : Lays t l) : Declaration.placed t = (l.placed 0).map fun e =>
    (e.1, { e.2 with value := trim e.2.value }) := by
  have values : Declaration.parse t =
      (l.placed 0).map fun e => { e.2 with value := trim e.2.value } := by
    rw [Declaration.parse_eq_map_raw, h.raw_eq, l.raw_eq_map_placed 0, List.map_map]
    refine List.map_congr_left fun e _ => ?_
    simp [Block.trim_valueOf]
  rw [Declaration.placed, h.places_eq, values, List.zip_map']

/-- With other values that can stand in a layout each declaration is at its place. -/
theorem places_mapValues {f : Text → Text} (h : Lays t l) (hf : l.Admits f) :
    Declaration.places (l.mapValues f).text = Declaration.places t := by
  rw [(h.mapValues hf).places_eq, h.places_eq, Layout.places_mapValues]

end Sheet.Lays

theorem Declaration.length_places (t : Text) : (places t).length = (parse t).length := by
  obtain ⟨l, hl⟩ := Sheet.exists_lays t
  rw [hl.places_eq, parse_eq_map_raw, hl.raw_eq, l.raw_eq_map_placed 0]
  simp

/-- Where places are the same, the declarations with one place are those with one number. -/
theorem Declaration.forall₂_of_placed {R : Declaration → Declaration → Prop} {t u : Text}
    (same : places u = places t)
    (h : ∀ e ∈ placed t, ∀ e' ∈ placed u, e'.1 = e.1 → R e.2 e'.2) :
    List.Forall₂ R (parse t) (parse u) := by
  have length : (parse t).length = (parse u).length := by
    rw [← length_places, ← length_places, same]
  rw [List.forall₂_iff_get]
  refine ⟨length, fun i ht hu => ?_⟩
  have placed_get {t : Text} (hp : i < (places t).length) (hi : i < (parse t).length) :
      ((places t)[i], (parse t)[i]) ∈ placed t := by
    rw [placed, List.mem_iff_getElem]
    exact ⟨i, by simp [hp, hi], by simp⟩
  have pt : i < (places t).length := by rwa [length_places]
  have pu : i < (places u).length := by rwa [length_places]
  exact h _ (placed_get pt ht) _ (placed_get pu hu) (by simp [same])

namespace Layout

variable {l : Layout}

/-- What has no character that ends a value is the first segment where it ends. -/
theorem getElem?_segments_zero {part rest : Text} (h : ∀ c ∈ part, isStop c = false)
    (stops : Stops rest) : (segments (part ++ rest))[0]? = some part := by
  cases rest with
  | nil =>
      rw [List.append_nil, segments_of_stopless h]
      rfl
  | cons c rest =>
      rw [segments_append_cons (isStop_iff.2 (stops c rfl)), segments_of_stopless h]
      rfl

/-- A value ends the segment of its place. -/
theorem exists_segment (named : l.Named) (ended : l.Ended) (admits : l.Admits id) (k : Nat) :
    ∀ e ∈ l.placed k, ∃ j before, e.1 = k + j ∧
      (segments l.text)[j]? = some (before ++ ':' :: e.2.value) := by
  induction l generalizing k with
  | tail t => exact fun _ h => nomatch h
  | slot front d rest ih =>
      intro e he
      obtain ⟨⟨start, rfl⟩, named⟩ := named
      obtain ⟨⟨-, fits⟩, admits⟩ := admits
      have colon : isStop ':' = false := rfl
      have stopless : ∀ c ∈ ':' :: d.value, isStop c = false :=
        List.forall_mem_cons.2 ⟨colon, fits.stopless⟩
      have count : Text.stops (start ++ [':']) = Text.stops start := by
        rw [stops_append, stops_eq_zero (List.forall_mem_singleton.2 colon), Nat.add_zero]
      have text : (slot (start ++ [':']) d rest).text =
          start ++ ((':' :: d.value) ++ rest.text) := by
        simp [Layout.text]
      rw [text]
      rcases List.mem_cons.1 he with rfl | he
      · obtain ⟨before, found⟩ :=
          getElem?_segments_append start (getElem?_segments_zero stopless ended.1)
        exact ⟨Text.stops start, before, by rw [count], found⟩
      · obtain ⟨j, before, place, found⟩ := ih named ended.2 admits _ _ he
        obtain ⟨before', found⟩ := getElem?_segments_append (start ++ ':' :: d.value) found
        rw [stops_append, stops_eq_zero stopless, Nat.add_zero, List.append_assoc] at found
        refine ⟨Text.stops start + j, before' ++ before, ?_, ?_⟩
        · rw [place, count, Nat.add_assoc]
        · rwa [List.append_assoc]

end Layout

/-- The value of a declaration ends the segment of its place, after a colon. -/
theorem Declaration.exists_segment {t : Text} {e : Nat × Declaration} (h : e ∈ placed t) :
    ∃ before value,
      (segments t)[e.1]? = some (before ++ ':' :: value) ∧ e.2.value = trim value := by
  obtain ⟨l, hl⟩ := Sheet.exists_lays t
  rw [hl.placed_eq] at h
  obtain ⟨e, he, rfl⟩ := List.mem_map.1 h
  obtain ⟨j, before, place, found⟩ := Layout.exists_segment hl.named hl.ended hl.admits 0 e he
  rw [hl.text_eq] at found
  refine ⟨before, e.2.value, ?_, rfl⟩
  rw [place, Nat.zero_add]
  exact found

end DesignTokens
