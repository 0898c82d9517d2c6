import DesignTokens.Proofs.MappedValues
import Mathlib

/-!
A stylesheet cut at its values. A layout is the text up to each value, the declaration with the value
as it is written, and the text after the last one; `Sheet.Lays` says which layout is that of a sheet.
With other values a layout is again the layout of its text (`Sheet.Lays.mapValues`), so the sheet is
read as the same declarations with these values, and nothing else of it changes (`SameFrame`).
-/
namespace DesignTokens

open Text

inductive Layout where
  | tail (t : Text)
  | slot (front : Text) (d : Declaration) (rest : Layout)

namespace Layout

def text : Layout → Text
  | tail t => t
  | slot front d rest => front ++ (d.value ++ rest.text)

/-- The declarations with their values as they are read. -/
def raw : Layout → List Declaration
  | tail _ => []
  | slot _ d rest => { d with value := Block.valueOf d.value } :: rest.raw

def after (front : Text) : Layout → Layout
  | tail t => tail (front ++ t)
  | slot t d rest => slot (front ++ t) d rest

def append : Layout → Layout → Layout
  | tail t, l => l.after t
  | slot front d rest, l => slot front d (rest.append l)

def mapValues (f : Text → Text) : Layout → Layout
  | tail t => tail t
  | slot front d rest => slot front { d with value := f d.value } (rest.mapValues f)

/-- The values that a function gives can stand in a layout: they are not empty, and end neither their
entry nor their rule. -/
def Admits (f : Text → Text) : Layout → Prop
  | tail _ => True
  | slot _ d rest => (f d.value ≠ [] ∧ Value.Fits (f d.value)) ∧ rest.Admits f

/-- Text that is empty or ends a value. -/
def Stops (t : Text) : Prop := ∀ c ∈ t.head?, c = ';' ∨ c = '}'

/-- What follows each value ends it. -/
def Ended : Layout → Prop
  | tail _ => True
  | slot _ _ rest => Stops rest.text ∧ rest.Ended

variable (f : Text → Text) (front : Text) (l m : Layout)

theorem text_after : (l.after front).text = front ++ l.text := by
  cases l with
  | tail t => rfl
  | slot t d rest => simp [after, text]

theorem text_append : (l.append m).text = l.text ++ m.text := by
  induction l with
  | tail t => exact text_after t m
  | slot t d rest ih => simp [append, text, ih]

theorem raw_after : (l.after front).raw = l.raw := by
  cases l <;> rfl

theorem raw_append : (l.append m).raw = l.raw ++ m.raw := by
  induction l with
  | tail t => exact raw_after t m
  | slot t d rest ih => simp [append, raw, ih]

theorem mapValues_after : (l.after front).mapValues f = (l.mapValues f).after front := by
  cases l <;> rfl

theorem mapValues_append : (l.append m).mapValues f = (l.mapValues f).append (m.mapValues f) := by
  induction l with
  | tail t => exact mapValues_after f t m
  | slot t d rest ih => simp [append, mapValues, ih]

theorem mapValues_id : l.mapValues (fun v => v) = l := by
  induction l with
  | tail t => rfl
  | slot t d rest ih => rw [mapValues, ih]

theorem mapValues_mapValues (g : Text → Text) :
    (l.mapValues f).mapValues g = l.mapValues fun v => g (f v) := by
  induction l with
  | tail t => rfl
  | slot t d rest ih => simp [mapValues, ih]

theorem admits_after : (l.after front).Admits f ↔ l.Admits f := by
  cases l <;> rfl

theorem admits_append : (l.append m).Admits f ↔ l.Admits f ∧ m.Admits f := by
  induction l with
  | tail t => simpa [append, Admits] using admits_after f t m
  | slot t d rest ih => simp [append, Admits, ih, and_assoc]

theorem admits_mapValues (g : Text → Text) :
    (l.mapValues f).Admits g ↔ l.Admits fun v => g (f v) := by
  induction l with
  | tail t => rfl
  | slot t d rest ih => simp [mapValues, Admits, ih]

theorem ended_after : (l.after front).Ended ↔ l.Ended := by
  cases l <;> rfl

variable {f front l m}

theorem Admits.imp {g : Text → Text} (h : l.Admits f)
    (hg : ∀ v, f v ≠ [] → Value.Fits (f v) → g v ≠ [] ∧ Value.Fits (g v)) : l.Admits g := by
  induction l with
  | tail t => trivial
  | slot t d rest ih => exact ⟨hg _ h.1.1 h.1.2, ih h.2⟩

theorem Stops.append {t u : Text} (ht : Stops t) (hu : Stops u) : Stops (t ++ u) := by
  cases t with
  | nil => exact hu
  | cons c t => exact ht

theorem Ended.append (hl : l.Ended) (hm : m.Ended) (stops : Stops m.text) :
    (l.append m).Ended := by
  induction l with
  | tail t => exact (ended_after t m).2 hm
  | slot t d rest ih =>
      refine ⟨?_, ih hl.2⟩
      rw [text_append]
      exact hl.1.append stops

end Layout

namespace Block

/-- The layouts of a body, whose declarations have some selector. -/
inductive Lays (selector : Text) : Text → Layout → Prop
  | nameless {t : Text} (h : ∀ c ∈ t, isNameChar c = false) : Lays selector t (.tail t)
  | entry {lead name blanks raw following : Text} {l : Layout} (hl : ∀ c ∈ lead, isNameChar c = false)
      (hn : IsName name) (hb : ∀ c ∈ blanks, isBlank c) (hne : raw ≠ []) (hr : ';' ∉ raw)
      (h : Lays selector following l) :
      Lays selector (lead ++ name ++ (blanks ++ ':' :: (raw ++ ';' :: following)))
        (.slot (lead ++ name ++ blanks ++ [':']) ⟨selector, lower name, raw⟩ (l.after [';']))
  | last {lead name blanks raw : Text} (hl : ∀ c ∈ lead, isNameChar c = false) (hn : IsName name)
      (hb : ∀ c ∈ blanks, isBlank c) (hne : raw ≠ []) (hr : ';' ∉ raw) :
      Lays selector (lead ++ name ++ (blanks ++ ':' :: raw))
        (.slot (lead ++ name ++ blanks ++ [':']) ⟨selector, lower name, raw⟩ (.tail []))
  | skip {lead name rest : Text} {l : Layout} (hl : ∀ c ∈ lead, isNameChar c = false)
      (hn : IsName name) (hstop : nextIs isNameChar rest = false) (hv : readValue? rest = none)
      (h : Lays selector rest l) : Lays selector (lead ++ name ++ rest) (l.after (lead ++ name))

theorem exists_lays (selector t : Text) : ∃ l, Lays selector t l := by
  refine read_steps (P := fun t _ => ∃ l, Lays selector t l) ?_ ?_ ?_ t
  · exact fun t h => ⟨_, .nameless h⟩
  · rintro lead name rest value closed following hl hn _ hv ⟨l, h⟩
    cases hv with
    | closed hb hne hr => exact ⟨_, .entry hl hn hb hne hr h⟩
    | last hb hne hr => exact ⟨_, .last hl hn hb hne hr⟩
  · rintro lead name rest hl hn hstop hv ⟨l, h⟩
    exact ⟨_, .skip hl hn hstop hv h⟩

namespace Lays

variable {selector t : Text} {l : Layout}

theorem text_eq (h : Lays selector t l) : l.text = t := by
  induction h with
  | nameless h => rfl
  | entry hl hn hb hne hr h ih => simp [Layout.text, Layout.text_after, ih]
  | last hl hn hb hne hr => simp [Layout.text]
  | skip hl hn hstop hv h ih => rw [Layout.text_after, ih]

theorem ended (h : Lays selector t l) : l.Ended := by
  induction h with
  | nameless h => trivial
  | entry hl hn hb hne hr h ih =>
      refine ⟨?_, (Layout.ended_after _ _).2 ih⟩
      rw [Layout.text_after]
      simp [Layout.Stops]
  | last hl hn hb hne hr => exact ⟨by simp [Layout.Stops, Layout.text], trivial⟩
  | skip hl hn hstop hv h ih => exact (Layout.ended_after _ _).2 ih

theorem admits (h : Lays selector t l) (ht : '}' ∉ t) : l.Admits id := by
  induction h with
  | nameless h => trivial
  | entry hl hn hb hne hr h ih =>
      simp only [List.mem_append, List.mem_cons, not_or] at ht
      exact ⟨⟨hne, hr, ht.2.2.2.1⟩, (Layout.admits_after _ _ _).2 (ih ht.2.2.2.2.2)⟩
  | last hl hn hb hne hr =>
      simp only [List.mem_append, List.mem_cons, not_or] at ht
      exact ⟨⟨hne, hr, ht.2.2.2⟩, trivial⟩
  | skip hl hn hstop hv h ih =>
      rw [List.mem_append, not_or] at ht
      exact (Layout.admits_after _ _ _).2 (ih ht.2)

theorem raw_eq (h : Lays selector t l) :
    (read t).entries.map (fun e => ⟨selector, e.property, e.value⟩) = l.raw := by
  induction h with
  | nameless h => rw [read_nameless h]; rfl
  | entry hl hn hb hne hr h ih =>
      rw [read_name hl hn (nextIs_colon hb _), readValue?_eq_some_iff.2 (.closed hb hne hr)]
      simp only [cons, List.map_cons, ih, Layout.raw, Layout.raw_after]
      rfl
  | last hl hn hb hne hr =>
      have none := @read_nameless [] (by simp)
      rw [read_name hl hn (nextIs_colon hb _), readValue?_eq_some_iff.2 (.last hb hne hr)]
      simp only [cons, none]
      rfl
  | @skip lead name rest l hl hn hstop hv h ih =>
      rw [read_name hl hn hstop, hv, Layout.raw_after, ← ih]
      rcases read rest with ⟨_ | ⟨e, entries⟩, tail⟩ <;> rfl

/-- The text up to a value holds the name. -/
theorem front_eq (h : Lays selector t l) (f : Text → Text) : (l.mapValues f).text = t ∨
    ∃ front u v, t = front ++ u ∧ (l.mapValues f).text = front ++ v ∧ ∃ c ∈ front, isNameChar c := by
  have named {lead name : Text} (hn : IsName name) : ∃ c ∈ lead ++ name, isNameChar c := by
    obtain ⟨c, hc⟩ := List.exists_mem_of_ne_nil name hn.ne_nil
    exact ⟨c, by simp [hc], hn.chars c hc⟩
  cases h with
  | nameless h => exact .inl rfl
  | @entry lead name blanks raw following l hl hn hb hne hr h =>
      refine .inr ⟨lead ++ name, _, blanks ++ ':' :: (f raw ++ ((l.after [';']).mapValues f).text),
        rfl, ?_, named hn⟩
      simp [Layout.mapValues, Layout.text]
  | @last lead name blanks raw hl hn hb hne hr =>
      refine .inr ⟨lead ++ name, _, blanks ++ ':' :: f raw, rfl, ?_, named hn⟩
      simp [Layout.mapValues, Layout.text]
  | @skip lead name rest l hl hn hstop hv h =>
      refine .inr ⟨lead ++ name, rest, (l.mapValues f).text, rfl, ?_, named hn⟩
      rw [Layout.mapValues_after, Layout.text_after]

/-- With values that hold no `;`, a layout is that of its text. -/
theorem mapValues {f : Text → Text} (h : Lays selector t l) (hf : l.Admits f) :
    Lays selector (l.mapValues f).text (l.mapValues f) := by
  induction h with
  | nameless h => exact .nameless h
  | entry hl hn hb hne hr h ih =>
      rw [Layout.Admits, Layout.admits_after] at hf
      have again : Lays selector _ _ := .entry hl hn hb hf.1.1 hf.1.2.entry_open (ih hf.2)
      simpa [Layout.mapValues, Layout.mapValues_after, Layout.text, Layout.text_after] using again
  | last hl hn hb hne hr =>
      have again : Lays selector _ _ := .last hl hn hb hf.1.1 hf.1.2.entry_open
      simpa [Layout.mapValues, Layout.text] using again
  | @skip lead name rest l hl hn hstop hv h ih =>
      rw [Layout.admits_after] at hf
      rw [Layout.mapValues_after, Layout.text_after]
      have again : nextIs isNameChar (l.mapValues f).text = false ∧
          readValue? (l.mapValues f).text = none := by
        rcases h.front_eq f with same | ⟨front, u, v, hu, hw, hfront⟩
        · rw [same]
          exact ⟨hstop, hv⟩
        · rw [hu] at hstop hv
          rw [hw]
          refine ⟨?_, readValue?_append_eq_none hfront hv⟩
          obtain ⟨c, hc, -⟩ := hfront
          obtain ⟨d, tail, rfl⟩ := List.exists_cons_of_ne_nil (List.ne_nil_of_mem hc)
          exact hstop
      exact .skip hl hn again.1 again.2 (ih hf)

theorem notMem_text {f : Text → Text} (h : Lays selector t l) (ht : '}' ∉ t) (hf : l.Admits f) :
    '}' ∉ (l.mapValues f).text := by
  rw [← h.text_eq] at ht
  clear h
  induction l with
  | tail t => exact ht
  | slot front d rest ih =>
      simp only [Layout.text, Layout.mapValues, List.mem_append, not_or] at ht ⊢
      exact ⟨ht.1, hf.1.2.rule_open, ih ht.2.2 hf.2⟩

end Lays

end Block

namespace Sheet

/-- The text outside of the rules and the selectors of a sheet. -/
def frame (s : Sheet) : List (Text × Text) × Text :=
  (s.rules.map fun entry => (entry.1, entry.2.selector), s.tail)

theorem frame_after {s s' : Sheet} (h : s.frame = s'.frame) (front : Text) :
    (s.after front).frame = (s'.after front).frame := by
  rcases s with ⟨_ | ⟨entry, rules⟩, tail⟩ <;> rcases s' with ⟨_ | ⟨entry', rules'⟩, tail'⟩ <;>
    simp_all [frame, after]

theorem frame_cons {s s' : Sheet} (h : s.frame = s'.frame) (gap selector body body' : Text) :
    (s.cons gap ⟨selector, body⟩).frame = (s'.cons gap ⟨selector, body'⟩).frame := by
  simp_all [frame, cons]

inductive Lays : Text → Layout → Prop
  | ruleless {t : Text} (h : Ruleless t) : Lays t (.tail t)
  | stray {braces run rest : Text} {l : Layout} (hb : ∀ c ∈ braces, isBrace c) (hr : IsPrelude run)
      (h : Lays rest l) : Lays (braces ++ run ++ '}' :: rest) (l.after (braces ++ run ++ ['}']))
  | rule {braces run body rest : Text} {inner l : Layout} (hb : ∀ c ∈ braces, isBrace c)
      (hr : IsPrelude run) (hbody : '}' ∉ body) (hi : Block.Lays (trim run) body inner)
      (h : Lays rest l) : Lays (braces ++ run ++ '{' :: (body ++ '}' :: rest))
        ((inner.append (l.after ['}'])).after (braces ++ run ++ ['{']))

theorem exists_lays (t : Text) : ∃ l, Lays t l := by
  refine read_steps (P := fun t _ => ∃ l, Lays t l) ?_ ?_ ?_ t
  · exact fun t h => ⟨_, .ruleless h⟩
  · rintro braces run rest hb hr ⟨l, h⟩
    exact ⟨_, .stray hb hr h⟩
  · rintro braces run body rest hb hr hbody ⟨l, h⟩
    obtain ⟨inner, hi⟩ := Block.exists_lays (trim run) body
    exact ⟨_, .rule hb hr hbody hi h⟩

namespace Lays

variable {t : Text} {l : Layout}

theorem text_eq (h : Lays t l) : l.text = t := by
  induction h with
  | ruleless h => rfl
  | stray hb hr h ih => simp [Layout.text_after, ih]
  | rule hb hr hbody hi h ih => simp [Layout.text_after, Layout.text_append, hi.text_eq, ih]

theorem ended (h : Lays t l) : l.Ended := by
  induction h with
  | ruleless h => trivial
  | stray hb hr h ih => exact (Layout.ended_after _ _).2 ih
  | rule hb hr hbody hi h ih =>
      refine (Layout.ended_after _ _).2 (hi.ended.append ((Layout.ended_after _ _).2 ih) ?_)
      rw [Layout.text_after]
      simp [Layout.Stops]

/-- The values of a sheet can stand where they do. -/
theorem admits (h : Lays t l) : l.Admits id := by
  induction h with
  | ruleless h => trivial
  | stray hb hr h ih => exact (Layout.admits_after _ _ _).2 ih
  | rule hb hr hbody hi h ih =>
      rw [Layout.admits_after, Layout.admits_append, Layout.admits_after]
      exact ⟨hi.admits hbody, ih⟩

theorem raw_eq (h : Lays t l) : Declaration.raw t = l.raw := by
  induction h with
  | ruleless h => rw [Declaration.raw, read_ruleless h]; rfl
  | @stray braces run rest l hb hr h ih =>
      rw [Declaration.raw, read_stray hb hr, Layout.raw_after, ← ih, Declaration.raw]
      rcases read rest with ⟨_ | ⟨entry, rules⟩, tail⟩ <;> rfl
  | rule hb hr hbody hi h ih =>
      rw [Declaration.raw, read_rule hb hr hbody, Layout.raw_after, Layout.raw_append,
        Layout.raw_after, ← ih, ← hi.raw_eq]
      rfl

section Values

variable {f : Text → Text} (hf : l.Admits f)
include hf

theorem mapValues (h : Lays t l) : Lays (l.mapValues f).text (l.mapValues f) := by
  induction h with
  | ruleless h => exact .ruleless h
  | stray hb hr h ih =>
      rw [Layout.admits_after] at hf
      have again := Lays.stray hb hr (ih hf)
      simpa [Layout.mapValues_after, Layout.text_after] using again
  | rule hb hr hbody hi h ih =>
      rw [Layout.admits_after, Layout.admits_append, Layout.admits_after] at hf
      have again := Lays.rule hb hr (hi.notMem_text hbody hf.1) (hi.mapValues hf.1) (ih hf.2)
      simpa [Layout.mapValues_after, Layout.mapValues_append, Layout.text_after,
        Layout.text_append] using again

theorem frame_eq (h : Lays t l) : (read (l.mapValues f).text).frame = (read t).frame := by
  induction h with
  | ruleless h => rfl
  | stray hb hr h ih =>
      rw [Layout.admits_after] at hf
      have again := read_stray hb hr
      rw [Layout.mapValues_after, Layout.text_after, List.append_assoc, List.singleton_append, again,
        again]
      exact frame_after (ih hf) _
  | @rule braces run body rest inner l hb hr hbody hi h ih =>
      rw [Layout.admits_after, Layout.admits_append, Layout.admits_after] at hf
      have again := read_rule hb hr (hi.notMem_text hbody hf.1) (l.mapValues f).text
      have text : (((inner.append (l.after ['}'])).after (braces ++ run ++ ['{'])).mapValues f).text =
          braces ++ run ++ '{' :: ((inner.mapValues f).text ++ '}' :: (l.mapValues f).text) := by
        simp [Layout.mapValues_after, Layout.mapValues_append, Layout.text_after, Layout.text_append]
      rw [text, again, read_rule hb hr hbody]
      exact frame_cons (ih hf.2) _ _ _ _

end Values

end Lays

end Sheet

/-- Two sheets with the same declared properties under the same selectors, and with the same text
outside of their rules. -/
structure SameFrame (t u : Text) : Prop where
  declared : (Declaration.parse t).map (fun d => (d.selector, d.property)) =
    (Declaration.parse u).map fun d => (d.selector, d.property)
  frame : (Sheet.read t).frame = (Sheet.read u).frame

namespace SameFrame

variable {t u v : Text}

theorem refl (t : Text) : SameFrame t t := ⟨rfl, rfl⟩

theorem trans (h : SameFrame t u) (h' : SameFrame u v) : SameFrame t v :=
  ⟨h.declared.trans h'.declared, h.frame.trans h'.frame⟩

theorem of_raw (h : (Declaration.raw t).map (fun d => (d.selector, d.property)) =
    (Declaration.raw u).map fun d => (d.selector, d.property))
    (hf : (Sheet.read t).frame = (Sheet.read u).frame) : SameFrame t u := by
  refine ⟨?_, hf⟩
  rw [Declaration.parse_eq_map_raw, Declaration.parse_eq_map_raw, List.map_map, List.map_map]
  exact h

/-- A sheet whose values are mapped to values that fit keeps its frame. -/
theorem mapValues (f : Text → Text → Text → Text)
    (hf : ∀ d ∈ Declaration.raw t, Value.Fits (f d.selector d.property d.value)) :
    SameFrame (Sheet.mapValues f t) t := by
  apply of_raw
  · rw [Declaration.raw_mapValues f t hf, List.map_map]
    rfl
  · rw [Sheet.read_mapValues f t fun d hd => (hf d hd).rule_open]
    simp [Sheet.frame, Sheet.mapBodies]

theorem ofLayout {l : Layout} {f : Text → Text} (h : Sheet.Lays t l) (hf : l.Admits f) :
    SameFrame (l.mapValues f).text t := by
  have names (l : Layout) : (l.mapValues f).raw.map (fun d => (d.selector, d.property)) =
      l.raw.map fun d => (d.selector, d.property) := by
    induction l with
    | tail t => rfl
    | slot front d rest ih => simp [Layout.mapValues, Layout.raw, ih]
  apply of_raw
  · rw [(h.mapValues hf).raw_eq, h.raw_eq, names]
  · exact h.frame_eq hf

end SameFrame

end DesignTokens
