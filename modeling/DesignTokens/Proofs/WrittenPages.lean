import DesignTokens.Proofs.CharClasses
import DesignTokens.Proofs.LetterCases
import DesignTokens.Proofs.PageStyles
import DesignTokens.Proofs.TextCuts

/-!
Pages that are written from their elements. Attributes with any values are read again from the tag
that they stand in, and so is the content of a style sheet or a script in which no end tag starts.
So the markup of such a page can always be read. Main statements: `ofPage_written`,
`result_read_written`.
-/
namespace DesignTokens

open Text

/-! ### Values of attributes -/

namespace Entity

def escapedChar (c : Char) : Text :=
  if c = '&' then "&amp;".toList else if c = '"' then "&quot;".toList else [c]

/-- A text as the value of an attribute in double quotes. -/
def escaped (t : Text) : Text := t.flatMap escapedChar

theorem quote_notMem_escaped (t : Text) : '"' ∉ escaped t := by
  rw [escaped, List.mem_flatMap]
  rintro ⟨c, -, hc⟩
  rw [escapedChar] at hc
  split_ifs at hc with ampersand quote
  · exact absurd hc (by decide)
  · exact absurd hc (by decide)
  · exact quote (List.mem_singleton.1 hc).symm

theorem decodeFrom_append (done rest : Text) :
    decodeFrom done.length (done ++ rest) = decodeFrom 0 rest := by
  induction done with
  | nil => rfl
  | cons c done ih => exact ih

/-- The reference of a name with a semicolon is replaced, whatever follows. -/
theorem read?_name {name t : Text} (hn : ∀ c ∈ name, isNamePart c) (hne : name ≠ [])
    (short : name.length < 32) (known : closedName? name = some t) (rest : Text) :
    read? (name ++ ';' :: rest) = .ok (some (t, name.length + 1)) := by
  have start (after : Text) (same : name ++ ';' :: rest = '#' :: after) : False := by
    obtain ⟨c, tail, rfl⟩ := List.exists_cons_of_ne_nil hne
    obtain ⟨rfl, -⟩ := List.cons.inj same
    exact absurd (hn '#' List.mem_cons_self) (by decide)
  have cut : ((name ++ ';' :: rest).take 32).takeWhile isNamePart = name := by
    obtain ⟨k, hk⟩ : ∃ k, 32 = name.length + (k + 1) := ⟨31 - name.length, by omega⟩
    rw [hk, List.take_length_add_append, List.take_succ_cons]
    exact takeWhile_append_of_nextIs hn rfl
  rw [read?]
  · dsimp only
    rw [cut, List.drop_left]
    simp [semicolon, hne, ofName, known]
    rfl
  · exact start

theorem decodeFrom_name {name t : Text} (hn : ∀ c ∈ name, isNamePart c) (hne : name ≠ [])
    (short : name.length < 32) (known : closedName? name = some t) (rest : Text) :
    decodeFrom 0 ('&' :: (name ++ ';' :: rest)) = (decodeFrom 0 rest).map (t ++ ·) := by
  have after : decodeFrom (name.length + 1) (name ++ ';' :: rest) = decodeFrom 0 rest := by
    have done := decodeFrom_append (name ++ [';']) rest
    rwa [List.length_append, List.append_assoc] at done
  rw [decodeFrom, if_pos rfl, read?_name hn hne short known]
  change (decodeFrom (name.length + 1) (name ++ ';' :: rest) >>= fun rest => .ok (t ++ rest)) = _
  rw [after]
  cases decodeFrom 0 rest <;> rfl

theorem decode_escaped (t : Text) : decode (escaped t) = .ok t := by
  rw [decode]
  induction t with
  | nil => rfl
  | cons c t ih =>
      have next : escaped (c :: t) = escapedChar c ++ escaped t := List.flatMap_cons
      have ampersand : closedName? "amp".toList = some ['&'] := by decide +kernel
      have quote : closedName? "quot".toList = some ['"'] := by decide +kernel
      rw [next, escapedChar]
      split_ifs with isAmpersand isQuote
      · have part : ∀ c ∈ "amp".toList, isNamePart c := List.all_eq_true.1 (by decide)
        have read := decodeFrom_name part (by decide) (by decide) ampersand (escaped t)
        rw [ih] at read
        rw [isAmpersand]
        exact read
      · have part : ∀ c ∈ "quot".toList, isNamePart c := List.all_eq_true.1 (by decide)
        have read := decodeFrom_name part (by decide) (by decide) quote (escaped t)
        rw [ih] at read
        rw [isQuote]
        exact read
      · rw [List.singleton_append, decodeFrom, if_neg isAmpersand, ih]
        rfl

end Entity

/-! ### Tags -/

/-- A name of small letters. -/
def IsTagName (name : Text) : Prop := name ≠ [] ∧ ∀ c ∈ name, c.isLower

namespace IsTagName

theorem classes {c : Char} (h : c.isLower) : c.toNat < 128 ∧ c.toLower = c ∧ c.isAlpha ∧
    StartTag.isNameChar c ∧ StartTag.isAttributeNameChar c ∧ isBlank c = false ∧ c ≠ '/' := by
  have small : c.toNat < 128 := by
    simp only [Char.isLower, Bool.and_eq_true, decide_eq_true_eq, UInt32.le_iff_toNat_le] at h
    exact h.2.trans_lt (by decide)
  have entry := forall_of_lt_128 (p := fun c => !c.isLower || (c.toLower == c && c.isAlpha &&
    StartTag.isNameChar c && StartTag.isAttributeNameChar c && !isBlank c && c != '/'))
    (by decide +kernel) small
  simp only [h, Bool.not_true, Bool.false_or, Bool.and_eq_true, beq_iff_eq, bne_iff_ne,
    Bool.not_eq_true'] at entry
  obtain ⟨⟨⟨⟨⟨same, letter⟩, inTag⟩, inAttribute⟩, solid⟩, slash⟩ := entry
  exact ⟨small, same, letter, inTag, inAttribute, solid, slash⟩

variable {name : Text}

theorem map_toLower (h : IsTagName name) : name.map Char.toLower = name := by
  rw [List.map_congr_left (g := id) fun c hc => (classes (h.2 c hc)).2.1, List.map_id]

theorem lower_eq (h : IsTagName name) : lower name = name :=
  lower_of_ascii fun c hc => ⟨(classes (h.2 c hc)).1, (classes (h.2 c hc)).2.1⟩

end IsTagName

/-- An attribute as it stands in a tag, with a blank in front. -/
def writtenAttribute (a : Text × Text) : Text :=
  ' ' :: (a.1 ++ '=' :: '"' :: (Entity.escaped a.2 ++ ['"']))

namespace StartTag

variable {t rest : Text} {c : Char} {isOpen : Bool}

theorem readAttributes_of_close (h : skipGap t = '>' :: rest) :
    readAttributes isOpen t = ([], .closed false rest) := by
  rw [readAttributes]
  split
  · rename_i empty
    cases empty.symm.trans h
  · rename_i slash
    cases slash.symm.trans h
  · rename_i close
    obtain ⟨-, rfl⟩ := List.cons.inj (close.symm.trans h)
    rfl
  · rename_i other start
    obtain ⟨rfl, -⟩ := List.cons.inj (start.symm.trans h)
    exact absurd rfl other

theorem readAttributes_of_name (h : skipGap t = c :: rest) (slash : c ≠ '/') (close : c ≠ '>')
    (gap : (c :: rest).length < t.length) :
    readAttributes isOpen t =
      let name := c :: rest.takeWhile isAttributeNameChar
      let value := Value.read (name.getLast?.any Text.isQuote) (rest.dropWhile isAttributeNameChar)
      let (others, ending) := readAttributes value.isOpen value.rest
      ((Text.lower name, value.text) :: others, ending) := by
  rw [readAttributes]
  split
  · rename_i empty
    cases empty.symm.trans h
  · rename_i start
    exact absurd (List.cons.inj (start.symm.trans h)).1.symm slash
  · rename_i start
    exact absurd (List.cons.inj (start.symm.trans h)).1.symm close
  · rename_i start
    obtain ⟨rfl, rfl⟩ := List.cons.inj (start.symm.trans h)
    have opens : (isOpen || decide ((skipGap t).length < t.length)) = true := by
      rw [h, decide_eq_true gap, Bool.or_true]
    rw [if_pos opens]

theorem read_quoted {value : Text} (h : '"' ∉ value) (isOpen : Bool) (rest : Text) :
    Value.read isOpen ('=' :: '"' :: (value ++ '"' :: rest)) = ⟨value, rest, true⟩ := by
  have quoted : Value.quoted? ('"' :: (value ++ '"' :: rest)) = some ⟨value, rest, true⟩ := by
    rw [Value.quoted?, if_pos (by decide), cut_append_cons h]
  have equals : ('=' :: '"' :: (value ++ '"' :: rest)).dropWhile Text.isBlank =
      '=' :: '"' :: (value ++ '"' :: rest) := List.dropWhile_cons_of_neg (by decide)
  have start : ('"' :: (value ++ '"' :: rest)).dropWhile (· == '=') =
      '"' :: (value ++ '"' :: rest) := List.dropWhile_cons_of_neg (by decide)
  have margin : ('"' :: (value ++ '"' :: rest)).dropWhile Text.isBlank =
      '"' :: (value ++ '"' :: rest) := List.dropWhile_cons_of_neg (by decide)
  have found : Value.afterEquals? ('"' :: (value ++ '"' :: rest)) = some ⟨value, rest, true⟩ := by
    rw [Value.afterEquals?, start, margin, quoted]
  rw [Value.read, equals]
  exact congrArg (Option.getD · _) found

/-- Attributes are read from the tag as they are written, up to the references in their values. -/
theorem readAttributes_written {attributes : List (Text × Text)}
    (h : ∀ a ∈ attributes, IsTagName a.1) (isOpen : Bool) (rest : Text) :
    readAttributes isOpen (attributes.flatMap writtenAttribute ++ '>' :: rest) =
      (attributes.map fun a => (a.1, Entity.escaped a.2), .closed false rest) := by
  induction attributes generalizing isOpen with
  | nil => exact readAttributes_of_close rfl
  | cons a attributes ih =>
      obtain ⟨name, value⟩ := a
      obtain ⟨named, later⟩ := List.forall_mem_cons.1 h
      obtain ⟨c, tail, rfl⟩ := List.exists_cons_of_ne_nil named.1
      obtain ⟨-, -, -, inTag, -, solid, slash⟩ := IsTagName.classes (named.2 c List.mem_cons_self)
      have close : c ≠ '>' := by
        rintro rfl
        exact absurd inTag (by decide)
      set after := attributes.flatMap writtenAttribute ++ '>' :: rest
      set follows := '=' :: '"' :: (Entity.escaped value ++ '"' :: after)
      have text : ((c :: tail, value) :: attributes).flatMap writtenAttribute ++ '>' :: rest =
          ' ' :: c :: (tail ++ follows) := by
        simp [writtenAttribute, after, follows]
      have gap : skipGap (' ' :: c :: (tail ++ follows)) = c :: (tail ++ follows) := by
        have blank : isBlank ' ' := by decide
        simp [skipGap, blank, solid, slash]
      have inside : ∀ d ∈ tail, isAttributeNameChar d := fun d hd =>
        (IsTagName.classes (named.2 d (List.mem_cons_of_mem _ hd))).2.2.2.2.1
      have front : (tail ++ follows).takeWhile isAttributeNameChar = tail :=
        takeWhile_append_of_nextIs inside rfl
      have back : (tail ++ follows).dropWhile isAttributeNameChar = follows :=
        dropWhile_append_of_nextIs inside rfl
      rw [text, readAttributes_of_name gap slash close (by simp), front, back]
      dsimp only
      rw [read_quoted (Entity.quote_notMem_escaped value), ih later, named.lower_eq]
      rfl

/-- A tag as it is written, behind its `<`. -/
def written (name : Text) (attributes : List (Text × Text)) : Text :=
  name ++ (attributes.flatMap writtenAttribute ++ ['>'])

theorem read_written {name : Text} {attributes : List (Text × Text)} (hn : IsTagName name)
    (ha : ∀ a ∈ attributes, IsTagName a.1) (rest : Text) :
    read (written name attributes ++ rest) =
      ⟨name, attributes.map fun a => (a.1, Entity.escaped a.2), .closed false rest⟩ := by
  have inside : ∀ d ∈ name, isNameChar d := fun d hd => (IsTagName.classes (hn.2 d hd)).2.2.2.1
  have text : written name attributes ++ rest =
      name ++ (attributes.flatMap writtenAttribute ++ '>' :: rest) := by
    simp [written]
  have stops : nextIs isNameChar (attributes.flatMap writtenAttribute ++ '>' :: rest) = false := by
    cases attributes <;> rfl
  rw [read, text, takeWhile_append_of_nextIs inside stops, dropWhile_append_of_nextIs inside stops]
  dsimp only
  rw [readAttributes_written ha, hn.lower_eq]

end StartTag

/-! ### Elements -/

namespace Element

def closing (name : Text) : Text := '<' :: '/' :: (name ++ ['>'])

/-- An element as it is written on a page. -/
def written (e : Element) : Text :=
  '<' :: (StartTag.written e.name e.attributes ++
    if rawNames.contains e.name then e.content ++ closing e.name else [])

/-- An element that can be written: no end tag starts in its content, and only style sheets and
scripts have any. -/
structure IsWritable (e : Element) : Prop where
  name : IsTagName e.name
  attributes : ∀ a ∈ e.attributes, IsTagName a.1
  unclosed : ¬ "</".toList <:+: e.content
  content : ¬ rawNames.contains e.name → e.content = []

theorem afterEndTag?_closing {name : Text} (h : IsTagName name) (rest : Text) :
    afterEndTag? name (closing name ++ rest) = some rest := by
  obtain ⟨c, tail, rfl⟩ := List.exists_cons_of_ne_nil h.1
  have solid := (IsTagName.classes (h.2 c List.mem_cons_self)).2.2.2.2.2.1
  have close : ('>' :: rest).dropWhile isBlank = '>' :: rest :=
    List.dropWhile_cons_of_neg (by decide)
  have start : (c :: tail ++ '>' :: rest).dropWhile isBlank = c :: tail ++ '>' :: rest :=
    List.dropWhile_cons_of_neg (by simp [solid])
  have text : closing (c :: tail) ++ rest = '<' :: '/' :: (c :: tail ++ '>' :: rest) := by
    simp [closing]
  have named : (c :: tail).isPrefixOf (c :: tail) := List.isPrefixOf_iff_prefix.2 List.prefix_rfl
  rw [text, afterEndTag?, start, List.take_left, h.map_toLower, if_pos named, List.drop_left, close]
  rfl

theorem afterEndTag?_eq_none {name t : Text} (h : ¬ "</".toList <+: t) :
    afterEndTag? name t = none := by
  rw [afterEndTag?]
  exact fun rest same => h ⟨rest, same.symm⟩

theorem cutContent?_written {name content : Text} (h : IsTagName name)
    (hc : ¬ "</".toList <:+: content) (rest : Text) :
    cutContent? name (content ++ (closing name ++ rest)) = some (content, rest) := by
  induction content with
  | nil =>
      have found := afterEndTag?_closing h rest
      rw [List.nil_append, closing, List.cons_append] at *
      rw [cutContent?, found]
  | cons c content ih =>
      have early : ¬ "</".toList <+: c :: (content ++ (closing name ++ rest)) := by
        intro start
        obtain ⟨opens, slash⟩ := List.cons_prefix_cons.1 start
        cases content with
        | nil => exact absurd (List.cons_prefix_cons.1 slash).1 (by decide)
        | cons d content =>
            obtain ⟨follows, -⟩ := List.cons_prefix_cons.1 slash
            refine hc (List.IsPrefix.isInfix ⟨content, ?_⟩)
            rw [← opens, ← follows]
            rfl
      rw [List.cons_append, cutContent?, afterEndTag?_eq_none early]
      dsimp only
      rw [ih fun inside => hc (inside.trans (List.suffix_cons _ _).isInfix)]
      rfl

theorem decodedAttributes_written (attributes : List (Text × Text)) (name : Text)
    (ending : TagEnd) :
    StartTag.decodedAttributes ⟨name, attributes.map fun a => (a.1, Entity.escaped a.2), ending⟩ =
      .ok attributes := by
  rw [StartTag.decodedAttributes]
  induction attributes with
  | nil => rfl
  | cons a attributes ih =>
      dsimp only at ih ⊢
      rw [List.map_cons, List.mapM_cons, ih, Entity.decode_escaped]
      rfl

/-- An element is read as it is written, whatever follows. -/
theorem read_written {e : Element} (h : e.IsWritable) (rest : Text) :
    read (StartTag.written e.name e.attributes ++
      ((if rawNames.contains e.name then e.content ++ closing e.name else []) ++ rest)) =
      .ok (.element e rest) := by
  have letter : (StartTag.written e.name e.attributes ++
      ((if rawNames.contains e.name then e.content ++ closing e.name else []) ++ rest)).head?.any
        Char.isAlpha := by
    obtain ⟨c, tail, same⟩ := List.exists_cons_of_ne_nil h.name.1
    have alpha := (IsTagName.classes (h.name.2 c (by simp [same]))).2.2.1
    simpa [StartTag.written, same] using alpha
  rw [read, if_pos letter, StartTag.read_written h.name h.attributes, ofTag]
  dsimp only
  rw [decodedAttributes_written]
  by_cases raw : rawNames.contains e.name
  · have cut := cutContent?_written h.name h.unclosed rest
    rw [← List.append_assoc] at cut
    rw [if_pos raw, cut, raw]
    rfl
  · rw [if_neg raw, Bool.eq_false_of_not_eq_true raw, List.nil_append]
    change Except.ok (Reading.element ⟨e.name, e.attributes, []⟩ rest) = _
    rw [← h.content raw]

theorem scan_append (wellFormed : Bool) (done rest : Text) :
    scan wellFormed done.length (done ++ rest) = scan wellFormed 0 rest := by
  induction done with
  | nil => rfl
  | cons c done ih => exact ih

theorem ofPage_written {elements : List Element} (h : ∀ e ∈ elements, e.IsWritable) :
    ofPage (elements.flatMap written) = .ok elements := by
  rw [ofPage]
  induction elements with
  | nil => rfl
  | cons e elements ih =>
      obtain ⟨here, later⟩ := List.forall_mem_cons.1 h
      set body := StartTag.written e.name e.attributes ++
        if rawNames.contains e.name then e.content ++ closing e.name else [] with hbody
      set rest := elements.flatMap written
      have text : (e :: elements).flatMap written = '<' :: (body ++ rest) := List.flatMap_cons
      have found : read (body ++ rest) = .ok (.element e rest) := by
        rw [hbody, List.append_assoc]
        exact read_written here rest
      have length : (body ++ rest).length - rest.length = body.length := by
        rw [List.length_append, Nat.add_sub_cancel]
      rw [text, scan, if_pos rfl, found]
      change (scan true ((body ++ rest).length - rest.length) (body ++ rest) >>= fun others =>
        .ok (e :: others)) = _
      rw [length, scan_append, ih later]
      rfl

end Element

/-- Whatever the values of the attributes are, reading a written page gives its styles, or else the
error of the first address on it that cannot be resolved. -/
theorem Source.result_read_written (files : Files) {web : Web} {page contentType : Text}
    {elements : List Element} (hw : Url.isWeb page = .ok true)
    (hf : web page = .ok ⟨elements.flatMap Element.written, contentType⟩)
    (hl : StyleSource.looksLikePage contentType (elements.flatMap Element.written))
    (h : ∀ e ∈ elements, e.IsWritable) :
    (read files web page).outcome.2 =
      ((elements.flatMap StyleSource.addresses).findSome? (StyleSource.unresolved? page)).elim
        (.ok (styles? web page elements)) fun e => .error (.page (.url e)) :=
  result_read_of_ofPage files hw hf hl (Element.ofPage_written h)

end DesignTokens
