import DesignTokens.Proofs.PrintedLines

/-!
The styles of a page. Each stylesheet that the page links to or imports, and each block of its own
styles, stands under a banner, in document order, and one that cannot be fetched is left out. An
address that cannot be resolved is not left out: the first of them ends the reading, and so does
markup that cannot be read. Main statement: `result_read_page`.
-/
namespace DesignTokens

theorem findSome?_flatMap {α β γ : Type} (f : α → List β) (g : β → Option γ) (items : List α) :
    (items.flatMap f).findSome? g = items.findSome? fun x => (f x).findSome? g := by
  induction items with
  | nil => rfl
  | cons x items ih =>
      rw [List.flatMap_cons, List.findSome?_append, ih, List.findSome?_cons]
      cases (f x).findSome? g <;> rfl

namespace StyleSource

/-- The addresses of stylesheets in an element: that of a link, and those of the imports in a style
element. -/
def addresses (e : Element) : List Text :=
  if e.name = "link".toList then (linkAddress? e).toList
  else if e.name = "style".toList then imports e.content
  else []

/-- The styles that an element holds itself. -/
def block? (e : Element) : Option Text :=
  if e.name = "style".toList ∧ Text.trim e.content ≠ [] then some e.content else none

/-- Why the address of a stylesheet cannot be resolved against that of the page. -/
def unresolved? (page address : Text) : Option UrlError := error? (Url.join page address)

/-- The sources in an element whose addresses can be resolved. -/
def resolvedSources (page : Text) (e : Element) : List StyleSource :=
  (addresses e).filterMap (fun address => (Url.join page address).toOption.map linked) ++
    (block? e).toList.map inline

theorem ofElement_eq (page : Text) (e : Element) :
    ofElement page e = ((addresses e).findSome? (unresolved? page)).elim
      (.ok (resolvedSources page e)) .error := by
  have resolved (items : List Text) :
      (items.mapM fun address => (Url.join page address).map linked) =
        (items.findSome? (unresolved? page)).elim
          (.ok (items.filterMap fun address => (Url.join page address).toOption.map linked))
          .error := by
    rw [mapM_eq_elim]
    simp only [error?_map, toOption_map]
    rfl
  by_cases link : e.name = "link".toList
  · have other : e.name ≠ "style".toList := by
      rw [link]
      decide
    have own : addresses e = (linkAddress? e).toList := if_pos link
    have none : block? e = none := if_neg fun both => other both.1
    rw [ofElement, if_pos link, resolvedSources, own, none, Option.toList_none, List.map_nil,
      List.append_nil]
    exact resolved _
  by_cases style : e.name = "style".toList
  · have own : addresses e = imports e.content := (if_neg link).trans (if_pos style)
    have blocks : (block? e).toList.map inline =
        if (Text.trim e.content).isEmpty then [] else [inline e.content] := by
      by_cases blank : Text.trim e.content = [] <;> simp [block?, style, blank]
    rw [ofElement, if_neg link, if_pos style, resolved, resolvedSources, own, blocks]
    cases (imports e.content).findSome? (unresolved? page) <;> rfl
  · have own : addresses e = [] := (if_neg link).trans (if_neg style)
    have none : block? e = none := if_neg fun both => style both.1
    rw [ofElement, if_neg link, if_neg style, resolvedSources, own, none]
    rfl

theorem ofPage_eq {page html : Text} {elements : List Element}
    (h : Element.ofPage html = .ok elements) :
    ofPage page html = ((elements.flatMap addresses).findSome? (unresolved? page)).elim
      (.ok (elements.flatMap (resolvedSources page))) fun e => .error (.url e) := by
  have first (e : Element) :
      error? (ofElement page e) = (addresses e).findSome? (unresolved? page) := by
    rw [ofElement_eq]
    cases (addresses e).findSome? (unresolved? page) <;> rfl
  rw [ofPage, h, findSome?_flatMap]
  change ((elements.mapM (ofElement page)).mapError PageError.url >>= fun sources => _) = _
  rw [mapM_eq_elim]
  simp only [first]
  cases all : elements.findSome? fun e => (addresses e).findSome? (unresolved? page) with
  | some fault => rfl
  | none =>
      have each : ∀ e ∈ elements, (ofElement page e).toOption = some (resolvedSources page e) := by
        intro e he
        rw [ofElement_eq, List.findSome?_eq_none_iff.1 all e he]
        rfl
      change Except.ok (elements.filterMap fun e => (ofElement page e).toOption).flatten = _
      rw [List.filterMap_congr each, List.filterMap_eq_map']
      rfl

end StyleSource

open Printing StyleSource

namespace Source

/-- A stylesheet under its banner, unless its address cannot be resolved or it cannot be fetched. -/
def sheet? (web : Web) (page address : Text) : Option Text :=
  (Url.join page address).toOption.bind fun url =>
    (web url).toOption.map fun found => banner url ++ found.text

/-- A block of styles of the page under its banner. -/
def block (page css : Text) : Text := banner (page ++ " <style>".toList) ++ css

/-- The styles of the elements of a page, in document order. -/
def styles? (web : Web) (page : Text) (elements : List Element) : Option Text :=
  let parts := elements.flatMap fun e =>
    (addresses e).filterMap (sheet? web page) ++ (block? e).toList.map (block page)
  if parts.isEmpty then none else some (Text.join "\n\n".toList parts)

theorem result_fetch (web : Web) (url : Text) :
    (fetch web url).outcome.2 = .ok (web url).toOption := by
  rw [fetch]
  cases web url with
  | ok page => rfl
  | error reason => rfl

def piece? (web : Web) (page : Text) : StyleSource → Option Text
  | .linked url => (web url).toOption.map fun found => banner url ++ found.text
  | .inline css => some (block page css)

theorem result_pieces (web : Web) (page : Text) (total n : Nat) (sources : List StyleSource) :
    (pieces web page total n sources).outcome.2 = .ok (sources.filterMap (piece? web page)) := by
  induction sources generalizing n with
  | nil => rfl
  | cons source sources ih =>
      cases source with
      | inline css =>
          rw [pieces, result_bind _ fun _ => appends_pure _, ih]
          rfl
      | linked url =>
          have rest (piece : List Text) :=
            appends_bind (appends_pieces web page total (n + 1) sources)
              fun others => appends_pure (ε := SourceError) (piece ++ others)
          rw [pieces,
            result_bind _ fun _ => appends_bind (appends_fetch web url) fun found => rest _]
          change ((fetch web url >>= fun found => _).outcome).2 = _
          rw [result_bind _ fun found => rest _, result_fetch]
          change ((pieces web page total (n + 1) sources >>= fun others => _).outcome).2 = _
          rw [result_bind _ fun _ => appends_pure _, ih]
          rw [List.filterMap_cons, piece?]
          cases web url <;> rfl

theorem isEmpty_join {parts : List Text} (h : ∀ part ∈ parts, part ≠ []) :
    (Text.join "\n\n".toList parts).isEmpty = parts.isEmpty := by
  match parts with
  | [] => rfl
  | [part] => simpa [Text.join] using h part List.mem_cons_self
  | part :: other :: rest =>
      have hne := h part List.mem_cons_self
      simp [Text.join, hne]

theorem pieces_resolvedSources (web : Web) (page : Text) (elements : List Element) :
    (elements.flatMap (resolvedSources page)).filterMap (piece? web page) =
      elements.flatMap fun e =>
        (addresses e).filterMap (sheet? web page) ++ (block? e).toList.map (block page) := by
  rw [List.filterMap_flatMap]
  congr 1
  funext e
  have sheets : (fun address => ((Url.join page address).toOption.map linked).bind
      (piece? web page)) = sheet? web page := by
    funext address
    rw [sheet?]
    cases (Url.join page address).toOption <;> rfl
  have blocks : piece? web page ∘ StyleSource.inline = fun css => some (block page css) := rfl
  rw [resolvedSources, List.filterMap_append, List.filterMap_filterMap, List.filterMap_map, sheets,
    blocks, List.filterMap_eq_map']

theorem banner_append_ne_nil (origin t : Text) : banner origin ++ t ≠ [] := by
  have start : "/* Source: ".toList ≠ [] := by decide
  intro none
  obtain ⟨label, -⟩ := List.append_eq_nil_iff.1 none
  exact start (List.append_eq_nil_iff.1 (List.append_eq_nil_iff.1 label).1).1

theorem piece_ne_nil {web : Web} {page piece : Text} {source : StyleSource}
    (h : piece? web page source = some piece) : piece ≠ [] := by
  cases source with
  | inline css =>
      obtain rfl := Option.some.inj h
      exact banner_append_ne_nil _ _
  | linked url =>
      obtain ⟨found, -, rfl⟩ := Option.map_eq_some_iff.1 h
      exact banner_append_ne_nil _ _

/-- What is put together from the sources of a page; nothing if none of them gives a piece. -/
theorem result_readPage (web : Web) (page html : Text) :
    (readPage web page html).outcome.2 =
      ((ofPage page html).mapError .page).map fun sources =>
        let parts := sources.filterMap (piece? web page)
        if parts.isEmpty then none else some (Text.join "\n\n".toList parts) := by
  have rest (sources : List StyleSource) : Appends (if sources.isEmpty then do
        Printing.line "No CSS found on the page".toList
        return none
      else do
        let total := (sources.filterMap url?).length
        let css := Text.join "\n\n".toList (← pieces web page total 0 sources)
        return if css.isEmpty then none else some css : Printing SourceError (Option Text)) := by
    split
    · exact appends_bind (appends_line _) fun _ => appends_pure none
    · exact appends_bind (appends_pieces web page _ 0 sources) fun _ => appends_pure _
  rw [readPage, result_bind _ fun _ => appends_bind (appends_ofExcept _) rest]
  change ((Printing.ofExcept ((ofPage page html).mapError .page) >>= _ :
    Printing SourceError _).outcome).2 = _
  rw [result_bind _ rest, result_ofExcept]
  cases ofPage page html with
  | error e => rfl
  | ok sources =>
      change (ite _ _ _ : Printing SourceError (Option Text)).outcome.2 = _
      split
      · rename_i none
        obtain rfl := List.isEmpty_iff.1 none
        rfl
      · have parts : ∀ part ∈ sources.filterMap (piece? web page), part ≠ [] := by
          intro part hp
          obtain ⟨source, -, found⟩ := List.mem_filterMap.1 hp
          exact piece_ne_nil found
        rw [result_bind _ fun _ => appends_pure _, result_pieces]
        change Except.ok _ = Except.ok _
        rw [isEmpty_join parts]

/-- What was fetched from an address is read as a page if it looks like one. -/
theorem result_read_of_looksLikePage (files : Files) {web : Web} {page html contentType : Text}
    (hw : Url.isWeb page = .ok true) (hf : web page = .ok ⟨html, contentType⟩)
    (hl : looksLikePage contentType html) :
    (read files web page).outcome.2 = (readPage web page html).outcome.2 := by
  have isWeb : Printing.ofExcept ((Url.isWeb page).mapError SourceError.url) = pure true := by
    rw [hw]
    rfl
  have fetched : fetch web page = pure (some ⟨html, contentType⟩) := by rw [fetch, hf]
  rw [Source.read, isWeb, pure_bind, if_pos rfl, fetched, pure_bind]
  dsimp only
  rw [if_pos hl]

theorem result_read_of_ofPage (files : Files) {web : Web} {page html contentType : Text}
    (hw : Url.isWeb page = .ok true) (hf : web page = .ok ⟨html, contentType⟩)
    (hl : looksLikePage contentType html) {elements : List Element}
    (h : Element.ofPage html = .ok elements) :
    (read files web page).outcome.2 =
      ((elements.flatMap addresses).findSome? (unresolved? page)).elim
        (.ok (styles? web page elements)) fun e => .error (.page (.url e)) := by
  rw [result_read_of_looksLikePage files hw hf hl, result_readPage, ofPage_eq h]
  cases (elements.flatMap addresses).findSome? (unresolved? page) with
  | some e => rfl
  | none =>
      rw [styles?, ← pieces_resolvedSources]
      rfl

end Source

end DesignTokens
