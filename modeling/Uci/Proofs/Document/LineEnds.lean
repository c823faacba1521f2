import Uci.Proofs.Document.Faults
import Uci.Proofs.Document.Rejection
import Uci.Proofs.Syntax.Alike

/-!
# Documents from texts with other line ends

A carriage return before every line feed does not change what a text is read as.  If it has a fault
the same fault is found at the same position.  If it has none, its rows are the same but for their
line ends, so that the same directives are replayed; only the places of their values are others, and
those matter for nothing but the position of an error, which is the same again.

## Main definitions

* `Row.crlf` — a row with a carriage return before its line feed.
* `Directive.moved`, `Rejection.moved` — directives and refusals at other places.

## Main results

* `directives_crlf` — the directives of both texts are the same at corresponding places.
* `Progress.obey_moved` — a directive does the same wherever it stands.
* `parse_crlf` — **line ends do not matter**: both texts describe the same document, or fail for the
  same reason at the same position.
-/

namespace Uci

open Syntax (Value Item Directive SyntaxError Token)

namespace Syntax

/-! ### Rows -/

/-- A line end with a carriage return. -/
def withReturn (s : TokenOf .newline) : TokenOf .newline :=
  ⟨s.1.crlf, (Token.kind_crlf _).trans s.2⟩

/-- **The row with a carriage return before its line feed**, if it has one. -/
def Row.crlf (r : Row) : Row := r.withStop (r.ending.stop.map withReturn)

@[simp] theorem Row.keyword_crlf (r : Row) : r.crlf.keyword = r.keyword := by cases r <;> rfl

@[simp] theorem Row.isEntry_crlf (r : Row) : r.crlf.IsEntry ↔ r.IsEntry := by
  unfold IsEntry
  rw [keyword_crlf]

@[simp] theorem Row.stop_crlf (r : Row) :
    r.crlf.ending.stop = r.ending.stop.map withReturn := by
  cases r <;> rfl

theorem FeedsEnd.append_iff {ts us : List Token} :
    FeedsEnd (ts ++ us) ↔ FeedsEnd ts ∧ FeedsEnd us := List.forall_mem_append

theorem Row.tokens_crlf {r : Row} (h : FeedsEnd r.tokens) :
    r.crlf.tokens = r.tokens.map Token.crlf := by
  obtain ⟨body, htokens, hbody⟩ := exists_body r
  have hrow := htokens r.ending.stop
  rw [withStop_ending] at hrow
  rw [hrow] at h ⊢
  rw [crlf, htokens, List.map_append, (FeedsEnd.append_iff.mp h).1.map_crlf hbody]
  cases r.ending.stop <;> rfl

theorem tokens_map_crlf {rows : List Row} (h : FeedsEnd (rows.flatMap Row.tokens)) :
    (rows.map Row.crlf).flatMap Row.tokens = (rows.flatMap Row.tokens).map Token.crlf := by
  rw [List.flatMap_map, List.map_flatMap]
  refine List.flatMap_congr fun r hr => Row.tokens_crlf fun u hu => ?_
  exact h u (List.mem_flatMap.mpr ⟨r, hr, hu⟩)

private theorem Inside.map_crlf {above : List Row} (h : Inside above) :
    Inside (above.map Row.crlf) := by
  obtain ⟨front, header, between, rfl, hheader, hbetween⟩ := h
  refine ⟨front.map Row.crlf, header.crlf, between.map Row.crlf, by simp, by simpa, ?_⟩
  exact List.forall_mem_map.mpr fun r hr => by simpa using hbetween r hr

/-- **Rows stand where they may stand**, whatever their line ends are. -/
theorem Accepted.map_crlf {rows : List Row} (h : Accepted rows) : Accepted (rows.map Row.crlf) where
  ended := by
    rw [List.map_dropLast.symm]
    refine List.forall_mem_map.mpr fun r hr => ?_
    rw [Row.stop_crlf, Ne, Option.map_eq_none_iff]
    exact h.ended r hr
  placed := by
    intro above r below hsplit hr
    obtain ⟨above, back, rfl, rfl, hback⟩ := List.map_eq_append_iff.mp hsplit
    obtain ⟨r, below, rfl, rfl, rfl⟩ := List.map_eq_cons_iff.mp hback
    exact (h.placed above r below rfl (by simpa using hr)).map_crlf

/-! ### Values at other places -/

/-- **The directive with all of its values at other places.** -/
def Directive.moved (g : Nat → Nat) : Directive → Directive
  | package name => package (name.moved g)
  | header type name => header (type.moved g) (name.map (Value.moved g))
  | option name value => option (name.moved g) (value.moved g)
  | list name value => list (name.moved g) (value.map (Value.moved g))

/-! ### What the rows list -/

section

variable {g : Nat → Nat} {o : Nat}

/-- Tokens that stand on a line take no more bytes than before. -/
private theorem carries_inline {front back : List Token} (h : Carries g o (front ++ back))
    (hfeeds : FeedsEnd front) (hinline : ∀ u ∈ front, u.kind.isInline = true) :
    g (o + sizeOf front) = g o + sizeOf front := by
  rw [h.front, hfeeds.map_crlf hinline]

/-- What stands in front of the values of a row. -/
private def leading (indent : Option (TokenOf .whitespace)) (c : Command) : List Token :=
  (Part.optional indent).flatMap Part.tokens ++
    wordToken c.keyword.text :: (Part.optional c.gap).flatMap Part.tokens

private theorem tokens_eq_leading (indent : Option (TokenOf .whitespace)) (c : Command)
    (e : Ending) : (Row.command indent c e).tokens = leading indent c ++ (c.first.tokens ++
      ((furtherParts c.second).flatMap Part.tokens ++ e.parts.flatMap Part.tokens)) := by
  simp [Row.tokens, leading, Command.clause, Clause.tokens, Command.parts, Part.tokens]

private theorem isInline_of_mem_leading {indent : Option (TokenOf .whitespace)} {c : Command} :
    ∀ u ∈ leading indent c, u.kind.isInline = true := by
  intro u hu
  rcases List.mem_append.mp hu with hu | hu
  · rw [kind_of_mem_optional hu]
    rfl
  rcases List.mem_cons.mp hu with rfl | hu
  · rfl
  · rw [kind_of_mem_optional hu]
    rfl

/-- **The values of a row** are found where they correspond. -/
private theorem values_moved {indent : Option (TokenOf .whitespace)} {c : Command} {e : Ending}
    (hfeeds : FeedsEnd (Row.command indent c e).tokens)
    (h : Carries g o (Row.command indent c e).tokens) :
    c.firstValue (g o + sizeOf ((Part.optional indent).flatMap Part.tokens)) =
        (c.firstValue (o + sizeOf ((Part.optional indent).flatMap Part.tokens))).moved g ∧
      c.secondValue (g o + sizeOf ((Part.optional indent).flatMap Part.tokens)) =
        (c.secondValue (o + sizeOf ((Part.optional indent).flatMap Part.tokens))).map
          (Value.moved g) := by
  have hoffset : ∀ n, c.firstOffset (n + sizeOf ((Part.optional indent).flatMap Part.tokens)) =
      n + sizeOf (leading indent c) := by
    intro n
    simp [Command.firstOffset, leading, wordToken, Nat.add_assoc]
  rw [tokens_eq_leading] at h hfeeds
  constructor
  · have hplace := carries_inline h (FeedsEnd.append_iff.mp hfeeds).1 isInline_of_mem_leading
    unfold Command.firstValue Run.value Value.moved
    rw [hoffset, hoffset, hplace]
  · unfold Command.secondValue
    cases hsecond : c.second with
    | none => rfl
    | some w =>
      have hsplit : leading indent c ++ (c.first.tokens ++
          ((furtherParts (some w)).flatMap Part.tokens ++ e.parts.flatMap Part.tokens)) =
          (leading indent c ++ (c.first.tokens ++ [w.1.1])) ++
            (w.2.tokens ++ e.parts.flatMap Part.tokens) := by
        simp [furtherParts, Part.tokens]
      rw [hsecond, hsplit] at h hfeeds
      have hspace : ∀ u ∈ [w.1.1], u.kind.isInline = true := by
        rw [List.forall_mem_singleton, w.1.2]
        rfl
      have hplace := carries_inline h (FeedsEnd.append_iff.mp hfeeds).1
        (List.forall_mem_append.mpr ⟨isInline_of_mem_leading,
          List.forall_mem_append.mpr ⟨fun u => Run.isInline, hspace⟩⟩)
      simp only [sizeOf_append, sizeOf_cons, sizeOf_nil, Nat.add_zero, ← Nat.add_assoc] at hplace
      simp only [Option.map_some, Run.value, Value.moved, hoffset, hplace]

/-- **Both rows list the same directives**, at corresponding places. -/
private theorem listing_crlf {rows : List Row} (hfeeds : FeedsEnd (rows.flatMap Row.tokens))
    (h : Carries g o (rows.flatMap Row.tokens)) :
    (listing (g o) (rows.map Row.crlf)).1.filterMap Entry.directive? =
        ((listing o rows).1.filterMap Entry.directive?).map (Directive.moved g) ∧
      (listing (g o) (rows.map Row.crlf)).2.flatMap Item.directives =
        ((listing o rows).2.flatMap Item.directives).map (Directive.moved g) := by
  induction rows generalizing o with
  | nil => exact ⟨rfl, rfl⟩
  | cons r rows ih =>
    rw [List.flatMap_cons] at hfeeds h
    obtain ⟨hrow, hrows⟩ := FeedsEnd.append_iff.mp hfeeds
    have hbehind := ih hrows h.behind
    rw [h.front, ← Row.tokens_crlf hrow] at hbehind
    cases r with
    | blank e => exact hbehind
    | command indent c e =>
      have hsize : ∀ n e, n + sizeOf (Row.command indent c e).tokens =
          n + sizeOf ((Part.optional indent).flatMap Part.tokens) +
            sizeOf (c.clause e).tokens := by
        intro n e
        rw [Row.tokens, sizeOf_append, Nat.add_assoc]
      obtain ⟨hfirst, hsecond⟩ := values_moved hrow h.of_append
      rw [Row.crlf, Row.withStop, hsize, hsize] at hbehind
      rw [List.map_cons, Row.crlf, Row.withStop, listing, listing, hfirst, hsecond]
      cases c.keyword with
      | package =>
        refine ⟨rfl, ?_⟩
        rw [List.flatMap_cons, List.flatMap_cons, hbehind.2]
        rfl
      | config =>
        refine ⟨rfl, ?_⟩
        rw [List.flatMap_cons, List.flatMap_cons, hbehind.2, List.map_append]
        exact congrArg (· ++ _) (congrArg (List.cons _) hbehind.1)
      | option =>
        refine ⟨?_, hbehind.2⟩
        cases c.secondValue (o + sizeOf ((Part.optional indent).flatMap Part.tokens)) with
        | none => exact hbehind.1
        | some v => exact congrArg (List.cons _) hbehind.1
      | list =>
        refine ⟨?_, hbehind.2⟩
        exact congrArg (List.cons _) hbehind.1

end

/-- **The directives of both texts** are the same, at corresponding places. -/
theorem directives_crlf {t : Text} (hreturn : '\r' ∉ t) (hfeeds : FeedsEnd (Token.ofText t))
    (herrors : (parse t).errors = []) :
    (parse t.crlf).directives = (parse t).directives.map (Directive.moved t.crlfOffset) := by
  obtain ⟨rows, hrows, htokens⟩ := exists_accepted herrors
  have hcarries := carries_ofText t
  have hzero : t.crlfOffset 0 = 0 := Text.crlfOffset_append [] t
  have hcrlf : Token.ofText t.crlf = (rows.map Row.crlf).flatMap Row.tokens := by
    rw [ofText_crlf hreturn hfeeds, htokens, tokens_map_crlf (htokens ▸ hfeeds)]
  rw [htokens] at hfeeds hcarries
  have hlisting := (listing_crlf hfeeds hcarries).2
  rw [hzero] at hlisting
  rw [Parse.directives, Parse.directives, (parse_accepted hrows htokens).2,
    (parse_accepted hrows.map_crlf hcrlf).2, hlisting]

end Syntax

/-! ### What is replayed -/

/-- The refusal of a value at another place. -/
def Rejection.moved (g : Nat → Nat) (r : Rejection) : Rejection := ⟨r.cause, g r.offset⟩

namespace Document

variable {g : Nat → Nat} {α β ε ε' : Type} {d : Document}

/-! ### Refusals at other places -/

private theorem mapError_map (x : Except ε α) (f : α → β) (e : ε → ε') :
    (x.map f).mapError e = (x.mapError e).map f := by cases x <;> rfl

private theorem mapError_bind (x : Except ε α) (f : α → Except ε β) (e : ε → ε') :
    (x >>= f).mapError e = x.mapError e >>= fun a => (f a).mapError e := by cases x <;> rfl

theorem accept_moved (v : Value) (e : Edit α) (d : Document) :
    accept (v.moved g) e d = (accept v e d).mapError (Rejection.moved g) := by
  unfold accept
  split <;> rfl

theorem openSection_moved (type : Value) (name : Option Value) (d : Document) :
    openSection (type.moved g) (name.map (Value.moved g)) d =
      (openSection type name d).mapError (Rejection.moved g) := by
  have hreopen : d.sectionToReopen? type.text (name.map (Value.moved g)) =
      d.sectionToReopen? type.text name := by cases name <;> rfl
  have hblame : (name.map (Value.moved g)).getD (type.moved g) = (name.getD type).moved g := by
    cases name <;> rfl
  have htext : (name.map (Value.moved g)).map Value.text = name.map Value.text := by
    cases name <;> rfl
  have htype : (type.moved g).text = type.text := rfl
  unfold openSection
  rw [hblame, htext, accept_moved, htype, hreopen]
  cases d.sectionToReopen? type.text name <;> rfl

theorem replayOption_moved (s : Handle) (name value : Value) (d : Document) :
    replayOption s (name.moved g) (value.moved g) d =
      (replayOption s name value d).mapError (Rejection.moved g) := by
  have hname : (name.moved g).text = name.text := rfl
  unfold replayOption
  rw [hname]
  split
  · rw [accept_moved, ← mapError_map]
    rfl
  · rfl
  · rw [accept_moved, ← mapError_map]
    rfl

theorem openList_moved (s : Handle) (name : Value) (d : Document) :
    openList s (name.moved g) d = (openList s name d).mapError (Rejection.moved g) := by
  have hname : (name.moved g).text = name.text := rfl
  unfold openList
  rw [hname]
  split
  · rfl
  · rfl
  · rw [accept_moved]

theorem replayList_moved (s : Handle) (name : Value) (value : Option Value) (d : Document) :
    replayList s (name.moved g) (value.map (Value.moved g)) d =
      (replayList s name value d).mapError (Rejection.moved g) := by
  unfold replayList
  rw [openList_moved, mapError_bind]
  congr 1
  funext r
  cases value with
  | none => rfl
  | some v =>
    show (accept (v.moved g) (addElement r.1 v.text) r.2).map _ = _
    rw [accept_moved, ← mapError_map]

private theorem Progress.inSection_mapError {p : Progress}
    {line line' : Handle → Document → Except Rejection Document} {f : Rejection → Rejection}
    (h : ∀ s, line' s p.document = (line s p.document).mapError f) :
    p.inSection line' = (p.inSection line).mapError f := by
  unfold inSection
  cases p.current? with
  | none => rfl
  | some s =>
    dsimp only
    rw [h, mapError_map]

/-- **A directive does the same wherever it stands**, and what it is refused for stands there. -/
theorem Progress.obey_moved (p : Progress) (x : Directive) :
    p.obey (x.moved g) = (p.obey x).mapError (Rejection.moved g) := by
  cases x with
  | package name =>
    show (accept (name.moved g) _ _).map _ = (Except.map _ (accept name _ _)).mapError _
    rw [accept_moved, mapError_map]
    rfl
  | header type name =>
    show (openSection (type.moved g) (name.map (Value.moved g)) _).map _ =
      (Except.map _ (openSection type name _)).mapError _
    rw [openSection_moved, mapError_map]
  | option name value => exact inSection_mapError fun s => replayOption_moved s name value _
  | list name value => exact inSection_mapError fun s => replayList_moved s name value _

private theorem foldlM_obey_moved (xs : List Directive) (p : Progress) :
    (xs.map (Directive.moved g)).foldlM Progress.obey p =
      (xs.foldlM Progress.obey p).mapError (Rejection.moved g) := by
  induction xs generalizing p with
  | nil => rfl
  | cons x xs ih =>
    rw [List.map_cons, List.foldlM_cons, List.foldlM_cons, Progress.obey_moved, mapError_bind]
    cases p.obey x with
    | error r => rfl
    | ok q => exact ih q

/-- **The same directives at other places** are replayed to the same document, or to a refusal that
stands elsewhere. -/
theorem replay_moved {items items' : List Item}
    (h : items'.flatMap Item.directives = (items.flatMap Item.directives).map (Directive.moved g)) :
    replay items' = (replay items).mapError (Rejection.moved g) := by
  rw [replay_eq, replay_eq, h, foldlM_obey_moved, mapError_map]

/-! ### The main result -/

variable {t : Text}

/-- What is refused stands between two characters. -/
private theorem isBoundary_of_refused (herrors : (Syntax.parse t).errors = []) {r : Rejection}
    (h : replay (Syntax.parse t).items = .error r) : t.IsBoundary r.offset := by
  obtain ⟨front, x, back, p, v, hsplit, -, hrefuses, hoffset⟩ := replay_eq_error_iff.mp h
  have hx : x ∈ (Syntax.parse t).directives := by
    rw [Syntax.Parse.directives, hsplit]
    exact List.mem_append_right _ List.mem_cons_self
  have hstands := Syntax.standsIn_of_mem_directives herrors hx
  rw [hoffset]
  exact (hstands.values _ hrefuses.mem_values.2).isBoundary

/-- **Line ends do not matter.**  A text without carriage returns, of which no token but a line end
holds a line feed, describes the same document with a carriage return before every line feed, or
fails for the same reason at the same position. -/
theorem parse_crlf (t : Text) (hreturn : '\r' ∉ t)
    (hfeeds : ∀ u ∈ Token.ofText t, u.kind ≠ .newline → '\n' ∉ u.text) :
    parse t.crlf = parse t := by
  have herrors := Syntax.errors_crlf hreturn hfeeds
  cases hfirst : (Syntax.parse t).errors with
  | cons e more =>
    have hposition : (e.moved t.crlfOffset).position t.crlf = e.position t :=
      Position.ofOffset_crlf (isBoundary_start (by rw [hfirst]; exact List.mem_cons_self))
    unfold parse
    dsimp only
    rw [herrors, hfirst, List.map_cons]
    dsimp only
    rw [hposition]
    rfl
  | nil =>
    rw [hfirst, List.map_nil] at herrors
    have hreplay := replay_moved (Syntax.directives_crlf hreturn hfeeds hfirst)
    unfold parse
    dsimp only
    rw [herrors, hfirst, hreplay]
    cases hitems : replay (Syntax.parse t).items with
    | ok d => rfl
    | error r =>
      have hposition : Position.ofOffset t.crlf (t.crlfOffset r.offset) = .ofOffset t r.offset :=
        Position.ofOffset_crlf (isBoundary_of_refused hfirst hitems)
      exact congrArg (fun q => Except.error (ParseError.mk q r.cause)) hposition

/-- Comments, a word with a `#` and blank lines; and the same with a backslash outside of quotes,
where the text fails. -/
theorem parse_crlf_comments :
    let t : Text := "config a#b # c\n\n\toption x '1'\n# d\n".toList
    let t' : Text := t ++ "\toption y \\\n".toList
    ('\r' ∉ t ∧ (∀ u ∈ Token.ofText t, u.kind ≠ .newline → '\n' ∉ u.text) ∧
        (parse t).isOk = true ∧ parse t.crlf = parse t) ∧
      '\r' ∉ t' ∧ (∀ u ∈ Token.ofText t', u.kind ≠ .newline → '\n' ∉ u.text) ∧
        parse t' = .error ⟨⟨5, 11⟩, .fault (.missing .optionValue)⟩ ∧ parse t'.crlf = parse t' := by
  intro t t'
  have hreturn : '\r' ∉ t := by decide
  have hreturn' : '\r' ∉ t' := by decide
  have hfeeds : ∀ u ∈ Token.ofText t, u.kind ≠ .newline → '\n' ∉ u.text := by decide +kernel
  have hfeeds' : ∀ u ∈ Token.ofText t', u.kind ≠ .newline → '\n' ∉ u.text := by decide +kernel
  exact ⟨⟨hreturn, hfeeds, by decide +kernel, parse_crlf t hreturn hfeeds⟩,
    hreturn', hfeeds', by decide +kernel, parse_crlf t' hreturn' hfeeds'⟩

end Document
end Uci
