import Uci.Proofs.Syntax.Sound

/-!
# The sources that are accepted

A source is accepted if it falls into rows, each of them blank or a command of the right
shape, such that every `option` and `list` has a `config` above it.  Nothing is said here of
how a source is read: rows are lists of tokens, and what they say is written down row by row.

## Main definitions

* `Row` — a line of a source without errors.
* `Inside`, `Accepted` — the rows of a source, each one where it may stand.
* `listing` — what rows say, with the places of their values.

## Main results

* `nested_iff_placed` — the two ways to say that lines stand in their sections agree.
* `exists_rows` — sound strips of a source fall into rows.
* `parse_accepts` — **a text is read without an error if and only if it falls into such rows,
  and then all of them are listed.**
-/

namespace Uci
namespace Syntax

/-- **Row**: a line, up to its line end or the end of the source.  Behind a value there is no
further part of one, since an ending or space follows. -/
inductive Row where
  | blank (e : Ending)
  | command (indent : Option (TokenOf .whitespace)) (c : Command) (e : Ending)

namespace Row

def tokens : Row → List Token
  | blank e => e.parts.flatMap Part.tokens
  | command indent c e => (Part.optional indent).flatMap Part.tokens ++ (c.clause e).tokens

def ending : Row → Ending
  | blank e => e
  | command _ _ e => e

/-- The keyword of a row that is not blank. -/
def keyword : Row → Option Keyword
  | blank _ => none
  | command _ c _ => some c.keyword

/-- An `option` or a `list`. -/
def IsEntry (r : Row) : Prop := r.keyword = some .option ∨ r.keyword = some .list

end Row

/-- **Inside a section**: there is a `config` above, and behind it only blank rows, options and
lists. -/
def Inside (above : List Row) : Prop :=
  ∃ front header between, above = front ++ header :: between ∧ header.keyword = some .config ∧
    ∀ r ∈ between, r.keyword = none ∨ r.IsEntry

/-- **The rows of a source without errors.** -/
structure Accepted (rows : List Row) : Prop where
  /-- Only the last row may lack a line end. -/
  ended : ∀ r ∈ rows.dropLast, r.ending.stop ≠ none
  placed : ∀ above r below, rows = above ++ r :: below → r.IsEntry → Inside above

/-! ### What rows say -/

/-- What a run of tokens stands for, and the byte it begins at. -/
def Run.value (v : Run) (offset : Nat) : Value := ⟨v.tokens.flatMap Token.content, offset⟩

namespace Command

/-- The byte behind the keyword of a command that begins at an offset, and behind the gap. -/
def firstOffset (c : Command) (o : Nat) : Nat :=
  o + Text.size c.keyword.text + sizeOf ((Part.optional c.gap).flatMap Part.tokens)

def firstValue (c : Command) (o : Nat) : Value := c.first.value (c.firstOffset o)

def secondValue (c : Command) (o : Nat) : Option Value :=
  c.second.map fun v => v.2.value (c.firstOffset o + sizeOf c.first.tokens + v.1.1.text.size)

end Command

/-- **What rows say** that begin at an offset: the entries of the section above, up to the next
header, and the items behind them. -/
def listing : Nat → List Row → List Entry × List Item
  | _, [] => ([], [])
  | o, .blank e :: rows => listing (o + sizeOf (e.parts.flatMap Part.tokens)) rows
  | o, .command indent c e :: rows =>
    let start := o + sizeOf ((Part.optional indent).flatMap Part.tokens)
    let behind := listing (start + sizeOf (c.clause e).tokens) rows
    match c.keyword with
    | .package => ([], .package (some (c.firstValue start)) :: behind.2)
    | .config =>
      ([], .section ⟨some (c.firstValue start), c.secondValue start,
        (c.clause e).tokens.flatMap Token.text, behind.1⟩ :: behind.2)
    | .option =>
      (.option (some (c.firstValue start)) (c.secondValue start) :: behind.1, behind.2)
    | .list => (.list (some (c.firstValue start)) (c.secondValue start) :: behind.1, behind.2)

/-! ### Rows as strips -/

/-- A token of trivia that may be left out. -/
def Strip.optional {k : Kind} (hk : k.isTrivia = true) (o : Option (TokenOf k)) : List Strip :=
  o.toList.map fun t => .trivia t.1 (by rw [t.2, hk])

def Ending.strips (e : Ending) : List Strip :=
  Strip.optional (by decide) e.space ++
    (Strip.optional (by decide) e.comment ++ Strip.optional (by decide) e.stop)

def Row.strips : Row → List Strip
  | blank e => e.strips
  | command indent c e => Strip.optional (by decide) indent ++ [.clause (c.clause e)]

section

variable {k : Kind} (hk : k.isTrivia = true) (o : Option (TokenOf k))

@[simp] theorem tokens_optional :
    (Strip.optional hk o).flatMap Strip.tokens = (Part.optional o).flatMap Part.tokens := by
  cases o <;> rfl

@[simp] theorem sound_optional (ss : List Strip) (rest : List Token) :
    Sound (Strip.optional hk o ++ ss) rest ↔ Sound ss rest := by
  cases o <;> exact Iff.rfl

@[simp] theorem nested_optional (inside : Bool) (ss : List Strip) :
    Nested inside (Strip.optional hk o ++ ss) ↔ Nested inside ss := by
  cases o <;> exact Iff.rfl

@[simp] theorem reading_optional (n : Nat) (ss : List Strip) :
    reading n (Strip.optional hk o ++ ss) =
      reading (n + sizeOf ((Part.optional o).flatMap Part.tokens)) ss := by
  cases o with
  | none => rfl
  | some t =>
    have hsize : sizeOf ((Part.optional (some t)).flatMap Part.tokens) = t.1.text.size := by
      simp [Part.optional, Part.tokens]
    rw [hsize]
    rfl

end

theorem Row.tokens_strips (r : Row) : r.strips.flatMap Strip.tokens = r.tokens := by
  cases r with
  | blank e => simp [strips, tokens, Ending.strips, Ending.parts]
  | command indent c e => simp [strips, tokens, Strip.tokens]

theorem tokens_rows (rows : List Row) :
    (rows.flatMap Row.strips).flatMap Strip.tokens = rows.flatMap Row.tokens := by
  rw [List.flatMap_assoc]
  exact List.flatMap_congr fun r _ => r.tokens_strips

/-! ### Ended rows are sound -/

/-- Only the last row may lack a line end. -/
theorem ended_cons {r : Row} {rows : List Row} :
    (∀ x ∈ (r :: rows).dropLast, x.ending.stop ≠ none) ↔
      (rows ≠ [] → r.ending.stop ≠ none) ∧ ∀ x ∈ rows.dropLast, x.ending.stop ≠ none := by
  cases rows with
  | nil => simp
  | cons r' rows => simp

/-- A row that lacks a line end has nothing behind it. -/
private theorem sound_row {r : Row} {ss : List Strip} {rest : List Token}
    (hr : r.ending.stop = none → ss.flatMap Strip.tokens ++ rest = []) (h : Sound ss rest) :
    Sound (r.strips ++ ss) rest := by
  cases r with
  | blank e => simpa [Row.strips, Ending.strips] using h
  | command indent c e =>
    rw [Row.strips, List.append_assoc, sound_optional]
    exact ⟨⟨c, e, rfl, hr⟩, h⟩

theorem sound_rows {rows : List Row} (h : ∀ r ∈ rows.dropLast, r.ending.stop ≠ none) :
    Sound (rows.flatMap Row.strips) [] := by
  induction rows with
  | nil => trivial
  | cons r rows ih =>
    obtain ⟨hfirst, hmore⟩ := ended_cons.mp h
    refine sound_row (fun hstop => ?_) (ih hmore)
    -- without a line end the row is the last one
    have hnil : rows = [] := by
      by_contra hne
      exact hfirst hne hstop
    rw [hnil]
    rfl

/-- Rows that all have a line end are sound, whatever comes behind. -/
theorem sound_stopped {rows : List Row} (h : ∀ r ∈ rows, r.ending.stop ≠ none)
    (rest : List Token) : Sound (rows.flatMap Row.strips) rest := by
  induction rows with
  | nil => trivial
  | cons r rows ih =>
    obtain ⟨hstop, hmore⟩ := List.forall_mem_cons.mp h
    exact sound_row (fun hnone => absurd hnone hstop) (ih hmore)

/-! ### Placed rows are nested -/

/-- What a further row does to being inside a section. -/
theorem inside_snoc {above : List Row} {r : Row} :
    Inside (above ++ [r]) ↔
      r.keyword = some .config ∨ (r.keyword = none ∨ r.IsEntry) ∧ Inside above := by
  constructor
  · rintro ⟨front, header, between, habove, hheader, hbetween⟩
    rcases List.eq_nil_or_concat between with rfl | ⟨between, last, rfl⟩
    · obtain ⟨-, hr⟩ := List.append_inj' habove rfl
      rw [(List.cons.inj hr).1]
      exact Or.inl hheader
    · rw [List.concat_eq_append] at habove hbetween
      have hsplit : above ++ [r] = (front ++ header :: between) ++ [last] := by simpa using habove
      obtain ⟨hfront, hr⟩ := List.append_inj' hsplit rfl
      rw [(List.cons.inj hr).1]
      exact Or.inr ⟨hbetween last (by simp), front, header, between, hfront, hheader,
        fun x hx => hbetween x (List.mem_append_left _ hx)⟩
  · rintro (hr | ⟨hr, front, header, between, rfl, hheader, hbetween⟩)
    · exact ⟨above, r, [], rfl, hr, List.forall_mem_nil _⟩
    · refine ⟨front, header, between ++ [r], by simp, hheader, ?_⟩
      intro x hx
      rcases List.mem_append.mp hx with hx | hx
      · exact hbetween x hx
      · rw [List.mem_singleton.mp hx]
        exact hr

/-- What a row does to being inside a section. -/
private def Row.inside : Row → Bool → Bool
  | blank _, inside => inside
  | command _ c _, inside =>
    match c.keyword with
    | .package => false
    | .config => true
    | .option | .list => inside

/-- Strips are nested row by row. -/
private theorem nested_row (r : Row) (inside : Bool) (ss : List Strip) :
    Nested inside (r.strips ++ ss) ↔
      (r.IsEntry → inside = true) ∧ Nested (r.inside inside) ss := by
  cases r with
  | blank e => simp [Row.strips, Ending.strips, Row.IsEntry, Row.keyword, Row.inside]
  | command indent c e =>
    rw [Row.strips, List.append_assoc, nested_optional, List.singleton_append, Nested]
    simp only [Command.clause, Row.IsEntry, Row.keyword, Row.inside]
    cases c.keyword <;> simp

/-- **Rows are nested if and only if every entry stands inside a section.** -/
theorem nested_iff_placed {above rows : List Row} {inside : Bool}
    (h : inside = true ↔ Inside above) :
    Nested inside (rows.flatMap Row.strips) ↔
      ∀ front r below, rows = front ++ r :: below → r.IsEntry → Inside (above ++ front) := by
  induction rows generalizing above inside with
  | nil =>
    refine iff_of_true trivial ?_
    intro front r below hnil
    simp at hnil
  | cons r rows ih =>
    have hstep : r.inside inside = true ↔ Inside (above ++ [r]) := by
      rw [inside_snoc, ← h]
      cases r with
      | blank e => simp [Row.inside, Row.keyword]
      | command indent c e =>
        simp only [Row.inside, Row.keyword, Row.IsEntry]
        cases c.keyword <;> simp
    rw [List.flatMap_cons, nested_row, ih hstep, h]
    constructor
    · rintro ⟨hfirst, hmore⟩ front x below hsplit hx
      rcases List.cons_eq_append_iff.mp hsplit with ⟨rfl, hcons⟩ | ⟨front, rfl, hrest⟩
      · rw [(List.cons.inj hcons).1] at hx
        rw [List.append_nil]
        exact hfirst hx
      · have hinside := hmore front x below hrest hx
        rwa [List.append_assoc] at hinside
    · intro hall
      refine ⟨fun hr => ?_, fun front x below hrest hx => ?_⟩
      · have hinside := hall [] r rows rfl hr
        rwa [List.append_nil] at hinside
      · have hinside := hall (r :: front) x below (by rw [hrest]; rfl) hx
        rwa [List.append_cons] at hinside

/-- No section is open at the beginning of a source. -/
private theorem not_inside_nil : false = true ↔ Inside [] := by
  refine iff_of_false Bool.false_ne_true ?_
  rintro ⟨front, header, between, hnil, -⟩
  simp at hnil

/-! ### Sound strips fall into rows -/

/-- No strip is empty. -/
theorem strips_eq_nil {ss : List Strip} (h : ss.flatMap Strip.tokens = []) : ss = [] := by
  cases ss with
  | nil => rfl
  | cons s ss => cases s <;> cases h

/-- What may stand behind the first token of the tokens of rows. -/
private theorem follows_row {t u : Token} {r : Row} {rows : List Row} {us : List Token}
    (hl : Lexed (t :: (r :: rows).flatMap Row.tokens)) (hr : r.tokens = u :: us) :
    Follows t u := by
  rw [List.flatMap_cons, hr] at hl
  exact hl.head

/-- Space before rows indents the first one. -/
private theorem exists_indented {t : Token} (ht : t.kind = .whitespace) {rows : List Row}
    (hl : Lexed (t :: rows.flatMap Row.tokens))
    (hended : ∀ r ∈ rows.dropLast, r.ending.stop ≠ none) :
    ∃ rows' : List Row, rows'.flatMap Row.strips =
        .trivia t (by rw [ht]; decide) :: rows.flatMap Row.strips ∧
      ∀ r ∈ rows'.dropLast, r.ending.stop ≠ none := by
  cases rows with
  | nil => exact ⟨[.blank ⟨some ⟨t, ht⟩, none, none⟩], rfl, List.forall_mem_nil _⟩
  | cons r rows =>
    have hno : ∀ u us, r.tokens = u :: us → u.kind ≠ .whitespace := fun u us hr =>
      (follows_row hl hr).space ht
    cases r with
    | blank e =>
      obtain ⟨space, comment, stop⟩ := e
      cases space with
      | none =>
        have hstops := ended_cons.mp hended
        refine ⟨.blank ⟨some ⟨t, ht⟩, comment, stop⟩ :: rows, ?_, ended_cons.mpr hstops⟩
        rfl
      | some s => exact absurd s.2 (hno s.1 _ rfl)
    | command indent c e =>
      cases indent with
      | none =>
        have hstops := ended_cons.mp hended
        refine ⟨.command (some ⟨t, ht⟩) c e :: rows, ?_, ended_cons.mpr hstops⟩
        rfl
      | some s => exact absurd s.2 (hno s.1 _ rfl)

/-- A comment before rows stands on the first one, which is blank. -/
private theorem exists_commented {t : Token} (ht : t.kind = .comment) {rows : List Row}
    (hl : Lexed (t :: rows.flatMap Row.tokens))
    (hended : ∀ r ∈ rows.dropLast, r.ending.stop ≠ none) :
    ∃ rows' : List Row, rows'.flatMap Row.strips =
        .trivia t (by rw [ht]; decide) :: rows.flatMap Row.strips ∧
      ∀ r ∈ rows'.dropLast, r.ending.stop ≠ none := by
  cases rows with
  | nil => exact ⟨[.blank ⟨none, some ⟨t, ht⟩, none⟩], rfl, List.forall_mem_nil _⟩
  | cons r rows =>
    have hno : ∀ u us, r.tokens = u :: us → u.kind = .newline ∨ u.kind = .unknown :=
      fun u us hr => (follows_row hl hr).comment ht
    cases r with
    | blank e =>
      obtain ⟨space, comment, stop⟩ := e
      cases space with
      | some s => have hs := hno s.1 _ rfl; simp [s.2] at hs
      | none =>
        cases comment with
        | some c => have hc := hno c.1 _ rfl; simp [c.2] at hc
        | none =>
          have hstops := ended_cons.mp hended
          refine ⟨.blank ⟨none, some ⟨t, ht⟩, stop⟩ :: rows, ?_, ended_cons.mpr hstops⟩
          rfl
    | command indent c e =>
      cases indent with
      | some s => have hs := hno s.1 _ rfl; simp [s.2] at hs
      | none => have hw := hno (wordToken c.keyword.text) _ rfl; simp [wordToken] at hw

/-- **Sound strips of a source fall into rows.** -/
theorem exists_rows {ss : List Strip} (hl : Lexed (ss.flatMap Strip.tokens)) (hs : Sound ss []) :
    ∃ rows : List Row, rows.flatMap Row.strips = ss ∧
      ∀ r ∈ rows.dropLast, r.ending.stop ≠ none := by
  induction ss with
  | nil => exact ⟨[], rfl, List.forall_mem_nil _⟩
  | cons s ss ih =>
    obtain ⟨hfirst, hmore⟩ := sound_cons.mp hs
    rw [List.append_nil] at hfirst
    rw [List.flatMap_cons] at hl
    obtain ⟨rows, rfl, hended⟩ := ih hl.of_append hmore
    rw [tokens_rows] at hl
    cases s with
    | trivia t ht =>
      cases hk : t.kind with
      | whitespace => exact exists_indented hk hl hended
      | comment => exact exists_commented hk hl hended
      | newline =>
        refine ⟨.blank ⟨none, none, some ⟨t, hk⟩⟩ :: rows, ?_,
          ended_cons.mpr ⟨fun _ => Option.some_ne_none _, hended⟩⟩
        rfl
      | _ =>
        rw [hk] at ht
        cases ht
    | clause c =>
      obtain ⟨⟨d, e, rfl, hclose⟩, -⟩ := hfirst
      by_cases hstop : e.stop = none
      · -- without a line end nothing stands behind
        have hnil : rows.flatMap Row.strips = [] := by
          have htokens := hclose hstop
          exact strips_eq_nil htokens
        rw [hnil]
        exact ⟨[.command none d e], rfl, List.forall_mem_nil _⟩
      · refine ⟨.command none d e :: rows, ?_, ended_cons.mpr ⟨fun _ => hstop, hended⟩⟩
        rfl

/-! ### What rows say is what their strips say -/

/-- The values among parts of a line. -/
private def partValues (o : Nat) (ps : List Part) : List Value := Tree.values o (ps.map Part.tree)

private theorem partValues_leaf (o : Nat) (t : Token) (ps : List Part) :
    partValues o (.leaf t :: ps) = partValues (o + t.text.size) ps := by
  show (Tree.located o (t.leaf :: ps.map Part.tree)).filterMap Tree.value? = _
  rw [Tree.located, List.filterMap_cons_none rfl, Token.text_leaf]
  rfl

private theorem contents_leaves (ts : List Token) :
    Tree.contents (ts.map Token.leaf) = ts.flatMap Token.content := List.flatMap_map ..

private theorem partValues_value (o : Nat) (v : Run) (ps : List Part) :
    partValues o (.value v :: ps) = v.value o :: partValues (o + sizeOf v.tokens) ps := by
  have hsize : Text.size (Part.tree (.value v)).text = sizeOf v.tokens := by
    rw [Tree.text, tokens_part]
    rfl
  show (Tree.located o (Part.tree (.value v) :: ps.map Part.tree)).filterMap Tree.value? = _
  rw [Tree.located, hsize, Run.value, ← contents_leaves]
  rfl

private theorem partValues_optional {k : Kind} (o : Nat) (t : Option (TokenOf k))
    (ps : List Part) :
    partValues o (Part.optional t ++ ps) =
      partValues (o + sizeOf ((Part.optional t).flatMap Part.tokens)) ps := by
  cases t with
  | none => rfl
  | some t =>
    have hsize : sizeOf ((Part.optional (some t)).flatMap Part.tokens) = t.1.text.size := by
      simp [Part.optional, Part.tokens]
    rw [hsize]
    exact partValues_leaf o t.1 ps

/-- An ending holds no values. -/
private theorem partValues_ending (o : Nat) (e : Ending) : partValues o e.parts = [] := by
  rw [Ending.parts, partValues_optional, partValues_optional]
  have hstop := partValues_optional
    (o + sizeOf ((Part.optional e.space).flatMap Part.tokens) +
      sizeOf ((Part.optional e.comment).flatMap Part.tokens)) e.stop []
  rwa [List.append_nil] at hstop

/-- **The values of a command.** -/
theorem values_clause (c : Command) (e : Ending) (o : Nat) :
    Tree.values o (c.clause e).trees = c.firstValue o :: (c.secondValue o).toList := by
  have hkeyword : Tree.values o (c.clause e).trees =
      partValues (o + Text.size c.keyword.text) (c.parts ++ e.parts) := by
    rw [Tree.values, Clause.trees, Tree.located, List.filterMap_cons_none rfl, Tree.text,
      Tree.tokens_token, List.flatMap_singleton]
    rfl
  rw [hkeyword, Command.parts, List.append_assoc, partValues_optional, List.cons_append,
    partValues_value]
  unfold Command.firstValue Command.secondValue Command.firstOffset
  cases c.second with
  | none =>
    rw [furtherParts, Option.toList_none, List.flatMap_nil, List.nil_append, partValues_ending]
    rfl
  | some v =>
    rw [furtherParts, Option.toList_some, List.flatMap_singleton, List.cons_append,
      partValues_leaf, List.cons_append, List.nil_append, partValues_value, partValues_ending]
    rfl

/-- **What rows say is what their strips say.** -/
theorem reading_rows (rows : List Row) (o : Nat) :
    reading o (rows.flatMap Row.strips) = listing o rows := by
  induction rows generalizing o with
  | nil => rfl
  | cons r rows ih =>
    rw [List.flatMap_cons]
    cases r with
    | blank e =>
      rw [Row.strips, Ending.strips, List.append_assoc, List.append_assoc, reading_optional,
        reading_optional, reading_optional, ih, listing, Ending.parts]
      simp [Nat.add_assoc]
    | command indent c e =>
      rw [Row.strips, List.append_assoc, reading_optional, List.singleton_append, reading, ih,
        listing]
      simp only [values_clause]
      have hkeyword : (c.clause e).keyword = c.keyword := rfl
      rw [hkeyword]
      cases c.keyword <;> cases c.secondValue _ <;> rfl

/-! ### The main result -/

/-- Rows that are ended and nested are read without an error, and say what they list. -/
theorem parse_rows {t : Text} {rows : List Row}
    (hended : ∀ r ∈ rows.dropLast, r.ending.stop ≠ none)
    (hnested : Nested false (rows.flatMap Row.strips))
    (htokens : Token.ofText t = rows.flatMap Row.tokens) :
    (parse t).errors = [] ∧ (parse t).items = (listing 0 rows).2 := by
  rw [← tokens_rows] at htokens
  have hparse := parse_strips htokens (sound_rows hended) hnested
  rwa [reading_rows] at hparse

theorem parse_accepted {t : Text} {rows : List Row} (h : Accepted rows)
    (htokens : Token.ofText t = rows.flatMap Row.tokens) :
    (parse t).errors = [] ∧ (parse t).items = (listing 0 rows).2 :=
  parse_rows h.ended ((nested_iff_placed not_inside_nil).mpr h.placed) htokens

/-- A text that is read without an error falls into accepted rows. -/
theorem exists_accepted {t : Text} (herrors : (parse t).errors = []) :
    ∃ rows, Accepted rows ∧ Token.ofText t = rows.flatMap Row.tokens := by
  obtain ⟨os, errs, -, -, hparse, hsound⟩ := exists_parse t
  rw [hparse] at herrors
  obtain ⟨htokens, hs⟩ := hsound herrors
  obtain ⟨rows, hrows, hended⟩ := exists_rows (htokens ▸ lexed_ofText t) hs
  have hnested : Nested false (rows.flatMap Row.strips) := hrows ▸ nested_outers os false
  refine ⟨rows, ⟨hended, (nested_iff_placed not_inside_nil).mp hnested⟩, ?_⟩
  rw [htokens, ← hrows, tokens_rows]

/-- **A text is read without an error if and only if it falls into accepted rows.**  All that its
rows say is then listed, in order: every statement with its values, options and lists in the
section of the nearest `config` above. -/
theorem parse_accepts (t : Text) :
    ((parse t).errors = [] ↔
        ∃ rows, Accepted rows ∧ Token.ofText t = rows.flatMap Row.tokens) ∧
      ∀ rows, Accepted rows → Token.ofText t = rows.flatMap Row.tokens →
        (parse t).items = (listing 0 rows).2 := by
  refine ⟨⟨exists_accepted, ?_⟩, fun rows hrows htokens => (parse_accepted hrows htokens).2⟩
  rintro ⟨rows, hrows, htokens⟩
  exact (parse_accepted hrows htokens).1

end Syntax
end Uci
