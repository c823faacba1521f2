import Uci.Proofs.Syntax.Acceptance
import Uci.Proofs.Syntax.Lexing

/-!
# Scripts

A script is what a configuration text says, without spacing, comments and quotes, and
without the places of its values: packages, and blocks of lines under their headers.
Every script whose bare words are words has a written form, and what is written is read:
without an error, and as the same script.

## Main definitions

* `Line`, `Block`, `Statement` — what a script is made of, with its written form.
* `Item.statement?` — what an item of a source says.
* `Statement.rows` — the rows of the written form.

## Main results

* `ofText_statements` — the tokens of a written script are those of its rows.
* `listing_statements` — the rows of a script say what it says.
* `parse_statements` — **what is written is read**.
-/

namespace Uci
namespace Syntax

/-- **Line** below a header. -/
inductive Line where
  | option (name value : Text)
  /-- A list, with one of its values or with none. -/
  | list (name : Text) (value : Option Text)
  deriving DecidableEq, Repr

/-- **Block**: a header with the lines below it.  It may lack a name. -/
structure Block where
  type : Text
  name : Option Text
  lines : List Line
  deriving DecidableEq, Repr

/-- **Statement** of a script. -/
inductive Statement where
  | package (name : Text)
  | block (b : Block)
  deriving DecidableEq, Repr

/-! ### What the items of a source say -/

/-- What an entry says.  An entry that lacks a piece says nothing. -/
def Entry.line? : Entry → Option Line
  | .option (some name) (some value) => some (.option name.text value.text)
  | .list (some name) value => some (.list name.text (value.map Value.text))
  | _ => none

/-- What an item of a source says. -/
def Item.statement? : Item → Option Statement
  | .package name => name.map fun v => .package v.text
  | .section body => body.type.map fun v =>
    .block ⟨v.text, body.name.map Value.text, body.entries.filterMap Entry.line?⟩

/-- **The script of a source.** -/
def Parse.script (p : Parse) : List Statement := p.items.filterMap Item.statement?

/-- An item that lacks no piece: it has its name or its type, and every entry says a line. -/
def Item.Complete : Item → Prop
  | .package name => name.isSome = true
  | .section body => body.type.isSome = true ∧ ∀ e ∈ body.entries, e.line?.isSome = true

/-! ### Sources without errors -/

/-- Rows list nothing that lacks a piece. -/
private theorem complete_listing (rows : List Row) (o : Nat) :
    (∀ e ∈ (listing o rows).1, e.line?.isSome = true) ∧
      ∀ i ∈ (listing o rows).2, i.Complete := by
  induction rows generalizing o with
  | nil => exact ⟨List.forall_mem_nil _, List.forall_mem_nil _⟩
  | cons r rows ih =>
    cases r with
    | blank e => exact ih _
    | command indent c e =>
      obtain ⟨hentries, hitems⟩ := ih (o + sizeOf ((Part.optional indent).flatMap Part.tokens) +
        sizeOf (c.clause e).tokens)
      rw [listing]
      cases hk : c.keyword with
      | package => exact ⟨List.forall_mem_nil _, List.forall_mem_cons.mpr ⟨rfl, hitems⟩⟩
      | config =>
        exact ⟨List.forall_mem_nil _, List.forall_mem_cons.mpr ⟨⟨rfl, hentries⟩, hitems⟩⟩
      | option =>
        -- an option has both its values
        have hsecond : c.second.isSome = true := by simpa [hk, Keyword.fits] using c.fits
        obtain ⟨v, hv⟩ := Option.isSome_iff_exists.mp hsecond
        simp only [Command.secondValue, hv, Option.map_some]
        exact ⟨List.forall_mem_cons.mpr ⟨rfl, hentries⟩, hitems⟩
      | list => exact ⟨List.forall_mem_cons.mpr ⟨rfl, hentries⟩, hitems⟩

/-- **A text without errors lacks no piece.** -/
theorem complete_of_errors {t : Text} (herrors : (parse t).errors = []) :
    ∀ i ∈ (parse t).items, i.Complete := by
  obtain ⟨rows, hrows, htokens⟩ := exists_accepted herrors
  rw [(parse_accepted hrows htokens).2]
  exact (complete_listing rows 0).2

/-! ### Written lines -/

/-- **Argument** of a statement: a bare word or a quoted value. -/
inductive Argument : Token → Prop
  | word {w : Text} : isWord w = true → Argument (wordToken w)
  | quote (v : Text) : Argument (quoteToken v)

/-- A keyword with its arguments, on a line of its own. -/
def written (k : Keyword) (args : List Token) : Text :=
  k.text ++ args.flatMap (fun t => ' ' :: t.text) ++ ['\n']

/-- The tokens of such a line. -/
def lineTokens (k : Keyword) (args : List Token) : List Token :=
  wordToken k.text :: args.flatMap (fun t => [⟨.whitespace, [' ']⟩, t]) ++ [⟨.newline, ['\n']⟩]

theorem isWord_text (k : Keyword) : isWord k.text = true := by cases k <;> decide

/-- The arguments of a line are read as such, up to its end. -/
private theorem ofText_args {args : List Token} (h : ∀ t ∈ args, Argument t) (r : Text) :
    Stops isWordChar (args.flatMap (fun t => ' ' :: t.text) ++ '\n' :: r) ∧
      Token.ofText (args.flatMap (fun t => ' ' :: t.text) ++ '\n' :: r) =
        args.flatMap (fun t => [⟨.whitespace, [' ']⟩, t]) ++ ⟨.newline, ['\n']⟩ ::
          Token.ofText r := by
  induction args with
  | nil => exact ⟨stops_cons (by decide), ofText_newline r⟩
  | cons t args ih =>
    obtain ⟨ht, hargs⟩ := List.forall_mem_cons.mp h
    obtain ⟨hstop, hof⟩ := ih hargs
    refine ⟨stops_cons (by decide), ?_⟩
    simp only [List.flatMap_cons, List.cons_append, List.append_assoc, List.nil_append]
    -- a word ends at the space or the line feed behind it, a quoted value at its quote
    cases ht with
    | @word w hw =>
      show Token.ofText (' ' :: (w ++ _)) = _
      rw [ofText_spacing (by decide) (stops_word hw _), ofText_word hw hstop, hof]
      rfl
    | quote v =>
      show Token.ofText (' ' :: (quote v ++ _)) = _
      rw [ofText_spacing (by decide) (stops_quote v _), ofText_quote, hof]

theorem ofText_written {args : List Token} (h : ∀ t ∈ args, Argument t) (k : Keyword) (r : Text) :
    Token.ofText (written k args ++ r) = lineTokens k args ++ Token.ofText r := by
  obtain ⟨hstop, hof⟩ := ofText_args h r
  unfold written lineTokens
  rw [List.append_assoc, List.append_assoc]
  show Token.ofText (k.text ++ (_ ++ '\n' :: r)) = _
  rw [ofText_word (isWord_text k) hstop, hof]
  simp [wordToken]

/-! ### Pieces of a row -/

/-- The value that a bare word is. -/
def Run.word (w : Text) : Run where
  tokens := [wordToken w]
  ne_nil := List.cons_ne_nil _ _
  isValuePart t ht := by
    rw [List.mem_singleton.mp ht]
    rfl

/-- The value between quotes. -/
def Run.quoted (v : Text) : Run where
  tokens := [quoteToken v]
  ne_nil := List.cons_ne_nil _ _
  isValuePart t ht := by
    rw [List.mem_singleton.mp ht]
    exact isValuePart_quoteKind v

theorem text_value_word (w : Text) (o : Nat) : ((Run.word w).value o).text = w :=
  List.append_nil w

theorem text_value_quoted (v : Text) (o : Nat) : ((Run.quoted v).value o).text = v :=
  (List.append_nil _).trans (content_quote v)

/-- A single space, and the tab in front of a line. -/
def space : TokenOf .whitespace := ⟨⟨.whitespace, [' ']⟩, rfl⟩

def tab : TokenOf .whitespace := ⟨⟨.whitespace, ['\t']⟩, rfl⟩

/-- A line feed and nothing else. -/
def lineFeed : Ending := ⟨none, none, some ⟨⟨.newline, ['\n']⟩, rfl⟩⟩

/-! ### Written scripts -/

namespace Line

def keyword : Line → Keyword
  | option _ _ => .option
  | list _ _ => .list

/-- The pieces behind the keyword. -/
def args : Line → List Token
  | option name value => [wordToken name, quoteToken value]
  | list name value => wordToken name :: (value.map quoteToken).toList

/-- The name can be written as a bare word. -/
def Writable : Line → Prop
  | option name _ | list name _ => isWord name = true

instance : (l : Line) → Decidable l.Writable
  | option name _ => inferInstanceAs (Decidable (isWord name = true))
  | list name _ => inferInstanceAs (Decidable (isWord name = true))

/-- The written form, which is indented. -/
def text (l : Line) : Text := '\t' :: written l.keyword l.args

def command : Line → Command
  | option name value =>
    ⟨.option, some space, .word name, some (space, .quoted value), rfl⟩
  | list name value =>
    ⟨.list, some space, .word name, value.map fun v => (space, .quoted v), rfl⟩

/-- The row of the written form. -/
def row (l : Line) : Row := .command (some tab) l.command lineFeed

theorem argument {l : Line} (h : l.Writable) : ∀ t ∈ l.args, Argument t := by
  intro t ht
  cases l with
  | option name value =>
    simp only [args, List.mem_cons, List.not_mem_nil, or_false] at ht
    rcases ht with rfl | rfl
    · exact .word h
    · exact .quote value
  | list name value =>
    rcases List.mem_cons.mp ht with rfl | ht
    · exact .word h
    · cases value with
      | none => cases ht
      | some v =>
        rw [List.mem_singleton.mp ht]
        exact .quote v

theorem tokens_row (l : Line) :
    l.row.tokens = ⟨.whitespace, ['\t']⟩ :: lineTokens l.keyword l.args := by
  cases l with
  | option name value => rfl
  | list name value => cases value <;> rfl

theorem ofText_text {l : Line} (h : l.Writable) (r : Text) :
    Token.ofText (l.text ++ r) = l.row.tokens ++ Token.ofText r := by
  rw [text, tokens_row]
  have hstop : Stops isSpacing (written l.keyword l.args ++ r) := by
    unfold written
    rw [List.append_assoc, List.append_assoc]
    exact stops_word (isWord_text _) _
  rw [List.cons_append, ofText_spacing (by decide) hstop, ofText_written (argument h)]
  rfl

end Line

namespace Block

/-- The pieces of the header behind the keyword. -/
def args (b : Block) : List Token := wordToken b.type :: (b.name.map quoteToken).toList

/-- The type and the names of the lines can be written as bare words. -/
def Writable (b : Block) : Prop := isWord b.type = true ∧ ∀ l ∈ b.lines, l.Writable

instance (b : Block) : Decidable b.Writable := inferInstanceAs (Decidable (_ ∧ _))

/-- The written form: the header, the lines, and a blank line behind them. -/
def text (b : Block) : Text := written .config b.args ++ b.lines.flatMap Line.text ++ ['\n']

def command (b : Block) : Command :=
  ⟨.config, some space, .word b.type, b.name.map fun n => (space, .quoted n), rfl⟩

/-- The rows of the written form. -/
def rows (b : Block) : List Row :=
  .command none b.command lineFeed :: (b.lines.map Line.row ++ [.blank lineFeed])

theorem tokens_command (b : Block) :
    (b.command.clause lineFeed).tokens = lineTokens .config b.args := by
  obtain ⟨type, name, lines⟩ := b
  cases name <;> rfl

theorem argument {b : Block} (h : b.Writable) : ∀ t ∈ b.args, Argument t := by
  intro t ht
  rcases List.mem_cons.mp ht with rfl | ht
  · exact .word h.1
  · cases hn : b.name with
    | none =>
      rw [hn] at ht
      cases ht
    | some n =>
      rw [hn] at ht
      rw [List.mem_singleton.mp ht]
      exact .quote n

theorem ofText_lines {lines : List Line} (h : ∀ l ∈ lines, l.Writable) (r : Text) :
    Token.ofText (lines.flatMap Line.text ++ r) =
      (lines.map Line.row).flatMap Row.tokens ++ Token.ofText r := by
  induction lines with
  | nil => rfl
  | cons l lines ih =>
    obtain ⟨hl, hlines⟩ := List.forall_mem_cons.mp h
    rw [List.flatMap_cons, List.map_cons, List.flatMap_cons, List.append_assoc,
      Line.ofText_text hl, ih hlines, List.append_assoc]

theorem ofText_text {b : Block} (h : b.Writable) (r : Text) :
    Token.ofText (b.text ++ r) = b.rows.flatMap Row.tokens ++ Token.ofText r := by
  have hrows : b.rows.flatMap Row.tokens = lineTokens .config b.args ++
      ((b.lines.map Line.row).flatMap Row.tokens ++ [⟨.newline, ['\n']⟩]) := by
    rw [rows, List.flatMap_cons, List.flatMap_append, ← tokens_command]
    rfl
  rw [hrows, text, List.append_assoc, List.append_assoc, ofText_written (argument h),
    ofText_lines h.2, List.singleton_append, ofText_newline]
  simp

end Block

namespace Statement

def Writable : Statement → Prop
  | package name => isWord name = true
  | block b => b.Writable

instance : (s : Statement) → Decidable s.Writable
  | package name => inferInstanceAs (Decidable (isWord name = true))
  | block b => inferInstanceAs (Decidable b.Writable)

/-- The written form, with a blank line behind it. -/
def text : Statement → Text
  | package name => written .package [wordToken name] ++ ['\n']
  | block b => b.text

def packageCommand (name : Text) : Command := ⟨.package, some space, .word name, none, rfl⟩

/-- **The rows of the written form.** -/
def rows : Statement → List Row
  | package name => [.command none (packageCommand name) lineFeed, .blank lineFeed]
  | block b => b.rows

theorem ofText_text {s : Statement} (h : s.Writable) (r : Text) :
    Token.ofText (s.text ++ r) = s.rows.flatMap Row.tokens ++ Token.ofText r := by
  cases s with
  | package name =>
    have hargs : ∀ t ∈ [wordToken name], Argument t := by
      intro t ht
      rw [List.mem_singleton.mp ht]
      exact .word h
    rw [text, List.append_assoc, ofText_written hargs, List.singleton_append, ofText_newline]
    rfl
  | block b => exact Block.ofText_text h r

/-- **The tokens of a written script.** -/
theorem ofText_statements {sts : List Statement} (h : ∀ s ∈ sts, s.Writable) :
    Token.ofText (sts.flatMap text) = (sts.flatMap rows).flatMap Row.tokens := by
  induction sts with
  | nil => exact Token.ofText_nil
  | cons s sts ih =>
    obtain ⟨hs, hsts⟩ := List.forall_mem_cons.mp h
    rw [List.flatMap_cons, ofText_text hs, ih hsts, List.flatMap_cons, List.flatMap_append]

end Statement

/-! ### Where the rows stand -/

/-- Every row of a written script has its line end. -/
theorem stop_rows (sts : List Statement) : ∀ r ∈ sts.flatMap Statement.rows,
    r.ending = lineFeed := by
  intro r hr
  obtain ⟨s, -, hr⟩ := List.mem_flatMap.mp hr
  cases s with
  | package name =>
    simp only [Statement.rows, List.mem_cons, List.not_mem_nil, or_false] at hr
    rcases hr with rfl | rfl <;> rfl
  | block b =>
    simp only [Statement.rows, Block.rows, List.mem_cons, List.mem_append, List.mem_map,
      List.not_mem_nil, or_false] at hr
    rcases hr with rfl | ⟨l, -, rfl⟩ | rfl <;> rfl

/-- The lines of a block stand in its section. -/
private theorem nested_lines (lines : List Line) {ss : List Strip} (h : Nested true ss) :
    Nested true ((lines.map Line.row).flatMap Row.strips ++ ss) := by
  induction lines with
  | nil => exact h
  | cons l lines ih =>
    cases l with
    | option name value => exact ⟨rfl, ih⟩
    | list name value => exact ⟨rfl, ih⟩

/-- Every line of a written script stands in a section. -/
theorem nested_statements (sts : List Statement) (inside : Bool) :
    Nested inside ((sts.flatMap Statement.rows).flatMap Row.strips) := by
  induction sts generalizing inside with
  | nil => trivial
  | cons s sts ih =>
    rw [List.flatMap_cons, List.flatMap_append]
    cases s with
    | package name => exact ih false
    | block b =>
      rw [Statement.rows, Block.rows, List.flatMap_cons, List.flatMap_append, List.append_assoc,
        List.append_assoc]
      exact nested_lines b.lines (ih true)

/-! ### What was read says what was written -/

/-- A written line lists an entry that says the line. -/
private theorem listing_row (l : Line) (rows : List Row) (o : Nat) :
    ∃ o' entry, listing o (l.row :: rows) =
        (entry :: (listing o' rows).1, (listing o' rows).2) ∧ entry.line? = some l := by
  cases l with
  | option name value =>
    refine ⟨_, _, rfl, ?_⟩
    simp only [Command.firstValue, Command.secondValue, Line.command, Option.map_some, Entry.line?,
      text_value_word, text_value_quoted]
  | list name value =>
    refine ⟨_, _, rfl, ?_⟩
    cases value with
    | none =>
      simp only [Command.firstValue, Command.secondValue, Line.command, Option.map_none,
        Entry.line?, text_value_word]
    | some v =>
      simp only [Command.firstValue, Command.secondValue, Line.command, Option.map_some,
        Entry.line?, text_value_word, text_value_quoted]

/-- The lines of a block come first in what its rows list. -/
private theorem listing_lines (lines : List Line) (rows : List Row) (o : Nat) :
    ∃ o', (listing o (lines.map Line.row ++ rows)).1.filterMap Entry.line? =
        lines ++ (listing o' rows).1.filterMap Entry.line? ∧
      (listing o (lines.map Line.row ++ rows)).2 = (listing o' rows).2 := by
  induction lines generalizing o with
  | nil => exact ⟨o, rfl, rfl⟩
  | cons l lines ih =>
    obtain ⟨o', entry, hlisting, hentry⟩ := listing_row l (lines.map Line.row ++ rows) o
    obtain ⟨o'', hlines, hitems⟩ := ih o'
    rw [List.map_cons, List.cons_append, hlisting]
    refine ⟨o'', ?_, hitems⟩
    rw [List.filterMap_cons_some hentry, hlines]
    rfl

/-- A written block lists a section that says the block, in front of what follows. -/
private theorem listing_block (b : Block) (rows : List Row) (o : Nat)
    (hrows : ∀ o, (listing o rows).1 = []) :
    ∃ o' item, listing o (b.rows ++ rows) = ([], item :: (listing o' rows).2) ∧
      item.statement? = some (.block b) := by
  have hvalues : ∀ n, (b.command.firstValue n).text = b.type ∧
      (b.command.secondValue n).map Value.text = b.name := by
    obtain ⟨type, name, lines⟩ := b
    intro n
    refine ⟨text_value_word .., ?_⟩
    cases name with
    | none => rfl
    | some n => exact congrArg some (text_value_quoted ..)
  obtain ⟨n, m, header, hlisting⟩ : ∃ n m header, listing o (b.rows ++ rows) =
      ([], .section ⟨some (b.command.firstValue n), b.command.secondValue n, header,
          (listing m (b.lines.map Line.row ++ .blank lineFeed :: rows)).1⟩ ::
        (listing m (b.lines.map Line.row ++ .blank lineFeed :: rows)).2) := by
    rw [Block.rows, List.cons_append, List.append_assoc, List.singleton_append]
    exact ⟨_, _, _, rfl⟩
  obtain ⟨o', hlines, hitems⟩ := listing_lines b.lines (.blank lineFeed :: rows) m
  rw [listing, hrows, List.filterMap_nil, List.append_nil] at hlines
  rw [listing] at hitems
  rw [hlisting, hitems]
  refine ⟨_, _, rfl, ?_⟩
  rw [Item.statement?, Option.map_some, (hvalues n).1, (hvalues n).2, hlines]

/-- **The rows of a written script say what it says.** -/
theorem listing_statements (sts : List Statement) (o : Nat) :
    (listing o (sts.flatMap Statement.rows)).1 = [] ∧
      (listing o (sts.flatMap Statement.rows)).2.filterMap Item.statement? = sts := by
  induction sts generalizing o with
  | nil => exact ⟨rfl, rfl⟩
  | cons s sts ih =>
    rw [List.flatMap_cons]
    cases s with
    | package name =>
      refine ⟨rfl, ?_⟩
      have hpackage : ∀ o, (listing o (Statement.rows (.package name) ++
          sts.flatMap Statement.rows)).2.filterMap Item.statement? = .package name :: sts := by
        intro o
        rw [Statement.rows, List.cons_append, List.singleton_append, listing, listing]
        simp only [Statement.packageCommand, Command.firstValue]
        rw [List.filterMap_cons_some (b := .package name), (ih _).2]
        simp only [Item.statement?, Option.map_some, text_value_word]
      exact hpackage o
    | block b =>
      obtain ⟨o', item, hlisting, hitem⟩ :=
        listing_block b (sts.flatMap Statement.rows) o fun o => (ih o).1
      rw [Statement.rows, hlisting]
      refine ⟨rfl, ?_⟩
      rw [List.filterMap_cons_some hitem, (ih o').2]

/-- **What is written is read**: a script of which all names that are not quoted are words is
read without an error, and as the same script. -/
theorem parse_statements {sts : List Statement} (h : ∀ s ∈ sts, s.Writable) :
    (parse (sts.flatMap Statement.text)).errors = [] ∧
      (parse (sts.flatMap Statement.text)).items.filterMap Item.statement? = sts := by
  have hended : ∀ r ∈ (sts.flatMap Statement.rows).dropLast, r.ending.stop ≠ none := by
    intro r hr
    rw [stop_rows sts r ((List.dropLast_sublist _).subset hr)]
    nofun
  obtain ⟨herrors, hitems⟩ := parse_rows hended (nested_statements sts false)
    (Statement.ofText_statements h)
  rw [hitems]
  exact ⟨herrors, (listing_statements sts 0).2⟩

end Syntax
end Uci
