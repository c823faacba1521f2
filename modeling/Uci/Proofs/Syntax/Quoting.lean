import Uci.Proofs.Syntax.Splicing

/-!
# Quoted values, one behind the other

The written forms of values can be put one behind the other, with nothing between them and any
text behind them.  Each stays a token of its own, and together they are one value, which stands
for the values put together.

## Main definitions

* `Run.quotes` — the value that is made of quoted values.
* `optionLine` — an `option` line of which the value is written so.
* `QuotesUndone` — **what becomes of quoted values in a text.**

## Main results

* `ofText_quotes` — each quoted value is one token.
* `ofText_optionLine` — the tokens of such a line, whatever follows.
* `quotesUndone` — **quoting is undone by reading**, in any text.
-/

namespace Uci
namespace Syntax

/-- **Each quoted value is one token**, and what follows is read as if it stood alone. -/
theorem ofText_quotes (vs : List Text) (r : Text) :
    Token.ofText (vs.flatMap quote ++ r) = vs.map quoteToken ++ Token.ofText r := by
  induction vs with
  | nil => rfl
  | cons v vs ih => rw [List.flatMap_cons, List.append_assoc, ofText_quote, ih]; rfl

theorem quoteKind_eq (v : Text) :
    quoteKind v = .singleQuoted ∨ quoteKind v = .doubleQuoted := by
  unfold quoteKind
  split
  · exact Or.inr rfl
  · exact Or.inl rfl

/-- The value that is made of quoted values. -/
def Run.quotes (vs : List Text) (h : vs ≠ []) : Run where
  tokens := vs.map quoteToken
  ne_nil := by simpa using h
  isValuePart := by
    intro t ht
    obtain ⟨v, -, rfl⟩ := List.mem_map.mp ht
    exact isValuePart_quoteKind v

/-- It stands for the values put together. -/
theorem text_quotes (vs : List Text) (h : vs ≠ []) : (Run.quotes vs h).text = vs.flatten := by
  have hcontent : ∀ vs : List Text, (vs.map quoteToken).flatMap Token.content = vs.flatten := by
    intro vs
    induction vs with
    | nil => rfl
    | cons v vs ih =>
      rw [List.map_cons, List.flatMap_cons, content_quote, ih, List.flatten_cons]
  exact hcontent vs

/-! ### An option with such a value -/

/-- An `option` line of which the value is written as quoted values. -/
def optionLine (name : Text) (vs : List Text) : Text :=
  Keyword.option.text ++ ' ' :: name ++ ' ' :: vs.flatMap quote ++ ['\n']

/-- The row of such a line. -/
def optionRow (name : Text) (vs : List Text) (h : vs ≠ []) : Row :=
  .command none ⟨.option, some space, .word name, some (space, .quotes vs h), rfl⟩ lineFeed

/-- What quoted values begin with is no space. -/
private theorem stops_quotes {vs : List Text} (h : vs ≠ []) (r : Text) :
    Stops isSpacing (vs.flatMap quote ++ r) := by
  obtain ⟨v, vs, rfl⟩ := List.exists_cons_of_ne_nil h
  rw [List.flatMap_cons, List.append_assoc]
  exact stops_quote v _

/-- **The tokens of the line**, whatever follows. -/
theorem ofText_optionLine {name : Text} (hname : isWord name = true) {vs : List Text}
    (h : vs ≠ []) (r : Text) :
    Token.ofText (optionLine name vs ++ r) = (optionRow name vs h).tokens ++ Token.ofText r := by
  have hline : optionLine name vs ++ r =
      Keyword.option.text ++ ' ' :: (name ++ ' ' :: (vs.flatMap quote ++ '\n' :: r)) := by
    simp [optionLine]
  rw [hline, ofText_word (isWord_text .option) (stops_cons (by decide)),
    ofText_spacing (by decide) (stops_word hname _), ofText_word hname (stops_cons (by decide)),
    ofText_spacing (by decide) (stops_quotes h _), ofText_quotes, ofText_newline]
  simp [optionRow, Row.tokens, Command.clause, Clause.tokens, Command.parts, furtherParts,
    Part.optional, Part.tokens, Ending.parts, lineFeed, space, Run.word, Run.quotes, wordToken]

/-- The line says that the option has the values put together. -/
theorem saying_optionRow (name : Text) {vs : List Text} (h : vs ≠ []) (rows : List Row) :
    saying (optionRow name vs h :: rows) =
      (.option name vs.flatten :: (saying rows).1, (saying rows).2) := by
  have hname : (Run.word name).text = name := List.append_nil name
  rw [optionRow, saying]
  simp only [Command.secondText, Option.map_some, Option.toList_some, List.singleton_append, hname,
    text_quotes]

/-! ### Both ways to read them -/

/-- **What becomes of quoted values in a text.** -/
structure QuotesUndone (vs : List Text) : Prop where
  /-- Each of them is a quoted token, and what follows is cut as if it stood alone. -/
  tokens : ∀ r, ∃ ts, Token.ofText (vs.flatMap quote ++ r) = ts ++ Token.ofText r ∧
    ts.map Token.text = vs.map quote ∧
    ∀ u ∈ ts, u.kind = .singleQuoted ∨ u.kind = .doubleQuoted
  /-- As the value of an option that is put into an open section they are read without an error,
  and as the values put together.  Nothing else changes. -/
  value : ∀ before after name sts b, Ended (Token.ofText before) →
    (parse before).script = sts ++ [.block b] → (parse (before ++ after)).errors = [] →
    isWord name = true →
    (parse (before ++ optionLine name vs ++ after)).errors = [] ∧ ∃ more sts',
      (parse (before ++ after)).script =
        sts ++ .block { b with lines := b.lines ++ more } :: sts' ∧
      (parse (before ++ optionLine name vs ++ after)).script =
        sts ++ .block { b with lines := b.lines ++ .option name vs.flatten :: more } :: sts'

/-- **Quoting is undone by reading**, for any values one behind the other and in any text. -/
theorem quotesUndone {vs : List Text} (h : vs ≠ []) : QuotesUndone vs where
  tokens := by
    intro r
    refine ⟨vs.map quoteToken, ofText_quotes vs r, ?_, ?_⟩
    · rw [List.map_map]
      rfl
    · intro u hu
      obtain ⟨v, -, rfl⟩ := List.mem_map.mp hu
      exact quoteKind_eq v
  value := by
    intro before after name sts b hended hopen herrors hname
    have hstop : (optionRow name vs h).ending.stop ≠ none := Option.some_ne_none _
    exact script_insert hended hopen herrors (Or.inl rfl) hstop (ofText_optionLine hname h)
      (saying_optionRow name h)

/-- Both kinds of quotes, with a line feed, quotes and backslashes between them, in the section
before a package. -/
theorem quotesUndone_bothKinds :
    let vs := ["it's \\".toList, "\"\n\\".toList]
    let t := "config t\n\noption x \"it's \\\\\"'\"\n\\'\npackage p\n\n".toList
    vs ≠ [] ∧ QuotesUndone vs ∧ (parse t).errors = [] ∧ (parse t).script =
      [.block ⟨['t'], none, [.option ['x'] "it's \\\"\n\\".toList]⟩, .package ['p']] := by
  intro vs t
  have hne : vs ≠ [] := List.cons_ne_nil _ _
  have hundone : QuotesUndone vs := quotesUndone hne
  refine ⟨hne, hundone, ?_⟩
  -- the text without the option is the written form of a script
  let opened : List Statement := [.block ⟨['t'], none, []⟩]
  let whole : List Statement := [.block ⟨['t'], none, []⟩, .package ['p']]
  have hopened : "config t\n\n".toList = opened.flatMap Statement.text := by decide +kernel
  have hwhole : "config t\n\n".toList ++ "package p\n\n".toList =
      whole.flatMap Statement.text := by decide +kernel
  have htext : t = "config t\n\n".toList ++ optionLine ['x'] vs ++ "package p\n\n".toList := by
    decide +kernel
  have hopenedw : ∀ st ∈ opened, st.Writable := by decide +kernel
  have hwholew : ∀ st ∈ whole, st.Writable := by decide +kernel
  have hopen := (parse_statements hopenedw).2
  obtain ⟨herrors, hscript⟩ := parse_statements hwholew
  have hended : Ended (Token.ofText "config t\n\n".toList) := by
    rw [hopened, Statement.ofText_statements hopenedw]
    rintro u ⟨⟩
    rfl
  rw [← hopened] at hopen
  rw [← hwhole] at herrors hscript
  obtain ⟨hnew, more, sts, hold, hread⟩ :=
    hundone.value _ _ ['x'] [] ⟨['t'], none, []⟩ hended hopen herrors (by decide)
  have hsame : [.block ⟨['t'], none, []⟩, .package ['p']] =
      Statement.block ⟨['t'], none, more⟩ :: sts := hscript.symm.trans hold
  cases hsame
  rw [htext]
  exact ⟨hnew, hread⟩

end Syntax
end Uci
