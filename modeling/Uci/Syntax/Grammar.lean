import Uci.Syntax.Parser

/-!
# Grammar

Configuration text is made of lines. A line is blank, or it holds one statement:

```text
package <name>
config  <type> [<name>]
    option <name> <value>
    list   <name> [<value>]
```

The `option` and `list` lines below a `config` line belong to its section. Space
and a comment may stand at the end of a line, blank lines anywhere. The keywords
are keywords only at the start of a statement.

Whatever a line holds, the rules read to its end and no further
(`rest_statement` lemmas below), so that an error in one line leaves the next one
to be read from its start. Only a line that is no statement ends the section above
it. What a rule cannot make sense of goes into an `error` node.

* `Parser.root` — the rule for a whole source.
* `parse` — a source to its tree and its errors.
-/

namespace Uci
namespace Syntax

/-- The words that begin a statement. -/
inductive Keyword where
  | package
  | config
  | option
  | list
  deriving DecidableEq, Repr

namespace Keyword

/-- The word as it is written. -/
def text : Keyword → Text
  | package => "package".toList
  | config => "config".toList
  | option => "option".toList
  | list => "list".toList

/-- The kind the word has at the start of a statement. -/
def kind : Keyword → Kind
  | package => .packageKeyword
  | config => .configKeyword
  | option => .optionKeyword
  | list => .listKeyword

end Keyword

/-- The tokens behind the end of the line. -/
def afterLine (ts : List Token) : List Token := (ts.dropWhile fun t => t.kind ≠ .newline).tail

theorem length_afterLine_lt {ts : List Token} (h : ts ≠ []) :
    (afterLine ts).length < ts.length := by
  have hle : (ts.dropWhile fun t => t.kind ≠ .newline).length ≤ ts.length :=
    (List.dropWhile_sublist _).length_le
  have hpos : 0 < ts.length := List.length_pos_iff.mpr h
  rw [afterLine, List.length_tail]
  omega

/-- A token that is no line end does not matter for where the line ends. -/
theorem afterLine_cons {t : Token} {ts : List Token} (h : t.kind ≠ .newline) :
    afterLine (t :: ts) = afterLine ts := by
  simp [afterLine, h]

/-- Neither do tokens of which none is a line end. -/
theorem afterLine_dropWhile {test : Kind → Bool} (h : test .newline = false) (ts : List Token) :
    afterLine (ts.dropWhile fun t => test t.kind) = afterLine ts := by
  induction ts with
  | nil => rfl
  | cons t ts ih =>
    by_cases ht : test t.kind = true
    · have hne : t.kind ≠ .newline := by
        intro he
        rw [he, h] at ht
        exact Bool.noConfusion ht
      rw [List.dropWhile_cons, if_pos ht, ih, afterLine_cons hne]
    · rw [List.dropWhile_cons, if_neg ht]

namespace Parser

/-- Is the statement `k` next? -/
def isAtKeyword (p : Parser) (k : Keyword) : Bool := p.isAtWord k.text

/-! ### Pieces of a line -/

/-- Reads a value, with the space before it, if one comes next. -/
def value (p : Parser) : Bool × Parser :=
  let p := (p.eat .whitespace).2
  if p.current.isValuePart then
    (true, (p.node .value fun p => p.bumpWhile Kind.isValuePart).2)
  else (false, p)

/-- Puts the rest of the line into an `error` node and ends the line. -/
def errorLine (p : Parser) : Parser :=
  ((p.node .error fun p => p.bumpWhile fun k => k ≠ .newline).2.eat .newline).2

/-- The fault of having the next token behind a complete statement. -/
def unexpected (p : Parser) : Fault :=
  if p.current = .unknown && (p.currentText.head? = some '\'' || p.currentText.head? = some '"')
  then .unterminated
  else .unexpected p.currentText

/-- Ends the line of a statement. Anything but space and a comment is an error,
unless the statement itself was already found to be wrong. -/
def finishLine (p : Parser) (sound : Bool) : Parser :=
  let p := (p.eat .whitespace).2
  let p := (p.eat .comment).2
  if p.atEnd then p
  else if p.isAt .newline then p.bump
  else if sound then (p.error p.unexpected).errorLine
  else p.errorLine

/-- Ends the line of a statement that lacks a piece. -/
def finishWithout (p : Parser) (piece : Piece) : Parser :=
  (p.error (.missing piece)).finishLine false

/-! ### Statements -/

/-- Reads a `package` line. -/
def package (p : Parser) : Parser :=
  (p.node .package fun p =>
    match (p.bumpAs .packageKeyword).value with
    | (true, p) => p.finishLine true
    | (false, p) => p.finishWithout .packageName).2

/-- Reads a `config` line. The name of the section may be left out. -/
def sectionHeader (p : Parser) : Completed × Parser :=
  p.node .sectionHeader fun p =>
    match (p.bumpAs .configKeyword).value with
    | (true, p) => p.value.2.finishLine true
    | (false, p) => p.finishWithout .sectionType

/-- Reads an `option` line. -/
def option (p : Parser) : Parser :=
  (p.node .option fun p =>
    match (p.bumpAs .optionKeyword).value with
    | (true, p) =>
      match p.value with
      | (true, p) => p.finishLine true
      | (false, p) => p.finishWithout .optionValue
    | (false, p) => p.finishWithout .optionName).2

/-- Reads a `list` line. Without a value it declares a list and adds nothing. -/
def list (p : Parser) : Parser :=
  (p.node .list fun p =>
    match (p.bumpAs .listKeyword).value with
    | (true, p) => p.value.2.finishLine true
    | (false, p) => p.finishWithout .listName).2

/-! ### Every rule reads to the end of its line -/

theorem isAt_iff {p : Parser} {k : Kind} : p.isAt k = true ↔ p.current = k := by
  simp [isAt]

/-- What `eat` leaves behind ends the line where it ended before, unless it takes
the line end itself. -/
@[simp] theorem afterLine_eat (p : Parser) {k : Kind} (h : k ≠ .newline) :
    afterLine (p.eat k).2.rest = afterLine p.rest := by
  unfold eat
  split
  · next hk =>
    rw [isAt_iff, current_eq] at hk
    rw [rest_bump]
    cases hr : p.rest with
    | nil => rfl
    | cons t ts =>
      rw [hr] at hk
      have ht : t.kind = k := hk
      rw [List.tail_cons, afterLine_cons (by rw [ht]; exact h)]
  · rfl

@[simp] theorem afterLine_value (p : Parser) :
    afterLine p.value.2.rest = afterLine p.rest := by
  unfold value
  dsimp only
  split
  · rw [rest_node, rest_bumpWhile, rest_start, afterLine_dropWhile rfl,
      afterLine_eat p (by decide)]
  · exact afterLine_eat p (by decide)

/-- At the end of a line, a line end is all that is left to take. -/
theorem tail_of_isAt_newline {p : Parser} (h : p.isAt .newline = true) :
    p.rest.tail = afterLine p.rest := by
  rw [isAt_iff, current_eq] at h
  cases hr : p.rest with
  | nil => rfl
  | cons t ts =>
    rw [hr] at h
    have ht : t.kind = .newline := h
    simp [afterLine, ht]

@[simp] theorem rest_errorLine (p : Parser) : p.errorLine.rest = afterLine p.rest := by
  unfold errorLine eat
  have hnode : (p.node .error fun p => p.bumpWhile fun k => k ≠ .newline).2.rest
      = p.rest.dropWhile fun t => t.kind ≠ .newline := by
    rw [rest_node, rest_bumpWhile, rest_start]
  split
  · next h =>
    rw [rest_bump, tail_of_isAt_newline h, hnode]
    exact @afterLine_dropWhile (fun k => k ≠ .newline) (by decide) p.rest
  · next h =>
    rw [isAt_iff, current_eq, hnode] at h
    rw [hnode, afterLine]
    cases hd : p.rest.dropWhile fun t => t.kind ≠ .newline with
    | nil => rfl
    | cons t ts =>
      have ht := List.head?_dropWhile_not (fun t : Token => decide (t.kind ≠ .newline)) p.rest
      rw [hd] at h ht
      simp at h ht
      exact absurd ht h

@[simp] theorem rest_finishLine (p : Parser) (sound : Bool) :
    (p.finishLine sound).rest = afterLine p.rest := by
  have hskip : afterLine ((p.eat .whitespace).2.eat .comment).2.rest = afterLine p.rest := by
    rw [afterLine_eat _ (by decide), afterLine_eat _ (by decide)]
  unfold finishLine
  simp only
  split
  · next h =>
    have hr : ((p.eat .whitespace).2.eat .comment).2.rest = [] := List.isEmpty_iff.mp h
    rw [← hskip, hr]
    rfl
  split
  · next h => rw [rest_bump, tail_of_isAt_newline h, hskip]
  split
  · rw [rest_errorLine, rest_error, hskip]
  · rw [rest_errorLine, hskip]

@[simp] theorem rest_finishWithout (p : Parser) (piece : Piece) :
    (p.finishWithout piece).rest = afterLine p.rest := by
  rw [finishWithout, rest_finishLine, rest_error]

@[simp] theorem afterLine_bumpAs {p : Parser} {k : Keyword} (h : p.isAtKeyword k = true)
    (as : Kind) : afterLine (p.bumpAs as).rest = afterLine p.rest := by
  simp only [isAtKeyword, isAtWord, Bool.and_eq_true, isAt_iff] at h
  have hk := h.1
  rw [current_eq] at hk
  rw [rest_bumpAs]
  cases hr : p.rest with
  | nil => rfl
  | cons t ts =>
    rw [hr] at hk
    have ht : t.kind = .word := hk
    rw [List.tail_cons, afterLine_cons (by rw [ht]; decide)]

/-- A keyword that comes next is a token that comes next. -/
theorem rest_ne_nil {p : Parser} {k : Keyword} (h : p.isAtKeyword k = true) : p.rest ≠ [] := by
  intro hr
  simp [isAtKeyword, isAtWord, isAt, current_eq, hr] at h

/-- Opening a node changes nothing about what comes next. -/
theorem isAtKeyword_start {p : Parser} {k : Keyword} (h : p.isAtKeyword k = true) :
    p.start.2.isAtKeyword k = true := h

theorem rest_package {p : Parser} (h : p.isAtKeyword .package = true) :
    p.package.rest = afterLine p.rest := by
  have hv := afterLine_value (p.start.2.bumpAs .packageKeyword)
  rw [afterLine_bumpAs (isAtKeyword_start h)] at hv
  unfold package
  rw [rest_node]
  split <;> next q hq => rw [hq] at hv; simpa using hv

theorem rest_sectionHeader {p : Parser} (h : p.isAtKeyword .config = true) :
    p.sectionHeader.2.rest = afterLine p.rest := by
  have hv := afterLine_value (p.start.2.bumpAs .configKeyword)
  rw [afterLine_bumpAs (isAtKeyword_start h)] at hv
  unfold sectionHeader
  rw [rest_node]
  split <;> next q hq => rw [hq] at hv; simpa using hv

theorem rest_list {p : Parser} (h : p.isAtKeyword .list = true) :
    p.list.rest = afterLine p.rest := by
  have hv := afterLine_value (p.start.2.bumpAs .listKeyword)
  rw [afterLine_bumpAs (isAtKeyword_start h)] at hv
  unfold list
  rw [rest_node]
  split <;> next q hq => rw [hq] at hv; simpa using hv

theorem rest_option {p : Parser} (h : p.isAtKeyword .option = true) :
    p.option.rest = afterLine p.rest := by
  have hv := afterLine_value (p.start.2.bumpAs .optionKeyword)
  rw [afterLine_bumpAs (isAtKeyword_start h)] at hv
  unfold option
  rw [rest_node]
  split
  · next q hq =>
    rw [hq] at hv
    have hw := afterLine_value q
    split <;> next r hr => rw [hr] at hw; simpa using hw.trans hv
  · next q hq => rw [hq] at hv; simpa using hv

/-! ### Sections and files -/

/-- Takes blank space, line ends and comments. -/
def skipTrivia (p : Parser) : Parser := p.bumpWhile Kind.isTrivia

theorem length_skipTrivia_le (p : Parser) : p.skipTrivia.rest.length ≤ p.rest.length := by
  rw [skipTrivia, rest_bumpWhile]
  exact (List.dropWhile_sublist _).length_le

theorem length_option_lt {p : Parser} (h : p.skipTrivia.isAtKeyword .option = true) :
    p.skipTrivia.option.rest.length < p.rest.length := by
  rw [rest_option h]
  exact Nat.lt_of_lt_of_le (length_afterLine_lt (rest_ne_nil h)) (length_skipTrivia_le p)

theorem length_list_lt {p : Parser} (h : p.skipTrivia.isAtKeyword .list = true) :
    p.skipTrivia.list.rest.length < p.rest.length := by
  rw [rest_list h]
  exact Nat.lt_of_lt_of_le (length_afterLine_lt (rest_ne_nil h)) (length_skipTrivia_le p)

/-- Reads blank lines, `option` lines and `list` lines as far as they go. -/
def entries (p : Parser) : Parser :=
  if h : p.skipTrivia.isAtKeyword .option then
    have := length_option_lt h
    p.skipTrivia.option.entries
  else if h : p.skipTrivia.isAtKeyword .list then
    have := length_list_lt h
    p.skipTrivia.list.entries
  else p.skipTrivia
termination_by p.rest.length

/-- Reads a `config` line and the lines that belong to it. The section is opened
around its header when the header has been read. -/
def «section» (p : Parser) : Parser := nodeAround p.sectionHeader .section entries

theorem entries_of_option {p : Parser} (h : p.skipTrivia.isAtKeyword .option = true) :
    p.entries = p.skipTrivia.option.entries := by
  rw [entries, dif_pos h]

theorem entries_of_list {p : Parser} (ho : ¬p.skipTrivia.isAtKeyword .option = true)
    (hl : p.skipTrivia.isAtKeyword .list = true) : p.entries = p.skipTrivia.list.entries := by
  rw [entries, dif_neg ho, dif_pos hl]

theorem entries_of_other {p : Parser} (ho : ¬p.skipTrivia.isAtKeyword .option = true)
    (hl : ¬p.skipTrivia.isAtKeyword .list = true) : p.entries = p.skipTrivia := by
  rw [entries, dif_neg ho, dif_neg hl]

theorem length_entries_le (p : Parser) : p.entries.rest.length ≤ p.rest.length := by
  induction p using entries.induct with
  | case1 p ho hlt ih => rw [entries_of_option ho]; omega
  | case2 p ho hl hlt ih => rw [entries_of_list ho hl]; omega
  | case3 p ho hl => rw [entries_of_other ho hl]; exact length_skipTrivia_le p

theorem length_section_lt {p : Parser} (h : p.isAtKeyword .config = true) :
    p.section.rest.length < p.rest.length := by
  have he := length_entries_le (p.sectionHeader.2.precede p.sectionHeader.1).2
  rw [rest_precede, rest_sectionHeader h] at he
  rw [«section», rest_nodeAround]
  exact Nat.lt_of_le_of_lt he (length_afterLine_lt (rest_ne_nil h))

theorem length_package_lt {p : Parser} (h : p.isAtKeyword .package = true) :
    p.package.rest.length < p.rest.length := by
  rw [rest_package h]
  exact length_afterLine_lt (rest_ne_nil h)

theorem length_bump_lt {p : Parser} (h : ¬p.atEnd = true) :
    p.bump.rest.length < p.rest.length := by
  have hpos : 0 < p.rest.length :=
    List.length_pos_iff.mpr fun hr => h (List.isEmpty_iff.mpr hr)
  rw [rest_bump, List.length_tail]
  omega

/-- Reports the line that comes next and reads over it. -/
def skipLine (p : Parser) (fault : Fault) : Parser := (p.error fault).errorLine

theorem length_skipLine_lt {p : Parser} (h : ¬p.atEnd = true) (fault : Fault) :
    (p.skipLine fault).rest.length < p.rest.length := by
  rw [skipLine, rest_errorLine, rest_error]
  exact length_afterLine_lt fun hr => h (List.isEmpty_iff.mpr hr)

/-- Reads lines up to the end of the source. -/
def items (p : Parser) : Parser :=
  if h : p.atEnd then p
  else if p.current.isTrivia then
    have := length_bump_lt h
    p.bump.items
  else if hc : p.isAtKeyword .config then
    have := length_section_lt hc
    p.section.items
  else if hp : p.isAtKeyword .package then
    have := length_package_lt hp
    p.package.items
  else if p.isAtKeyword .option || p.isAtKeyword .list then
    have := length_skipLine_lt h (.outsideSection p.currentText)
    (p.skipLine (.outsideSection p.currentText)).items
  else
    have := length_skipLine_lt h (.notAStatement p.currentText)
    (p.skipLine (.notAStatement p.currentText)).items
termination_by p.rest.length

/-- Reads a whole source. -/
def root (p : Parser) : Parser := (p.node .root items).2

end Parser

/-- **What a source was read as**: its tree and the errors in it. -/
structure Parse where
  tree : Tree
  errors : List SyntaxError

/-- Reads everything before a parser and puts the tree together from its log. -/
def Parser.finish (p : Parser) : Parse where
  tree := (Tree.ofEvents? p.rest p.root.events).getD (.node .root [])
  errors := p.root.errors.toList

/-- **Reads a source.** -/
def parse (source : Text) : Parse := (Parser.ofText source).finish

end Syntax
end Uci
