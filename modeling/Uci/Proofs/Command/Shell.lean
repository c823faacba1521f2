import Uci.Proofs.Command.Listing

/-!
# What a shell reads in a listing

The values of an entry are listed each as one word of a shell, with a space between any two of
them.  No reader of listings is part of the program, so a shell is described here, as far as its
rules for words go that need no command, variable or file: single quotes, a backslash, and blanks
between words.  Whatever would call for any other rule, this reader refuses.  It reads every list
of values as it was, since nothing that a value holds comes to stand outside quotes.

## Main definitions

* `Shell.Place` — where in a word a reader is.
* `shellWords` — the words of a text, as a shell reads them.

## Main results

* `wordsFrom_quoted` — between quotes a value is read as it was.
* `shellWords_spaced` — **what was listed is read back**.
* `valuesReadBack` — the same for the line of an entry, and no two lists of values are listed
  alike.
-/

namespace Uci
namespace Shell

/-! ### A reader of words -/

/-- **Where in a text a reader of words is.** -/
inductive Place where
  /-- Between two words. -/
  | between
  /-- In a word, outside quotes. -/
  | bare (word : Text)
  /-- In a word, between single quotes. -/
  | quoted (word : Text)
  /-- In a word, behind a backslash. -/
  | escaped (word : Text)
  deriving DecidableEq, Repr

/-- Blanks part words. -/
def isSeparator (c : Char) : Bool := c = ' ' ∨ c = '\t'

/-- Outside quotes these may have a meaning to a shell that is not a matter of words: operators,
expansions, patterns, comments, and the end of a command. -/
def isSpecial (c : Char) : Bool := c ∈ "|&;<>()$`\"\n*?[]#~=%^!\x7b\x7d".toList

/-- How a word goes on with a character outside quotes. -/
def further (word : Text) (c : Char) : Option Place :=
  if c = '\'' then some (.quoted word)
  else if c = '\\' then some (.escaped word)
  else if isSpecial c then none
  else some (.bare (word ++ [c]))

/-- The words of the rest of a text.  A quote that is not closed and a backslash at the end are
refused, and so is a line that is continued. -/
def wordsFrom : Place → Text → Option (List Text)
  | .between, [] => some []
  | .bare word, [] => some [word]
  | .quoted _, [] | .escaped _, [] => none
  | .between, c :: t =>
    if isSeparator c then wordsFrom .between t else (further [] c).bind (wordsFrom · t)
  | .bare word, c :: t =>
    if isSeparator c then (wordsFrom .between t).map (word :: ·)
    else (further word c).bind (wordsFrom · t)
  | .quoted word, c :: t =>
    if c = '\'' then wordsFrom (.bare word) t else wordsFrom (.quoted (word ++ [c])) t
  | .escaped word, c :: t => if c = '\n' then none else wordsFrom (.bare (word ++ [c])) t

end Shell

/-- **The words of a text**, as a shell reads them. -/
def shellWords (t : Text) : Option (List Text) := Shell.wordsFrom .between t

example : shellWords "a\\ b 'c  d'e ''".toList =
    some ["a b".toList, "c  de".toList, []] := by decide

namespace Shell

variable {value word rest : Text} {values : List Text}

/-! ### Reading what was quoted -/

/-- **Between quotes a value is read as it was.**  A quote in it closes the quotes, comes behind a
backslash, and opens them again. -/
theorem wordsFrom_quoted (value word rest : Text) :
    wordsFrom (.quoted word)
        ((value.flatMap fun c => if c = '\'' then ['\'', '\\', '\'', '\''] else [c]) ++
          '\'' :: rest) =
      wordsFrom (.bare (word ++ value)) rest := by
  induction value generalizing word with
  | nil => simp [wordsFrom]
  | cons c value ih =>
    have hword : word ++ c :: value = (word ++ [c]) ++ value := by simp
    rw [hword, ← ih, List.flatMap_cons]
    by_cases hc : c = '\''
    · subst hc
      simp [wordsFrom, further, isSeparator]
    · rw [if_neg hc, List.append_assoc, List.singleton_append, wordsFrom, if_neg hc]

/-- A quoted value is read as one word, which goes on behind it. -/
theorem wordsFrom_shellQuote (value rest : Text) :
    wordsFrom .between (shellQuote value ++ rest) = wordsFrom (.bare value) rest := by
  have hopen : ∀ t, wordsFrom .between ('\'' :: t) = wordsFrom (.quoted []) t := fun t => by
    simp [wordsFrom, further, isSeparator]
  rw [shellQuote, List.cons_append, List.cons_append, hopen, List.append_assoc,
    List.singleton_append, wordsFrom_quoted, List.nil_append]

end Shell

open Shell

@[simp] theorem spaced_singleton (t : Text) : spaced [t] = t := by
  simp [spaced, List.intercalate]

theorem spaced_cons_cons (t t' : Text) (ts : List Text) :
    spaced (t :: t' :: ts) = t ++ ' ' :: spaced (t' :: ts) := by
  simp [spaced, List.intercalate]

/-- **What was listed is read back**, the empty list and empty values included. -/
theorem shellWords_spaced (values : List Text) :
    shellWords (spaced (values.map shellQuote)) = some values := by
  induction values with
  | nil => rfl
  | cons value values ih =>
    cases values with
    | nil =>
      have hread := wordsFrom_shellQuote value []
      rw [List.append_nil] at hread
      rw [shellWords, List.map_singleton, spaced_singleton, hread]
      rfl
    | cons value' values =>
      rw [shellWords, List.map_cons, List.map_cons, spaced_cons_cons, wordsFrom_shellQuote,
        wordsFrom, if_pos (by decide)]
      exact congrArg (Option.map (value :: ·)) ih

namespace EntryOutline

/-- **The values that are shown for an entry**: the one of an option, and all of a list. -/
def shown : EntryOutline → List Text
  | .option _ value => [value]
  | .list _ values => values

/-- An entry is listed under its name, and shows its values. -/
theorem line_eq (label : Text) (o : EntryOutline) :
    o.line label =
      label ++ '.' :: o.name ++ '=' :: spaced (o.shown.map shellQuote) ++ ['\n'] := by
  cases o with
  | option n value => simp [line, name, shown]
  | list name values => rfl

end EntryOutline

/-- **Shown values can be read back.**  A shell reads the values of a list as they were; so no two
lists of values are shown alike; and the line of an option or a list shows its values in this
way. -/
theorem valuesReadBack :
    (∀ values, shellWords (spaced (values.map shellQuote)) = some values) ∧
    (Function.Injective fun values : List Text => spaced (values.map shellQuote)) ∧
    ∀ (d : Document) (label : Text) (h : Handle) (o : EntryOutline),
      d.outlineEntry? h = .ok (some o) → ∃ text,
        d.listEntry label h = .ok (label ++ '.' :: o.name ++ '=' :: text ++ ['\n']) ∧
          shellWords text = some o.shown := by
  refine ⟨shellWords_spaced, fun values values' heq => ?_, fun d label h o ho => ?_⟩
  · have hread : shellWords (spaced (values.map shellQuote)) = some values' :=
      (congrArg shellWords heq).trans (shellWords_spaced values')
    exact Option.some.inj ((shellWords_spaced values).symm.trans hread)
  · refine ⟨spaced (o.shown.map shellQuote), ?_, shellWords_spaced o.shown⟩
    rw [← o.line_eq label]
    exact Document.listEntry_of_outline ho

/-- A list of a quote behind a backslash, of nothing, and of what could be two words. -/
theorem valuesReadBack_list :
    let d := Document.empty.play [.addSection 0 "rule".toList none, .addList 3 "l".toList,
      .addElement 4 "\\'".toList, .addElement 4 [], .addElement 4 "' '".toList]
    d.outlineEntry? 4 = .ok (some (.list "l".toList ["\\'".toList, [], "' '".toList])) ∧
      ∃ text, d.listEntry "a.b".toList 4 = .ok ("a.b.l=".toList ++ text ++ ['\n']) ∧
        shellWords text = some ["\\'".toList, [], "' '".toList] := by
  intro d
  have ho : d.outlineEntry? 4 = .ok (some (.list "l".toList ["\\'".toList, [], "' '".toList])) := by
    decide +kernel
  exact ⟨ho, valuesReadBack.2.2 d "a.b".toList 4 _ ho⟩

end Uci
