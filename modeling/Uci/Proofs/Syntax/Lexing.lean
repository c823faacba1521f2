import Uci.Proofs.Syntax.Pattern
import Uci.Syntax.Quote

/-!
# Written pieces and their tokens

Text that is written by a document is made of few pieces: bare words, single spaces
and tabs, line feeds and quoted values.  Each piece is read as one token, whatever
follows it, as long as what follows does not prolong it; and the token of a quoted
value stands for the value again.

* `ofText_word`, `ofText_spacing`, `ofText_newline`, `ofText_quote` — one token for
  each piece.
* `content_quote` — **quoting loses nothing**, for any value at all.
-/

namespace Uci
namespace Syntax

/-! ### Values between quotes -/

/-- A character without a backslash before it stands for itself. -/
theorem unescape_cons {c : Char} (hc : c ≠ '\\') (t : Text) :
    unescape (c :: t) = c :: unescape t := by
  rw [unescape.eq_def]
  exact if_neg hc

/-- **Escaping is undone by reading.** -/
theorem unescape_escapeQuotes (t : Text) : unescape (escapeQuotes t) = t := by
  induction t with
  | nil => rfl
  | cons c t ih =>
    rw [escapeQuotes, List.flatMap_cons, ← escapeQuotes]
    by_cases hc : c = '\\'
    · subst hc
      simp [unescape, ih]
    · by_cases hq : c = '"'
      · subst hq
        simp [unescape, ih]
      · simp [unescape_cons hc, hc, hq, ih]

/-- An escaped text holds no double quote that counts. -/
theorem escaped_escapeQuotes (t : Text) : Escaped (escapeQuotes t) := by
  induction t with
  | nil => exact .nil
  | cons c t ih =>
    rw [escapeQuotes, List.flatMap_cons, ← escapeQuotes]
    split
    · exact .pair c ih
    · next hc =>
      obtain ⟨hslash, hquote⟩ := not_or.mp (by simpa using hc)
      exact .plain hquote hslash ih

/-- The kind of token that a quoted value is. -/
def quoteKind (v : Text) : Kind := if v.contains '\'' then .doubleQuoted else .singleQuoted

theorem isValuePart_quoteKind (v : Text) : (quoteKind v).isValuePart = true := by
  unfold quoteKind
  split <;> rfl

/-- The token of a quoted value. -/
def quoteToken (v : Text) : Token := ⟨quoteKind v, quote v⟩

/-- **Quoting loses nothing.** -/
theorem content_quote (v : Text) : (quoteToken v).content = v := by
  unfold quoteToken quoteKind quote
  cases hq : v.contains '\'' with
  | true =>
    rw [if_pos rfl, if_pos rfl]
    show unescape (inside _) = v
    rw [inside_cons_append, unescape_escapeQuotes]
  | false =>
    rw [if_neg (by decide), if_neg (by decide)]
    show inside _ = v
    rw [inside_cons_append]

/-! ### One token for each piece -/

/-- A bare word is one token. -/
theorem ofText_word {w r : Text} (hw : isWord w = true) (hr : Stops isWordChar r) :
    Token.ofText (w ++ r) = ⟨.word, w⟩ :: Token.ofText r :=
  ofText_of_cut (.word hw hr)

/-- A space or a tab is one token. -/
theorem ofText_spacing {c : Char} {r : Text} (hc : isSpacing c = true) (hr : Stops isSpacing r) :
    Token.ofText (c :: r) = ⟨.whitespace, [c]⟩ :: Token.ofText r :=
  ofText_of_cut (.spacing (List.cons_ne_nil c []) (by simpa using hc) hr)

theorem ofText_newline (r : Text) :
    Token.ofText ('\n' :: r) = ⟨.newline, ['\n']⟩ :: Token.ofText r := ofText_of_cut (.feed r)

/-- **A quoted value is one token**, whatever it holds and whatever follows. -/
theorem ofText_quote (v r : Text) :
    Token.ofText (quote v ++ r) = quoteToken v :: Token.ofText r := by
  refine ofText_of_cut (u := quoteToken v) ?_
  unfold quoteToken quoteKind quote
  cases hq : v.contains '\'' with
  | true => exact .double (escaped_escapeQuotes v) r
  | false =>
    refine .single (List.all_eq_true.mpr fun c hc => decide_eq_true ?_) r
    rintro rfl
    rw [List.contains_iff_mem.mpr hc] at hq
    cases hq

/-- What a quoted value begins with is no part of a run of spaces. -/
theorem stops_quote (v r : Text) : Stops isSpacing (quote v ++ r) := by
  unfold quote
  split
  · exact stops_cons (by decide)
  · exact stops_cons (by decide)

/-- Neither is what a bare word begins with. -/
theorem stops_word {w : Text} (hw : isWord w = true) (r : Text) : Stops isSpacing (w ++ r) := by
  cases w with
  | nil => cases hw
  | cons c w =>
    rw [isWord_cons, Bool.and_eq_true] at hw
    refine stops_cons (Bool.eq_false_iff.mpr ?_)
    intro hc
    simp only [isSpacing, Bool.or_eq_true, decide_eq_true_eq] at hc
    rcases hc with rfl | rfl
    · exact absurd hw.1 (by decide)
    · exact absurd hw.1 (by decide)

end Syntax
end Uci
