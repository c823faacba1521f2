import Mathlib.Tactic.TFAE
import Uci.Proofs.Syntax.Reporting
import Uci.Proofs.Syntax.Script

/-!
# Bare words

A bare word can be written without quotes and is read back as it stands.  Nothing else can: the
quotes of a quoted piece take two characters that the piece does not stand for, so a value that
is as long as what it was written as was written as words.

## Main definitions

* `Fragment` — a token that a value is made of, as it is cut from a text.

## Main results

* `Fragment.of_mem` — the parts of a value in a text are such tokens.
* `exists_firstRow` — the first row of a text that begins with a keyword.
* `isWord_tfae` — **bare words are what is read as one word, what holds no character that ends
  one, and what a header without quotes gives back as its type.**
-/

namespace Uci
namespace Syntax

/-! ### The pieces of a value -/

/-- **A token that a value is made of**, as it is cut from a text. -/
inductive Fragment : Token → Prop
  | word {w : Text} : isWord w = true → Fragment (wordToken w)
  | single (s : Text) : Fragment ⟨.singleQuoted, '\'' :: s ++ ['\'']⟩
  | double (s : Text) : Fragment ⟨.doubleQuoted, '"' :: s ++ ['"']⟩

/-- **The parts of a value in a text.** -/
theorem Fragment.of_mem {t : Text} {u : Token} (h : u ∈ Token.ofText t)
    (hk : u.kind.isValuePart = true) : Fragment u := by
  obtain ⟨r, hcut⟩ := cut_of_mem h
  cases hcut with
  | word hw => exact .word hw
  | single => exact .single _
  | double => exact .double _
  | spacing | feed | returnFeed | loneReturn | comment | openSingle | openDouble | other => cases hk

/-- Reading escapes makes a text no longer. -/
theorem length_unescape_le (t : Text) : (unescape t).length ≤ t.length := by
  fun_induction unescape t <;> simp_all <;> omega

private theorem length_between (q : Char) (s : Text) :
    (q :: s ++ [q]).length = s.length + 2 := by
  rw [List.length_append, List.length_cons, List.length_singleton]

namespace Fragment

variable {u : Token} {us : List Token}

/-- **Only a word is as long as what it stands for**; quotes take two characters more. -/
theorem isWord_or_lt (h : Fragment u) :
    (isWord u.text = true ∧ u.content = u.text) ∨ u.content.length < u.text.length := by
  cases h with
  | word hw => exact Or.inl ⟨hw, rfl⟩
  | single s =>
    have hcontent : (⟨.singleQuoted, '\'' :: s ++ ['\'']⟩ : Token).content = s :=
      inside_cons_append _ _ s
    rw [hcontent]
    refine Or.inr ?_
    show s.length < ('\'' :: s ++ ['\'']).length
    rw [length_between]
    omega
  | double s =>
    have hcontent : (⟨.doubleQuoted, '"' :: s ++ ['"']⟩ : Token).content = unescape s :=
      congrArg unescape (inside_cons_append _ _ s)
    have hle := length_unescape_le s
    rw [hcontent]
    refine Or.inr ?_
    show (unescape s).length < ('"' :: s ++ ['"']).length
    rw [length_between]
    omega

theorem text_ne_nil (h : Fragment u) : u.text ≠ [] := by
  cases h with
  | word hw =>
    rintro rfl
    cases hw
  | single s | double s => exact List.cons_ne_nil _ _

/-- No part of a value ends with a line feed. -/
theorem getLast?_ne (h : Fragment u) : u.text.getLast? ≠ some '\n' := by
  cases h with
  | word hw =>
    exact fun hlast => absurd (isWordChar_of_mem hw (List.mem_of_getLast? hlast)) (by decide)
  | single s | double s =>
    intro hlast
    rw [List.getLast?_concat] at hlast
    cases hlast

/-- Neither does a value. -/
theorem getLast?_texts_ne (h : ∀ u ∈ us, Fragment u) :
    (us.flatMap Token.text).getLast? ≠ some '\n' := by
  induction us with
  | nil => simp
  | cons u us ih =>
    obtain ⟨hu, hus⟩ := List.forall_mem_cons.mp h
    rw [List.flatMap_cons, List.getLast?_append, ne_eq, Option.or_eq_some_iff, not_or]
    exact ⟨ih hus, fun hlast => hu.getLast?_ne hlast.2⟩

theorem length_contents_le (h : ∀ u ∈ us, Fragment u) :
    (us.flatMap Token.content).length ≤ (us.flatMap Token.text).length := by
  induction us with
  | nil => exact Nat.zero_le _
  | cons u us ih =>
    obtain ⟨hu, hus⟩ := List.forall_mem_cons.mp h
    have hmore := ih hus
    rw [List.flatMap_cons, List.flatMap_cons, List.length_append, List.length_append]
    rcases hu.isWord_or_lt with ⟨-, heq⟩ | hlt
    · rw [heq]
      omega
    · omega

end Fragment

/-- Words without space between them are a word. -/
theorem isWord_append {v w : Text} (hv : isWord v = true) (hw : isWord w = true) :
    isWord (v ++ w) = true := by
  cases v with
  | nil => exact hw
  | cons c v =>
    cases w with
    | nil => rwa [List.append_nil]
    | cons d w =>
      simp only [isWord_cons, List.cons_append, Bool.and_eq_true, List.all_append, List.all_cons,
        isWordStart] at hv hw ⊢
      exact ⟨hv.1, hv.2, hw.1.1, hw.2⟩

/-- **A value that is as long as what it was written as was written as a word.** -/
theorem isWord_of_length {us : List Token} (hne : us ≠ []) (h : ∀ u ∈ us, Fragment u)
    (hlen : (us.flatMap Token.text).length ≤ (us.flatMap Token.content).length) :
    isWord (us.flatMap Token.text) = true := by
  induction us with
  | nil => exact absurd rfl hne
  | cons u us ih =>
    obtain ⟨hu, hus⟩ := List.forall_mem_cons.mp h
    have hle := Fragment.length_contents_le hus
    rw [List.flatMap_cons, List.flatMap_cons, List.length_append, List.length_append] at hlen
    rcases hu.isWord_or_lt with ⟨hword, heq⟩ | hlt
    · rw [heq] at hlen
      rw [List.flatMap_cons]
      by_cases hnil : us = []
      · rwa [hnil, List.flatMap_nil, List.append_nil]
      · exact isWord_append hword (ih hnil hus (by omega))
    · omega

/-! ### A header without quotes -/

/-- **The first row of a text without errors that begins with a keyword and space** is a command
of that keyword. -/
theorem exists_firstRow {k : Keyword} {r : Text}
    (herrors : (parse (k.text ++ ' ' :: r)).errors = []) :
    ∃ (c : Command) (gap : TokenOf .whitespace) (e : Ending) (rows : List Row),
      c.keyword = k ∧ c.gap = some gap ∧ Accepted (.command none c e :: rows) ∧
        Token.ofText (k.text ++ ' ' :: r) = (Row.command none c e :: rows).flatMap Row.tokens := by
  obtain ⟨rows, hrows, htokens⟩ := exists_accepted herrors
  -- the text begins with the tokens of the keyword and of the space
  obtain ⟨s, ts, hs, hhead⟩ : ∃ (s : Token) (ts : List Token), s.kind = .whitespace ∧
      Token.ofText (k.text ++ ' ' :: r) = wordToken k.text :: s :: ts := by
    rw [ofText_word (isWord_text k) (stops_cons (by decide)), Token.ofText_cons]
    exact ⟨_, _, Token.first_kind_eq_whitespace.mpr (by decide), rfl⟩
  cases rows with
  | nil =>
    rw [hhead] at htokens
    cases htokens
  | cons row rows =>
    have hsplit := htokens
    rw [hhead, List.flatMap_cons] at hsplit
    cases row with
    | blank e =>
      have hcloses : e.Closes (rows.flatMap Row.tokens) := by
        intro hstop
        by_contra hne
        refine (ended_cons.mp hrows.ended).1 ?_ hstop
        rintro rfl
        exact hne rfl
      have hword := e.halts (f := fun k => k = .word) hcloses (fun _ => rfl) (fun _ => rfl) rfl
      have hsplit : wordToken k.text :: s :: ts =
          e.parts.flatMap Part.tokens ++ rows.flatMap Row.tokens := hsplit
      rw [← hsplit] at hword
      exact absurd (hword _ rfl) (by simp [wordToken])
    | command indent c e =>
      cases indent with
      | some i =>
        have hi : wordToken k.text = i.1 := (List.cons.inj hsplit).1
        have hkind := i.2
        rw [← hi] at hkind
        cases hkind
      | none =>
        have hsplit : wordToken k.text :: s :: ts = wordToken c.keyword.text ::
            ((c.parts ++ e.parts).flatMap Part.tokens ++ rows.flatMap Row.tokens) := hsplit
        obtain ⟨hkeyword, hmore⟩ := List.cons.inj hsplit
        have hck : c.keyword = k :=
          (Keyword.eq_of_text (congrArg Token.text hkeyword)).symm
        cases hgap : c.gap with
        | some gap => exact ⟨c, gap, e, rows, hck, hgap, hrows, htokens⟩
        | none =>
          -- what a value begins with is no space
          obtain ⟨u, us, hu⟩ := List.exists_cons_of_ne_nil c.first.ne_nil
          have hpart := c.first.isValuePart u (hu ▸ List.mem_cons_self)
          rw [Command.parts, hgap] at hmore
          simp only [Part.optional, Option.toList_none, List.map_nil, List.nil_append,
            List.cons_append, List.flatMap_cons, Part.tokens, hu] at hmore
          rw [← (List.cons.inj hmore).1, hs] at hpart
          cases hpart

/-- In a line that holds a space, a text and the line feed, a value that is no shorter than the
text is the text. -/
private theorem eq_of_line {gap value tail w : Text}
    (h : gap ++ (value ++ tail) = ' ' :: (w ++ ['\n'])) (hgap : gap ≠ []) (hvalue : value ≠ [])
    (hlast : value.getLast? ≠ some '\n') (hle : w.length ≤ value.length) : value = w := by
  have hlength := congrArg List.length h
  simp only [List.length_append, List.length_cons, List.length_nil] at hlength
  have hpos := List.length_pos_iff.mpr hgap
  -- the line feed is not in the value, so it stands behind it
  have htail : tail ≠ [] := by
    rintro rfl
    have hend := congrArg List.getLast? h
    rw [List.append_nil, ← List.cons_append, List.getLast?_concat,
      List.getLast?_append_of_ne_nil _ hvalue] at hend
    exact hlast hend
  have hone := List.length_pos_iff.mpr htail
  have hfront : (gap ++ value) ++ tail = (' ' :: w) ++ ['\n'] := by simpa using h
  have hspace : gap ++ value = [' '] ++ w := (List.append_inj hfront (by simp; omega)).1
  exact List.append_inj_right hspace (by rw [List.length_singleton]; omega)

/-- A header is the keyword, a space and the type. -/
private theorem headerText (w : Text) :
    "config ".toList ++ w ++ ['\n'] = Keyword.config.text ++ ' ' :: (w ++ ['\n']) := rfl

/-- **A header that gives its type back as it was written** was written with a word. -/
private theorem isWord_of_header {w : Text} {body : Section}
    (herrors : (parse ("config ".toList ++ w ++ ['\n'])).errors = [])
    (hsections : (parse ("config ".toList ++ w ++ ['\n'])).sections = [body])
    (htype : body.type.map Value.text = some w) : isWord w = true := by
  rw [headerText] at herrors hsections
  obtain ⟨c, gap, e, rows, hk, hgap, hrows, htokens⟩ := exists_firstRow herrors
  -- the value of the first row is the type
  have hfirst : c.first.tokens.flatMap Token.content = w := by
    unfold Parse.sections at hsections
    rw [(parse_accepted hrows htokens).2, listing, hk] at hsections
    have hbody := (List.cons.inj hsections).1
    rw [← hbody] at htype
    exact Option.some.inj htype
  have hfragment : ∀ u ∈ c.first.tokens, Fragment u := by
    intro u hu
    refine .of_mem (t := Keyword.config.text ++ ' ' :: (w ++ ['\n'])) ?_ (c.first.isValuePart u hu)
    rw [htokens]
    simp [Row.tokens, Command.clause, Clause.tokens, Command.parts, Part.tokens, hu]
  have hspace : gap.1.text ≠ [] := by
    refine text_ne_nil_of_mem (t := Keyword.config.text ++ ' ' :: (w ++ ['\n'])) ?_
    rw [htokens]
    simp [Row.tokens, Command.clause, Clause.tokens, Command.parts, Part.tokens, Part.optional,
      hgap]
  -- behind the keyword the text falls into the gap, the written value and what follows
  obtain ⟨tail, hline⟩ : ∃ tail, gap.1.text ++ (c.first.tokens.flatMap Token.text ++ tail) =
      ' ' :: (w ++ ['\n']) := by
    have hall := Token.texts_ofText (Keyword.config.text ++ ' ' :: (w ++ ['\n']))
    rw [htokens] at hall
    simp only [List.flatMap_cons, Row.tokens, Command.clause, Clause.tokens, hk,
      Part.optional, Option.toList_none, List.map_nil, List.flatMap_nil, List.nil_append,
      Command.parts, hgap] at hall
    refine ⟨(furtherParts c.second ++ e.parts).flatMap (fun p => p.tokens.flatMap Token.text) ++
      (rows.flatMap Row.tokens).flatMap Token.text, ?_⟩
    simpa [wordToken, Part.tokens, List.flatMap_assoc] using hall
  have hvalue : c.first.tokens.flatMap Token.text ≠ [] := by
    obtain ⟨u, us, hu⟩ := List.exists_cons_of_ne_nil c.first.ne_nil
    rw [hu, List.flatMap_cons]
    exact List.append_ne_nil_of_left_ne_nil (hfragment u (hu ▸ List.mem_cons_self)).text_ne_nil _
  have hle := Fragment.length_contents_le hfragment
  rw [hfirst] at hle
  have hw := eq_of_line hline hspace hvalue (Fragment.getLast?_texts_ne hfragment) hle
  rw [← hw]
  exact isWord_of_length c.first.ne_nil hfragment (by rw [hfirst, hw])

/-- The row of a header without a name. -/
private def headerRow (w : Text) : Row :=
  .command none ⟨.config, some space, .word w, none, rfl⟩ lineFeed

/-- **A header that is written with a word** gives it back as its type. -/
private theorem header_of_isWord {w : Text} (hw : isWord w = true) :
    (parse ("config ".toList ++ w ++ ['\n'])).errors = [] ∧
      ∃ body, (parse ("config ".toList ++ w ++ ['\n'])).sections = [body] ∧ body.name = none ∧
        body.type.map Value.text = some w := by
  have harg : ∀ u ∈ [wordToken w], Argument u := by
    intro u hu
    rw [List.mem_singleton.mp hu]
    exact .word hw
  have htext : "config ".toList ++ w ++ ['\n'] = written .config [wordToken w] ++ [] := by
    rw [headerText, List.append_nil]
    simp [written, wordToken]
  have htokens : Token.ofText ("config ".toList ++ w ++ ['\n']) =
      [headerRow w].flatMap Row.tokens := by
    rw [htext, ofText_written harg, Token.ofText_nil]
    rfl
  have hended : ∀ r ∈ [headerRow w].dropLast, r.ending.stop ≠ none := List.forall_mem_nil _
  have hnested : Nested false ([headerRow w].flatMap Row.strips) := trivial
  obtain ⟨herrors, hitems⟩ := parse_rows hended hnested htokens
  refine ⟨herrors, ?_⟩
  unfold Parse.sections
  rw [hitems]
  exact ⟨_, rfl, rfl, congrArg some (text_value_word w _)⟩

/-- A bare word is what is read as one word. -/
private theorem isWord_iff_ofText (w : Text) :
    isWord w = true ↔ ∃ u, Token.ofText w = [u] ∧ u.kind = .word := by
  cases w with
  | nil => simp [isWord]
  | cons c w =>
    have hend : Token.ofText (Token.first c w).2 = [] ↔ (Token.first c w).2 = [] := by
      cases (Token.first c w).2 with
      | nil => simp
      | cons d r => simp [Token.ofText_cons]
    simp only [isWord, Token.ofText_cons, Bool.and_eq_true, decide_eq_true_eq, List.cons.injEq,
      hend]
    constructor
    · rintro ⟨hkind, hrest⟩
      exact ⟨_, ⟨rfl, hrest⟩, hkind⟩
    · rintro ⟨u, ⟨rfl, hrest⟩, hkind⟩
      exact ⟨hkind, hrest⟩

/-- A bare word is what holds no character that ends one. -/
private theorem isWord_iff_forall (w : Text) :
    isWord w = true ↔ w ≠ [] ∧
      (∀ c ∈ w, ¬Text.isBlank c = true ∧ c ≠ '\'' ∧ c ≠ '"' ∧ c ≠ '\\') ∧ w.head? ≠ some '#' := by
  have hchar : ∀ c, isWordChar c = true ↔
      ¬Text.isBlank c = true ∧ c ≠ '\'' ∧ c ≠ '"' ∧ c ≠ '\\' := by
    intro c
    simp [isWordChar, and_assoc]
  cases w with
  | nil => simp [isWord]
  | cons c w =>
    rw [isWord_cons, isWordStart, Bool.and_eq_true, Bool.and_eq_true, List.all_eq_true,
      decide_eq_true_iff, List.forall_mem_cons]
    constructor
    · rintro ⟨⟨hc, hhash⟩, hw⟩
      exact ⟨List.cons_ne_nil _ _, ⟨(hchar c).mp hc, fun d hd => (hchar d).mp (hw d hd)⟩,
        fun h => hhash (Option.some.inj h)⟩
    · rintro ⟨-, ⟨hc, hw⟩, hhash⟩
      exact ⟨⟨(hchar c).mpr hc, fun h => hhash (congrArg some h)⟩,
        fun d hd => (hchar d).mpr (hw d hd)⟩

/-- **Bare words are exactly what can be written without quotes and read back.**  It is the same
to be a bare word, to be read as a single word, to hold neither blanks nor quotes nor backslashes
and not to begin with a comment, and to be given back by a header as the type of the only
section. -/
theorem isWord_tfae (w : Text) : List.TFAE [
    isWord w = true,
    ∃ u, Token.ofText w = [u] ∧ u.kind = .word,
    w ≠ [] ∧ (∀ c ∈ w, ¬Text.isBlank c = true ∧ c ≠ '\'' ∧ c ≠ '"' ∧ c ≠ '\\') ∧
      w.head? ≠ some '#',
    (parse ("config ".toList ++ w ++ ['\n'])).errors = [] ∧
      ∃ body, (parse ("config ".toList ++ w ++ ['\n'])).sections = [body] ∧ body.name = none ∧
        body.type.map Value.text = some w] := by
  tfae_have 1 ↔ 2 := isWord_iff_ofText w
  tfae_have 1 ↔ 3 := isWord_iff_forall w
  tfae_have 1 → 4 := header_of_isWord
  tfae_have 4 → 1 := by
    rintro ⟨herrors, body, hsections, -, htype⟩
    exact isWord_of_header herrors hsections htype
  tfae_finish

end Syntax
end Uci
