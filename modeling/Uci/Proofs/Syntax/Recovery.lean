import Uci.Proofs.Syntax.Cutting
import Uci.Proofs.Syntax.Moving

/-!
# A line that is no statement

A line with nothing but a word on it, if that is no keyword, is reported and passed over.  It ends
the section above: what stands behind it is read as if the text began there.  So it is the only
error, and everything else is said as it was without the line, only if no line of a section stands
behind it in front of the next `config`.

## Main definitions

* `NoStatement` — a line that is no statement.
* `Recovers` — nothing but that line is reported, and all else is said as it was.
* `PassesOver` — what is read of a text with such a line in it.

## Main results

* `parse_between` — strips on both sides of such a line are read as two sources.
* `passesOver_of_lineStart` — **a line that is no statement ends the section it stands in.**
-/

namespace Uci
namespace Syntax

/-- **A line that is no statement**: a word that is no keyword, and a line end. -/
structure NoStatement (w feed : Text) : Prop where
  word : isWord w = true
  keyword : ∀ k : Keyword, w ≠ k.text
  feed : feed = ['\n'] ∨ feed = ['\r', '\n']

namespace NoStatement

variable {w feed : Text}

theorem tokens (h : NoStatement w feed) (r : Text) :
    Token.ofText (w ++ feed ++ r) = wordToken w :: ⟨.newline, feed⟩ :: Token.ofText r := by
  have hstops : Stops isWordChar (feed ++ r) := by
    rcases h.feed with rfl | rfl <;> exact stops_cons (by decide)
  have hfeed : Token.ofText (feed ++ r) = ⟨.newline, feed⟩ :: Token.ofText r := by
    rcases h.feed with rfl | rfl
    · exact ofText_newline r
    · exact Token.ofText_cons '\r' ('\n' :: r)
  rw [List.append_assoc, ofText_word h.word hstops, hfeed, wordToken]

/-- No section goes on with it. -/
theorem bars (h : NoStatement w feed) (rest : List Token) : Bars (wordToken w :: rest) where
  trivia := by
    rintro t ⟨⟩
    rfl
  entry k _ more hsplit := h.keyword k (congrArg Token.text (List.cons.inj hsplit).1)

end NoStatement

namespace Parser

variable {p : Parser} {w feed : Text} {rest : List Token}

/-- **A line that is no statement** is reported and passed over. -/
theorem items_of_noStatement (hline : NoStatement w feed) (h : p.rest = wordToken w :: rest) :
    p.items = (p.skipLine (.notAStatement w)).items := by
  have hno : ∀ k : Keyword, p.isAtKeyword k = false := by
    intro k
    rw [Bool.eq_false_iff]
    intro hat
    obtain ⟨more, hmore⟩ := rest_of_isAtKeyword hat
    exact hline.keyword k (congrArg Token.text (List.cons.inj (h.symm.trans hmore)).1)
  have htrivia : ¬p.current.isTrivia = true := by
    rw [current_of_rest h]
    exact Bool.false_ne_true
  have htext : p.currentText = w := currentText_of_rest h
  rw [items_of_not_atEnd (not_atEnd_of_rest h), item, if_neg htrivia]
  simp [hno, htext]

/-- It takes its two tokens, and says nothing. -/
theorem tells_noStatement (hline : NoStatement w feed)
    (h : p.rest = wordToken w :: ⟨.newline, feed⟩ :: rest) :
    ∃ q, q.rest = rest ∧ p.Tells q [wordToken w, ⟨.newline, feed⟩]
      [⟨.notAStatement w, p.offset, p.offset + w.size⟩] fun _ => [] := by
  have hafter : afterLine p.rest = rest := by
    rw [h]
    rfl
  have hsplit : p.rest = [wordToken w, ⟨.newline, feed⟩] ++ rest := h
  have htext : p.currentText = w := currentText_of_rest h
  obtain ⟨htells, hnext⟩ := tells_skipLine hsplit hafter (items_of_noStatement hline h)
  rw [htext] at htells
  exact ⟨_, hnext, htells⟩

end Parser

/-! ### Strips on both sides of the line -/

/-- **Strips on both sides of a line that is no statement** are read as two sources: no line of a
section behind it belongs to a section in front. -/
theorem parse_between {t w feed : Text} {ss ss' : List Strip} (hline : NoStatement w feed)
    (h : Token.ofText t = ss.flatMap Strip.tokens ++
      wordToken w :: ⟨.newline, feed⟩ :: ss'.flatMap Strip.tokens)
    (hs : Sound ss (wordToken w :: ⟨.newline, feed⟩ :: ss'.flatMap Strip.tokens))
    (hs' : Sound ss' []) :
    (parse t).errors = strays false 0 ss ++
        ⟨.notAStatement w, sizeOf (ss.flatMap Strip.tokens),
          sizeOf (ss.flatMap Strip.tokens) + w.size⟩ ::
        strays false (sizeOf (ss.flatMap Strip.tokens) + (w ++ feed).size) ss' ∧
      (parse t).items = (reading 0 ss).2 ++
        (reading (sizeOf (ss.flatMap Strip.tokens) + (w ++ feed).size) ss').2 := by
  have hstart : (Parser.ofText t).start.2.rest = ss.flatMap Strip.tokens ++
      wordToken w :: ⟨.newline, feed⟩ :: ss'.flatMap Strip.tokens := h
  obtain ⟨p, hrest, hfront⟩ := Parser.tells_strips hs (hline.bars _) hstart
  obtain ⟨q, hrest', hpassed⟩ := Parser.tells_noStatement hline hrest
  obtain ⟨q', hend, hback⟩ :=
    Parser.tells_strips hs' bars_nil (hrest'.trans (List.append_nil _).symm)
  have hoffset : p.offset = sizeOf (ss.flatMap Strip.tokens) := by
    rw [hfront.offset]
    exact Nat.zero_add _
  have hbytes : sizeOf [wordToken w, ⟨.newline, feed⟩] = (w ++ feed).size := by
    simp [wordToken]
  obtain ⟨herrors, hitems⟩ := parse_of_tells (hfront.trans (hpassed.trans hback)) hend
  rw [hpassed.offset, hoffset, hbytes] at herrors
  rw [hbytes, Nat.zero_add] at hitems
  exact ⟨herrors, hitems⟩

/-! ### A text with such a line in it -/

variable {before after w feed : Text}

/-- **The strips of a text that is cut at a line start.** -/
private theorem exists_strips (hstart : LineStart before after)
    (herrors : (parse (before ++ after)).errors = []) :
    ∃ ss ss' : List Strip, Token.ofText before = ss.flatMap Strip.tokens ∧
      Token.ofText after = ss'.flatMap Strip.tokens ∧ (∀ rest, Sound ss rest) ∧ Sound ss' [] ∧
      Nested false (ss ++ ss') ∧ (parse (before ++ after)).items = (reading 0 (ss ++ ss')).2 := by
  have hended := hstart.ended herrors
  obtain ⟨rows, hrows, htokens⟩ := exists_accepted herrors
  rw [ofText_append hended] at htokens
  obtain ⟨above, below, rfl, habove, hbelow, hstops⟩ :=
    exists_rows_append htokens.symm hended hrows.ended
  have hsound := sound_rows hrows.ended
  rw [List.flatMap_append] at hsound
  have htokens' : Token.ofText (before ++ after) =
      (above.flatMap Row.strips ++ below.flatMap Row.strips).flatMap Strip.tokens := by
    rw [ofText_append hended, List.flatMap_append, tokens_rows, tokens_rows, habove, hbelow]
  obtain ⟨hfaults, hitems⟩ := parse_sound htokens' hsound
  refine ⟨_, _, ?_, ?_, sound_stopped hstops, (sound_append.mp hsound).2, ?_, hitems⟩
  · rw [tokens_rows, habove]
  · rw [tokens_rows, hbelow]
  · exact strays_eq_nil_iff.mp (hfaults.symm.trans herrors)

/-- What a source says, wherever it says it. -/
def Parse.said (p : Parse) : List Item := p.items.map (Item.moved fun _ => 0)

/-- **The parser recovers** from a line with a word on it: one error is reported, on that word,
and everything else is said as it was without the line. -/
structure Recovers (before w feed after : Text) : Prop where
  errors : (parse (before ++ (w ++ feed ++ after))).errors.map SyntaxError.range =
    [(before.size, before.size + w.size)]
  said : (parse (before ++ (w ++ feed ++ after))).said = (parse (before ++ after)).said

/-- **The parser passes over** such a line: what stands in front of it and what stands behind it
are read like two texts. -/
structure PassesOver (before w feed after : Text) : Prop where
  errors : (parse (before ++ (w ++ feed ++ after))).errors =
    ⟨.notAStatement w, before.size, before.size + w.size⟩ ::
      (parse after).errors.map (SyntaxError.moved (before.size + (w ++ feed).size + ·))
  items : (parse (before ++ (w ++ feed ++ after))).items = (parse before).items ++
    (parse after).items.map (Item.moved (before.size + (w ++ feed).size + ·))
  /-- What is lost are lines of the section that ends there. -/
  lost : ∀ e ∈ (parse after).errors, ∃ k : Keyword, k.isEntry = true ∧
    e.fault = .outsideSection k.text
  recovers : Recovers before w feed after ↔ (parse after).errors = []

/-- **A line that is no statement ends the section it stands in.**  In a text without errors the
parser recovers from it if and only if what stands behind it is a source of its own. -/
theorem passesOver_of_lineStart (hline : NoStatement w feed) (hstart : LineStart before after)
    (herrors : (parse (before ++ after)).errors = []) : PassesOver before w feed after := by
  obtain ⟨ss, ss', hfront, hback, hsound, hsound', hnested, hwithout⟩ :=
    exists_strips hstart herrors
  have hsize : sizeOf (ss.flatMap Strip.tokens) = before.size := by rw [← hfront, sizeOf_ofText]
  obtain ⟨-, hitems⟩ := parse_sound hfront (hsound [])
  obtain ⟨herrors', hitems'⟩ := parse_sound hback hsound'
  have htokens : Token.ofText (before ++ (w ++ feed ++ after)) = ss.flatMap Strip.tokens ++
      wordToken w :: ⟨.newline, feed⟩ :: ss'.flatMap Strip.tokens := by
    rw [ofText_append (hstart.ended herrors), hline.tokens, hfront, hback]
  -- what stands behind says the same wherever it begins
  have hplaced : ∀ n, strays false n ss' = (parse after).errors.map (SyntaxError.moved (n + ·)) ∧
      (reading n ss').2 = (parse after).items.map (Item.moved (n + ·)) := by
    intro n
    rw [herrors', hitems']
    exact ⟨strays_add false n 0 ss', congrArg Prod.snd (reading_add n 0 ss')⟩
  obtain ⟨hfaults, hsaid⟩ := parse_between hline htokens (hsound _) hsound'
  rw [strays_eq_nil_iff.mpr hnested.of_append, List.nil_append, hsize, (hplaced _).1] at hfaults
  rw [hsize, ← hitems, (hplaced _).2] at hsaid
  refine ⟨hfaults, hsaid, ?_, ?_, ?_⟩
  · intro e he
    rw [herrors'] at he
    exact fault_of_mem_strays he
  · intro h
    have hone := h.errors
    rw [hfaults, List.map_cons] at hone
    exact List.map_eq_nil_iff.mp (List.map_eq_nil_iff.mp (List.cons.inj hone).2)
  · intro h
    refine ⟨by rw [hfaults, h]; rfl, ?_⟩
    have hmore : Nested false ss' := strays_eq_nil_iff.mp (herrors'.symm.trans h)
    rw [reading_behind hmore, Nat.zero_add, hsize, (hplaced _).2, ← hitems] at hwithout
    unfold Parse.said
    rw [hsaid, hwithout]
    simp [Function.comp_def]

/-- Between two sections the parser recovers, with a comment behind the line. -/
theorem passesOver_betweenSections :
    let before : Text := "config a\n\toption x 1\n".toList
    let after : Text := "# b\nconfig b\n".toList
    NoStatement "foo".toList ['\r', '\n'] ∧ LineStart before after ∧
      (parse (before ++ after)).errors = [] ∧
      PassesOver before "foo".toList ['\r', '\n'] after ∧
      Recovers before "foo".toList ['\r', '\n'] after := by
  intro before after
  have hline : NoStatement "foo".toList ['\r', '\n'] :=
    ⟨by decide, fun k => by cases k <;> decide, Or.inr rfl⟩
  have hstart : LineStart before after :=
    ⟨⟨Token.ofText before, Token.ofText after, by decide +kernel, by decide +kernel⟩,
      Or.inr ⟨before.dropLast, by decide +kernel⟩⟩
  have herrors : (parse (before ++ after)).errors = [] := by decide +kernel
  have hpasses := passesOver_of_lineStart hline hstart herrors
  exact ⟨hline, hstart, herrors, hpasses, hpasses.recovers.mpr (by decide +kernel)⟩

/-- **Inside a section it does not**: the option behind the line is reported too, and is not said
any more. -/
theorem not_recovers_insideSection :
    let before : Text := "config a\n\toption x 1\n".toList
    let after : Text := "\toption y 2\n".toList
    NoStatement "foo".toList ['\n'] ∧ LineStart before after ∧
      (parse (before ++ after)).errors = [] ∧
      (parse (before ++ ("foo\n".toList ++ after))).errors =
        [⟨.notAStatement "foo".toList, 21, 24⟩, ⟨.outsideSection "option".toList, 26, 32⟩] ∧
      (parse (before ++ ("foo\n".toList ++ after))).said = (parse before).said ∧
      (parse before).said ≠ (parse (before ++ after)).said ∧
      ¬Recovers before "foo".toList ['\n'] after := by
  intro before after
  refine ⟨⟨by decide, fun k => by cases k <;> decide, Or.inl rfl⟩,
    ⟨⟨Token.ofText before, Token.ofText after, by decide +kernel, by decide +kernel⟩,
      Or.inr ⟨before.dropLast, by decide +kernel⟩⟩,
    by decide +kernel, by decide +kernel, by decide +kernel, by decide +kernel, fun h => ?_⟩
  exact absurd h.errors (by decide +kernel)

end Syntax
end Uci
