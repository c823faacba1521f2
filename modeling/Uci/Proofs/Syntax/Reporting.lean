import Mathlib.Data.List.Basic
import Uci.Proofs.Syntax.Sound
import Uci.Proofs.Text.Position

/-!
# Where errors are reported

A rule reports the token that comes next and takes it before anything else is reported.  So the
reported tokens are some of the tokens of the source, in its order and each of them once.  The
end of the source cannot be taken, but nothing is read behind it, and it is reported once at most.

## Main definitions

* `ranges` — the bytes of tokens, one range for each.
* `Parser.Advances` — a rule takes tokens and reports nothing.
* `Parser.Clear`, `Parser.Reporting`, `Parser.Settled` — which tokens a parser has reported: only
  such as are behind it, perhaps the next one too, and this only at the end.

## Main results

* `Parser.settled_items` — every rule settles what it reports.
* `reported_parse` — **the errors of a text cover some of its tokens, in order, and perhaps its
  end.**
* `pairwise_errors` — they do not overlap.
-/

namespace Uci
namespace Syntax

/-- The bytes that an error covers. -/
def SyntaxError.range (e : SyntaxError) : Nat × Nat := (e.start, e.stop)

/-- **The bytes of tokens**, of which the first stands at an offset. -/
def ranges (o : Nat) (ts : List Token) : List (Nat × Nat) := (Token.spans o ts).map Prod.snd

@[simp] theorem ranges_cons (o : Nat) (t : Token) (ts : List Token) :
    ranges o (t :: ts) = (o, o + t.text.size) :: ranges (o + t.text.size) ts := rfl

theorem ranges_append (o : Nat) (ts us : List Token) :
    ranges o (ts ++ us) = ranges o ts ++ ranges (o + sizeOf ts) us := by
  induction ts generalizing o with
  | nil => rfl
  | cons t ts ih => simp [ih, Nat.add_assoc]

namespace Parser

variable {p q r : Parser} {source read : List Token} {k : Kind} {fault : Fault}
  {rule : Parser → Parser}

/-! ### Rules that report nothing -/

/-- **A rule takes tokens** and reports nothing. -/
structure Advances (p q : Parser) : Prop where
  errors : q.errors = p.errors
  tokens : ∃ ts, p.rest = ts ++ q.rest ∧ q.offset = p.offset + sizeOf ts

namespace Advances

/-- What the log and its marks are does not matter. -/
theorem of_eq (herrors : q.errors = p.errors) (hrest : q.rest = p.rest)
    (hoffset : q.offset = p.offset) : p.Advances q where
  errors := herrors
  tokens := ⟨[], hrest.symm, hoffset⟩

theorem refl (p : Parser) : p.Advances p := of_eq rfl rfl rfl

theorem trans (h : p.Advances q) (h' : q.Advances r) : p.Advances r where
  errors := h'.errors.trans h.errors
  tokens := by
    obtain ⟨ts, hrest, hoffset⟩ := h.tokens
    obtain ⟨us, hrest', hoffset'⟩ := h'.tokens
    refine ⟨ts ++ us, ?_, ?_⟩
    · rw [hrest, hrest', List.append_assoc]
    · rw [hoffset', hoffset, sizeOf_append, Nat.add_assoc]

theorem bumpAs (p : Parser) (k : Kind) : p.Advances (p.bumpAs k) := by
  unfold Parser.bumpAs
  cases h : p.rest with
  | nil => exact refl p
  | cons t ts => exact ⟨rfl, [t], h, by simp⟩

theorem bump (p : Parser) : p.Advances p.bump := bumpAs p _

theorem eat (p : Parser) (k : Kind) : p.Advances (p.eat k).2 := by
  unfold Parser.eat
  split
  · exact bump p
  · exact refl p

theorem bumpWhile (p : Parser) (test : Kind → Bool) : p.Advances (p.bumpWhile test) := by
  unfold Parser.bumpWhile
  generalize p.rest.takeWhile (fun t => test t.kind) = ts
  induction ts generalizing p with
  | nil => exact refl p
  | cons t ts ih => exact (bump p).trans (ih p.bump)

theorem start (p : Parser) : p.Advances p.start.2 := of_eq rfl rfl rfl

theorem complete (p : Parser) (m : Marker) (k : Kind) : p.Advances (p.complete m k).2 :=
  of_eq rfl rfl rfl

theorem precede (p : Parser) (c : Completed) : p.Advances (p.precede c).2 := by
  unfold Parser.precede
  split <;> exact of_eq rfl rfl rfl

theorem node (h : p.start.2.Advances (rule p.start.2)) : p.Advances (p.node k rule).2 :=
  ((start p).trans h).trans (complete _ _ k)

theorem value (p : Parser) : p.Advances p.value.2 := by
  unfold Parser.value
  dsimp only
  split
  · have hnode : (p.eat .whitespace).2.Advances
        ((p.eat .whitespace).2.node .value fun p => p.bumpWhile Kind.isValuePart).2 :=
      node (bumpWhile _ _)
    exact (eat p .whitespace).trans hnode
  · exact eat p .whitespace

theorem errorLine (p : Parser) : p.Advances p.errorLine :=
  (node (bumpWhile p.start.2 fun k => k ≠ .newline)).trans (eat _ .newline)

theorem lineEnd (p : Parser) : p.Advances p.lineEnd :=
  (eat p .whitespace).trans (eat _ .comment)

/-- The line of a statement that was reported before is not reported again. -/
theorem finishLine (p : Parser) : p.Advances (p.finishLine false) := by
  rw [finishLine_eq]
  split
  · exact lineEnd p
  split
  · exact (lineEnd p).trans (bump _)
  · rw [if_neg (by decide)]
    exact (lineEnd p).trans (errorLine _)

end Advances

/-! ### What has been reported -/

/-- What a parser has reported. -/
def reported (p : Parser) : List (Nat × Nat) := p.errors.toList.map SyntaxError.range

/-- **How far a parser has come** in a source. -/
structure At (source read : List Token) (p : Parser) : Prop where
  tokens : source = read ++ p.rest
  offset : p.offset = sizeOf read

/-- **Every reported token has been taken.** -/
def Clear (source : List Token) (p : Parser) : Prop :=
  ∃ read, p.At source read ∧ p.reported.Sublist (ranges 0 read)

/-- **The next token may have been reported, too.** -/
def Reporting (source : List Token) (p : Parser) : Prop :=
  ∃ read, p.At source read ∧ p.reported.Sublist (ranges 0 read ++ [p.currentRange])

/-- **Every reported token has been taken**, and the end can have been reported only if it has
come. -/
def Settled (source : List Token) (p : Parser) : Prop :=
  p.Clear source ∨ p.rest = [] ∧ p.Reporting source

theorem At.advance {ts : List Token} (h : p.At source read) (hrest : p.rest = ts ++ q.rest)
    (hoffset : q.offset = p.offset + sizeOf ts) : q.At source (read ++ ts) where
  tokens := by rw [h.tokens, hrest, List.append_assoc]
  offset := by rw [hoffset, h.offset, sizeOf_append]

theorem Advances.reported (h : p.Advances q) : q.reported = p.reported := by
  unfold Parser.reported
  rw [h.errors]

theorem Clear.advance (h : p.Clear source) (hadv : p.Advances q) : q.Clear source := by
  obtain ⟨read, hat, hsub⟩ := h
  obtain ⟨ts, hrest, hoffset⟩ := hadv.tokens
  refine ⟨read ++ ts, hat.advance hrest hoffset, ?_⟩
  rw [hadv.reported, ranges_append]
  exact hsub.trans (List.sublist_append_left _ _)

theorem Clear.error (h : p.Clear source) (fault : Fault) : (p.error fault).Reporting source := by
  obtain ⟨read, hat, hsub⟩ := h
  refine ⟨read, ⟨hat.tokens, hat.offset⟩, ?_⟩
  have hnew : (p.error fault).reported = p.reported ++ [p.currentRange] := by
    simp [Parser.reported, Parser.error, SyntaxError.range]
  rw [hnew]
  exact hsub.append_right _

/-- What was reported is settled by taking it; at the end there is nothing to take. -/
theorem Reporting.advance (h : p.Reporting source) (hadv : p.Advances q)
    (hlt : p.rest ≠ [] → q.rest.length < p.rest.length) : q.Settled source := by
  obtain ⟨read, hat, hsub⟩ := h
  obtain ⟨ts, hrest, hoffset⟩ := hadv.tokens
  have hat' := hat.advance hrest hoffset
  cases ts with
  | nil =>
    have hsame : p.rest = q.rest := hrest
    have hnil : p.rest = [] := by
      by_contra hne
      exact absurd (hlt hne) (by rw [hsame]; exact Nat.lt_irrefl _)
    have hrange : q.currentRange = p.currentRange := by
      simp [currentRange, currentText, ← hsame, hoffset]
    rw [List.append_nil] at hat'
    refine Or.inr ⟨hsame ▸ hnil, read, hat', ?_⟩
    rwa [hadv.reported, hrange]
  | cons t ts =>
    have hrange : p.currentRange = (sizeOf read, sizeOf read + t.text.size) := by
      simp [currentRange, currentText, hrest, hat.offset]
    refine Or.inl ⟨_, hat', ?_⟩
    rw [hadv.reported, ranges_append, ranges_cons, Nat.zero_add]
    rw [hrange] at hsub
    exact hsub.trans ((List.Sublist.refl _).append (by simp))

theorem Settled.clear (h : p.Settled source) (hne : p.rest ≠ []) : p.Clear source :=
  h.resolve_right fun hend => hne hend.1

theorem Settled.advance (h : p.Settled source) (hadv : p.Advances q) : q.Settled source := by
  rcases h with hclear | ⟨hnil, hreporting⟩
  · exact Or.inl (hclear.advance hadv)
  · exact hreporting.advance hadv fun hne => absurd hnil hne

/-! ### Rules that report -/

/-- Reporting a line and reading over it. -/
theorem settled_skipLine (h : p.Clear source) (hend : ¬p.atEnd = true) (fault : Fault) :
    (p.skipLine fault).Settled source :=
  (h.error fault).advance (Advances.errorLine _) fun _ => length_skipLine_lt hend fault

theorem settled_finishLine (h : p.Clear source) (sound : Bool) :
    (p.finishLine sound).Settled source := by
  have hend := h.advance (Advances.lineEnd p)
  rw [finishLine_eq]
  split
  · exact Or.inl hend
  next hmore =>
  split
  · exact Or.inl (hend.advance (Advances.bump _))
  split
  · exact settled_skipLine hend hmore _
  · exact Or.inl (hend.advance (Advances.errorLine _))

theorem settled_finishWithout (h : p.Clear source) (piece : Piece) :
    (p.finishWithout piece).Settled source := by
  refine (h.error _).advance (Advances.finishLine _) fun hne => ?_
  rw [rest_finishWithout]
  exact length_afterLine_lt hne

theorem settled_further (h : p.Clear source) (k : Keyword) : (further k p).Settled source := by
  have hvalue := h.advance (Advances.value p)
  cases k with
  | package => exact settled_finishLine h true
  | config | list => exact settled_finishLine hvalue true
  | option =>
    unfold further
    dsimp only
    split
    · exact settled_finishLine hvalue true
    · exact settled_finishWithout hvalue _

theorem settled_lineRule (h : p.Clear source) (k : Keyword) : (lineRule k p).Settled source := by
  have hvalue := (h.advance (Advances.bumpAs p k.kind)).advance (Advances.value _)
  unfold lineRule
  split
  · exact settled_further hvalue k
  · exact settled_finishWithout hvalue _

/-- The line of a statement. -/
theorem settled_clause {k : Keyword} (h : p.Settled source) (hat : p.isAtKeyword k = true) :
    (p.node k.node (lineRule k)).2.Settled source := by
  have hstart := (h.clear (rest_ne_nil hat)).advance (Advances.start p)
  exact (settled_lineRule hstart k).advance (Advances.complete _ _ _)

/-- The lines of a section. -/
theorem settled_entries (h : p.Settled source) : p.entries.Settled source := by
  induction p using entries.induct with
  | case1 p ho hlt ih =>
    rw [entries_of_option ho]
    have hskip : p.skipTrivia.Settled source := h.advance (Advances.bumpWhile p _)
    refine ih ?_
    rw [option_eq]
    exact settled_clause hskip ho
  | case2 p ho hl hlt ih =>
    rw [entries_of_list ho hl]
    have hskip : p.skipTrivia.Settled source := h.advance (Advances.bumpWhile p _)
    refine ih ?_
    rw [list_eq]
    exact settled_clause hskip hl
  | case3 p ho hl =>
    rw [entries_of_other ho hl]
    exact h.advance (Advances.bumpWhile p _)

theorem settled_section (h : p.Settled source) (hat : p.isAtKeyword .config = true) :
    p.section.Settled source := by
  have hheader : p.sectionHeader.2.Settled source := by
    rw [sectionHeader_eq]
    exact settled_clause h hat
  have hbody := settled_entries (hheader.advance (Advances.precede _ p.sectionHeader.1))
  exact hbody.advance (Advances.complete _ _ _)

theorem settled_item (h : p.Settled source) (hend : ¬p.atEnd = true) : p.item.Settled source := by
  have hclear : p.Clear source := h.clear fun hnil => hend (List.isEmpty_iff.mpr hnil)
  unfold item
  split
  · exact h.advance (Advances.bump p)
  split
  · exact settled_section h ‹_›
  split
  · rw [package_eq]
    exact settled_clause h ‹_›
  split
  · exact settled_skipLine hclear hend _
  · exact settled_skipLine hclear hend _

/-- **Whole sources**: whatever is reported is settled. -/
theorem settled_items (h : p.Settled source) : p.items.Settled source := by
  induction p using item_induction with
  | nil p hend => rwa [items_of_atEnd hend]
  | item p hend ih =>
    rw [items_of_not_atEnd hend]
    exact ih (settled_item h hend)

end Parser

/-! ### The errors of a text -/

theorem sizeOf_ofText (t : Text) : sizeOf (Token.ofText t) = t.size := by
  rw [sizeOf, Token.texts_ofText]

/-- **The errors of a text cover some of its tokens**, in order, and perhaps its end. -/
theorem reported_parse (t : Text) :
    ((parse t).errors.map SyntaxError.range).Sublist
      (ranges 0 (Token.ofText t) ++ [(t.size, t.size)]) := by
  have hstart : (Parser.ofText t).start.2.Settled (Token.ofText t) :=
    Or.inl ⟨[], ⟨rfl, rfl⟩, List.nil_sublist _⟩
  have hend : (Parser.ofText t).start.2.items.rest = [] :=
    (Parser.spans_items (lexed_ofText t)).1
  have herrors : (parse t).errors.map SyntaxError.range =
      (Parser.ofText t).start.2.items.reported := rfl
  rw [herrors]
  rcases Parser.settled_items hstart with ⟨read, hat, hsub⟩ | ⟨-, read, hat, hsub⟩
  all_goals
    have hread : Token.ofText t = read := by rw [hat.tokens, hend, List.append_nil]
  · rw [hread]
    exact hsub.trans (List.sublist_append_left _ _)
  · have hrange : (Parser.ofText t).start.2.items.currentRange = (t.size, t.size) := by
      simp [Parser.currentRange, Parser.currentText, hend, hat.offset, ← hread, sizeOf_ofText]
    rwa [hread, ← hrange]

/-- A token holds a character. -/
theorem text_ne_nil_of_mem {t : Text} {u : Token} (h : u ∈ Token.ofText t) : u.text ≠ [] := by
  induction t using Token.ofText.induct with
  | case1 => simp at h
  | case2 c t ih =>
    rw [Token.ofText_cons, List.mem_cons] at h
    rcases h with rfl | h
    · exact Token.first_text_ne_nil c t
    · exact ih h

/-- Tokens begin at or behind the offset of the first one. -/
private theorem le_of_mem_ranges {o : Nat} {ts : List Token} {r : Nat × Nat}
    (h : r ∈ ranges o ts) : o ≤ r.1 := by
  induction ts generalizing o with
  | nil => cases h
  | cons t ts ih =>
    rw [ranges_cons, List.mem_cons] at h
    rcases h with rfl | h
    · exact le_rfl
    · exact Nat.le_trans (Nat.le_add_right _ _) (ih h)

/-- Tokens, and the end behind them, do not overlap. -/
private theorem pairwise_ranges {ts : List Token} (hne : ∀ t ∈ ts, t.text ≠ []) (o : Nat) :
    (ranges o ts ++ [(o + sizeOf ts, o + sizeOf ts)]).Pairwise
      fun r r' => r.1 < r'.1 ∧ r.2 ≤ r'.1 := by
  induction ts generalizing o with
  | nil => exact List.pairwise_singleton _ _
  | cons t ts ih =>
    obtain ⟨ht, hts⟩ := List.forall_mem_cons.mp hne
    have hpos : 0 < t.text.size :=
      Nat.lt_of_lt_of_le (List.length_pos_iff.mpr ht) (Text.length_le_size _)
    have hmore := ih hts (o + t.text.size)
    rw [ranges_cons, sizeOf_cons, ← Nat.add_assoc, List.cons_append, List.pairwise_cons]
    refine ⟨fun r hr => ?_, hmore⟩
    have hle : o + t.text.size ≤ r.1 := by
      rcases List.mem_append.mp hr with hr | hr
      · exact le_of_mem_ranges hr
      · rw [List.mem_singleton.mp hr]
        exact Nat.le_add_right _ _
    exact ⟨by omega, hle⟩

/-- **The errors of a text stand in its order and do not overlap.** -/
theorem pairwise_errors (t : Text) :
    (parse t).errors.Pairwise fun e e' => e.start < e'.start ∧ e.stop ≤ e'.start := by
  have hall := pairwise_ranges (fun u hu => text_ne_nil_of_mem (t := t) hu) 0
  rw [Nat.zero_add, sizeOf_ofText] at hall
  exact List.pairwise_map.mp (hall.sublist (reported_parse t))

/-- A token stands between the tokens before it and the tokens behind it. -/
theorem exists_split_of_mem_spans {o : Nat} {ts : List Token} {u : Token} {r : Nat × Nat}
    (h : (u, r) ∈ Token.spans o ts) :
    ∃ front back, ts = front ++ u :: back ∧ r = (o + sizeOf front, o + sizeOf front + u.text.size)
    := by
  induction ts generalizing o with
  | nil => cases h
  | cons t ts ih =>
    rw [Token.spans, List.mem_cons] at h
    rcases h with h | h
    · cases h
      exact ⟨[], ts, rfl, rfl⟩
    · obtain ⟨front, back, rfl, rfl⟩ := ih h
      exact ⟨t :: front, back, rfl, by rw [sizeOf_cons, ← Nat.add_assoc]⟩

end Syntax
end Uci
