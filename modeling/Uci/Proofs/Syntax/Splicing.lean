import Uci.Proofs.Syntax.Script

/-!
# Lines that are put into a text

Behind a line end a text can be cut in two: what stands behind does not change the tokens in
front, and no row reaches over the cut.  So a line can be put there.  An entry that is put into a
section is read as one more line of it, and all that was said before and behind is said as before.

## Main definitions

* `Ended` — tokens up to a line end.
* `saying` — what rows say, without the places of the values.

## Main results

* `ofText_append` — the tokens of a text that ends with a line end stay the same.
* `exists_rows_append` — rows are cut where their tokens are.
* `saying_append` — what stands behind rows of an open section is said in it.
* `script_insert` — **an entry that is put into a section is one more line of it.**
-/

namespace Uci
namespace Syntax

/-- **Tokens up to a line end**, or none at all. -/
def Ended (ts : List Token) : Prop := ∀ u ∈ ts.getLast?, u.kind = .newline

theorem ended_concat {ts : List Token} {u : Token} : Ended (ts ++ [u]) ↔ u.kind = .newline := by
  unfold Ended
  rw [List.getLast?_concat]
  exact ⟨fun h => h u rfl, fun h v hv => Option.some.inj hv ▸ h⟩

/-- Whether tokens end with a line end is decided by the last ones. -/
theorem Ended.of_append {ts us : List Token} (h : Ended (ts ++ us)) (hne : us ≠ []) : Ended us := by
  unfold Ended at *
  rwa [List.getLast?_append_of_ne_nil _ hne] at h

/-! ### The tokens of a text with another one behind it -/

theorem ofText_eq_nil {t : Text} : Token.ofText t = [] ↔ t = [] := by
  cases t with
  | nil => simp
  | cons c t => simp [Token.ofText_cons]

/-- **The tokens of a text that ends with a line end** stay the same whatever follows. -/
theorem ofText_append {s : Text} (h : Ended (Token.ofText s)) (r : Text) :
    Token.ofText (s ++ r) = Token.ofText s ++ Token.ofText r := by
  generalize hts : Token.ofText s = ts at h ⊢
  induction ts generalizing s with
  | nil => rw [ofText_eq_nil.mp hts, List.nil_append, List.nil_append]
  | cons u ts ih =>
    obtain ⟨s, rfl, hcut, hmore⟩ := exists_cut hts
    have hend : Ended ts ∧ Cut u (s ++ r) := by
      by_cases hnil : ts = []
      · -- the line end itself
        subst hnil
        exact ⟨nofun, hcut.of_newline (h u rfl) _⟩
      · have hlast : Ended ([u] ++ ts) := h
        refine ⟨hlast.of_append hnil, hcut.append ?_ ?_ r⟩
        · exact fun hs => hnil (hmore.symm.trans (ofText_eq_nil.mpr hs))
        · rintro rfl
          have hslash : Token.ofText ['\\'] = [⟨.unknown, ['\\']⟩] := by
            rw [Token.ofText_cons]
            exact congrArg _ Token.ofText_nil
          rw [← hmore, hslash] at hlast
          cases hlast _ rfl
    rw [List.append_assoc, ofText_of_cut hend.2, ih hmore hend.1, List.cons_append]

/-! ### Rows are cut where their tokens are -/

/-- **What stands on a line that is right**, in front of its line end. -/
def Kind.isInline : Kind → Bool
  | whitespace | comment | word | singleQuoted | doubleQuoted => true
  | _ => false

theorem Kind.isInline_of_isValuePart {k : Kind} (h : k.isValuePart = true) : k.isInline = true := by
  cases k <;> first | rfl | cases h

theorem Kind.ne_newline_of_isInline {k : Kind} (h : k.isInline = true) : k ≠ .newline := by
  rintro rfl
  cases h

section

variable {r : Row} {u : Token}

theorem kind_of_mem_optional {k : Kind} {o : Option (TokenOf k)}
    (h : u ∈ (Part.optional o).flatMap Part.tokens) : u.kind = k := by
  cases o with
  | none => cases h
  | some t =>
    rw [List.mem_singleton.mp h]
    exact t.2

private theorem isInline_of_mem_lineEnd {e : Ending}
    (h : u ∈ (Part.optional e.space ++ Part.optional e.comment).flatMap Part.tokens) :
    u.kind.isInline = true := by
  rw [List.flatMap_append, List.mem_append] at h
  rcases h with h | h
  all_goals
    rw [kind_of_mem_optional h]
    rfl

theorem Run.isInline {v : Run} (h : u ∈ v.tokens) : u.kind.isInline = true :=
  Kind.isInline_of_isValuePart (v.isValuePart u h)

private theorem isInline_of_mem_command {c : Command}
    (h : u ∈ c.parts.flatMap Part.tokens) : u.kind.isInline = true := by
  rw [Command.parts, List.flatMap_append, List.flatMap_cons, List.mem_append,
    List.mem_append] at h
  rcases h with h | h | h
  · rw [kind_of_mem_optional h]
    rfl
  · exact Run.isInline h
  · cases hsecond : c.second with
    | none =>
      rw [hsecond] at h
      cases h
    | some v =>
      rw [hsecond] at h
      rcases List.mem_cons.mp h with rfl | h
      · rw [v.1.2]
        rfl
      · exact Run.isInline (v := v.2) (by simpa [Part.tokens] using h)

/-- A row with another line end, or without one. -/
def Row.withStop (stop : Option (TokenOf .newline)) : Row → Row
  | .blank e => .blank { e with stop }
  | .command indent c e => .command indent c { e with stop }

@[simp] theorem Row.withStop_ending (r : Row) : r.withStop r.ending.stop = r := by cases r <;> rfl

/-- **A row is what stands on its line, and the line end.** -/
theorem exists_body (r : Row) :
    ∃ body, (∀ stop, (r.withStop stop).tokens =
      body ++ (Part.optional stop).flatMap Part.tokens) ∧ ∀ u ∈ body, u.kind.isInline = true := by
  cases r with
  | blank e =>
    refine ⟨_, fun stop => ?_, fun u => isInline_of_mem_lineEnd (e := e)⟩
    simp [Row.withStop, Row.tokens, Ending.parts]
  | command indent c e =>
    refine ⟨(Part.optional indent).flatMap Part.tokens ++ wordToken c.keyword.text ::
      (c.parts.flatMap Part.tokens ++
        (Part.optional e.space ++ Part.optional e.comment).flatMap Part.tokens), fun stop => ?_, ?_⟩
    · simp [Row.withStop, Row.tokens, Ending.parts, Command.clause, Clause.tokens]
    · intro u hu
      rcases List.mem_append.mp hu with hu | hu
      · rw [kind_of_mem_optional hu]
        rfl
      rcases List.mem_cons.mp hu with rfl | hu
      · rfl
      rcases List.mem_append.mp hu with hu | hu
      · exact isInline_of_mem_command hu
      · exact isInline_of_mem_lineEnd hu

/-- A line end that stands in a row ends it. -/
private theorem cut_row {ts us : List Token} (h : r.tokens = ts ++ us) (hne : ts ≠ [])
    (hts : Ended ts) : us = [] ∧ r.ending.stop ≠ none := by
  obtain ⟨body, hbodies, hbody⟩ := exists_body r
  have htokens := hbodies r.ending.stop
  rw [Row.withStop_ending] at htokens
  obtain ⟨front, u, rfl⟩ := (List.eq_nil_or_concat' ts).resolve_left hne
  have hu : u.kind = .newline := ended_concat.mp hts
  rw [htokens] at h
  -- it does not stand in front of the end of the row
  have hnot : u ∉ body := fun hmem => Kind.ne_newline_of_isInline (hbody u hmem) hu
  cases hstop : r.ending.stop with
  | none =>
    rw [hstop] at h
    have hbody : body = front ++ [u] ++ us := (List.append_nil body).symm.trans h
    exact absurd (by simp [hbody]) hnot
  | some s =>
    rw [hstop] at h
    refine ⟨?_, Option.some_ne_none _⟩
    rcases List.eq_nil_or_concat' us with hnil | ⟨init, last, rfl⟩
    · exact hnil
    · rw [← List.append_assoc] at h
      have hbody : body = front ++ [u] ++ init := (List.append_inj' h rfl).1
      exact absurd (by simp [hbody]) hnot

end

/-- **Rows are cut where their tokens are**, if that is at a line end. -/
theorem exists_rows_append {rows : List Row} {ts us : List Token}
    (h : rows.flatMap Row.tokens = ts ++ us) (hts : Ended ts)
    (hended : ∀ r ∈ rows.dropLast, r.ending.stop ≠ none) :
    ∃ above below, rows = above ++ below ∧ above.flatMap Row.tokens = ts ∧
      below.flatMap Row.tokens = us ∧ ∀ r ∈ above, r.ending.stop ≠ none := by
  induction rows generalizing ts with
  | nil =>
    obtain ⟨rfl, rfl⟩ := List.append_eq_nil_iff.mp h.symm
    exact ⟨[], [], rfl, rfl, rfl, List.forall_mem_nil _⟩
  | cons r rows ih =>
    obtain ⟨hstop, hmore⟩ := ended_cons.mp hended
    by_cases hnil : ts = []
    · exact ⟨[], r :: rows, rfl, hnil.symm, by rw [h, hnil]; rfl, List.forall_mem_nil _⟩
    rw [List.flatMap_cons] at h
    rcases List.append_eq_append_iff.mp h with ⟨more, rfl, hrest⟩ | ⟨more, hr, rfl⟩
    · by_cases hno : more = []
      · subst hno
        obtain ⟨-, hstop⟩ := cut_row (List.append_nil _).symm (by simpa using hnil)
          (by simpa using hts)
        exact ⟨[r], rows, rfl, by simp, hrest, List.forall_mem_singleton.mpr hstop⟩
      · obtain ⟨above, below, rfl, habove, hbelow, hstops⟩ :=
          ih hrest (hts.of_append hno) hmore
        have hrows : above ++ below ≠ [] := by
          intro hrows
          rw [hrows] at hrest
          exact hno (List.append_eq_nil_iff.mp hrest.symm).1
        exact ⟨r :: above, below, rfl, by rw [List.flatMap_cons, habove], hbelow,
          List.forall_mem_cons.mpr ⟨hstop hrows, hstops⟩⟩
    · obtain ⟨rfl, hstop⟩ := cut_row hr hnil hts
      rw [List.append_nil] at hr
      refine ⟨[r], rows, rfl, ?_, rfl, ?_⟩
      · rw [List.flatMap_singleton, hr]
      · exact List.forall_mem_singleton.mpr hstop

/-! ### What rows say -/

/-- What a value stands for. -/
def Run.text (v : Run) : Text := v.tokens.flatMap Token.content

/-- What the second value of a command stands for. -/
def Command.secondText (c : Command) : Option Text := c.second.map fun v => v.2.text

/-- **What rows say**, without the places of the values: the lines of the section above, and the
statements behind them. -/
def saying : List Row → List Line × List Statement
  | [] => ([], [])
  | .blank _ :: rows => saying rows
  | .command _ c _ :: rows =>
    match c.keyword with
    | .package => ([], .package c.first.text :: (saying rows).2)
    | .config => ([], .block ⟨c.first.text, c.secondText, (saying rows).1⟩ :: (saying rows).2)
    | .option =>
      ((c.secondText.map (.option c.first.text)).toList ++ (saying rows).1, (saying rows).2)
    | .list => (.list c.first.text c.secondText :: (saying rows).1, (saying rows).2)

/-- Rows say what they list. -/
theorem saying_listing (rows : List Row) (o : Nat) :
    (listing o rows).1.filterMap Entry.line? = (saying rows).1 ∧
      (listing o rows).2.filterMap Item.statement? = (saying rows).2 := by
  induction rows generalizing o with
  | nil => exact ⟨rfl, rfl⟩
  | cons r rows ih =>
    cases r with
    | blank e => exact ih _
    | command indent c e =>
      have hsecond : ∀ n, (c.secondValue n).map Value.text = c.secondText := by
        intro n
        unfold Command.secondValue Command.secondText
        rw [Option.map_map]
        rfl
      have hfirst : ∀ n, (c.firstValue n).text = c.first.text := fun n => rfl
      rw [listing, saying]
      cases hk : c.keyword with
      | package | config | list =>
        simp only [List.filterMap_cons, List.filterMap_nil, Entry.line?, Item.statement?,
          Option.map_some, hfirst, hsecond, ih, and_self]
      | option =>
        rw [← hsecond (o + sizeOf ((Part.optional indent).flatMap Part.tokens))]
        cases c.secondValue _ with
        | none =>
          simp only [List.filterMap_cons, Entry.line?, ih]
          exact ⟨rfl, trivial⟩
        | some v =>
          simp only [List.filterMap_cons, Entry.line?, ih]
          exact ⟨rfl, trivial⟩

/-- **The script of a text** is what its rows say. -/
theorem script_of_rows {t : Text} {rows : List Row} (h : Accepted rows)
    (htokens : Token.ofText t = rows.flatMap Row.tokens) : (parse t).script = (saying rows).2 := by
  rw [Parse.script, (parse_accepted h htokens).2, (saying_listing rows 0).2]

/-- A blank row and an entry leave the statements behind as they are. -/
private theorem saying_entry {r : Row} (h : r.keyword = none ∨ r.IsEntry) :
    ∃ ls, ∀ rows, saying (r :: rows) = (ls ++ (saying rows).1, (saying rows).2) := by
  cases r with
  | blank e => exact ⟨[], fun rows => rfl⟩
  | command indent c e =>
    simp only [saying]
    cases hk : c.keyword with
    | option => exact ⟨_, fun rows => rfl⟩
    | list => exact ⟨[.list c.first.text c.secondText], fun rows => rfl⟩
    | package | config => simp [Row.IsEntry, Row.keyword, hk] at h

/-- A header takes the lines behind it. -/
private theorem saying_header {r : Row} (h : r.keyword = some .config) :
    ∃ type name, ∀ rows,
      saying (r :: rows) = ([], .block ⟨type, name, (saying rows).1⟩ :: (saying rows).2) := by
  cases r with
  | blank e => cases h
  | command indent c e =>
    simp only [saying, Option.some.inj h]
    exact ⟨c.first.text, c.secondText, fun rows => rfl⟩

/-- Neither lines nor statements go over a `package`. -/
private theorem saying_package {r : Row} (h : r.keyword = some .package) :
    ∃ name, ∀ rows, saying (r :: rows) = ([], .package name :: (saying rows).2) := by
  cases r with
  | blank e => cases h
  | command indent c e =>
    simp only [saying, Option.some.inj h]
    exact ⟨c.first.text, fun rows => rfl⟩

/-- What a row can be. -/
private theorem row_cases (r : Row) :
    (r.keyword = none ∨ r.IsEntry) ∨ r.keyword = some .config ∨ r.keyword = some .package := by
  unfold Row.IsEntry
  rcases r.keyword with _ | (_ | _ | _ | _) <;> simp

/-- Rows that belong to a section say lines of it. -/
private theorem saying_between {between : List Row}
    (h : ∀ r ∈ between, r.keyword = none ∨ r.IsEntry) :
    ∃ ls, ∀ rows, saying (between ++ rows) = (ls ++ (saying rows).1, (saying rows).2) := by
  induction between with
  | nil => exact ⟨[], fun rows => rfl⟩
  | cons r between ih =>
    obtain ⟨hr, hmore⟩ := List.forall_mem_cons.mp h
    obtain ⟨ls, hls⟩ := saying_entry hr
    obtain ⟨ls', hls'⟩ := ih hmore
    refine ⟨ls ++ ls', fun rows => ?_⟩
    rw [List.cons_append, hls, hls', List.append_assoc]

/-- **What stands behind rows of an open section** is said in it, up to the next statement. -/
theorem saying_append {above : List Row} (h : Inside above) :
    ∃ ls sts type name lines, ∀ below, saying (above ++ below) =
      (ls, sts ++ .block ⟨type, name, lines ++ (saying below).1⟩ :: (saying below).2) := by
  obtain ⟨front, header, between, rfl, hheader, hbetween⟩ := h
  obtain ⟨type, name, hblock⟩ := saying_header hheader
  obtain ⟨lines, hlines⟩ := saying_between hbetween
  induction front with
  | nil =>
    refine ⟨[], [], type, name, lines, fun below => ?_⟩
    rw [List.nil_append, List.cons_append, hblock, hlines]
    rfl
  | cons r front ih =>
    obtain ⟨ls, sts, type, name, lines, hrest⟩ := ih
    simp only [List.cons_append] at hrest ⊢
    rcases row_cases r with hr | hr | hr
    · obtain ⟨ls', hr⟩ := saying_entry hr
      exact ⟨ls' ++ ls, sts, type, name, lines, fun below => by rw [hr, hrest]⟩
    · obtain ⟨type', name', hr⟩ := saying_header hr
      exact ⟨[], .block ⟨type', name', ls⟩ :: sts, type, name, lines,
        fun below => by rw [hr, hrest]; rfl⟩
    · obtain ⟨name', hr⟩ := saying_package hr
      exact ⟨[], .package name' :: sts, type, name, lines,
        fun below => by rw [hr, hrest]; rfl⟩

/-- Rows that say no statement hold no header. -/
private theorem entries_of_saying {rows : List Row} (h : (saying rows).2 = []) :
    ∀ r ∈ rows, r.keyword = none ∨ r.IsEntry := by
  induction rows with
  | nil => exact List.forall_mem_nil _
  | cons r rows ih =>
    rcases row_cases r with hr | hr | hr
    · obtain ⟨ls, hsay⟩ := saying_entry hr
      rw [hsay] at h
      exact List.forall_mem_cons.mpr ⟨hr, ih h⟩
    · obtain ⟨type, name, hsay⟩ := saying_header hr
      rw [hsay] at h
      cases h
    · obtain ⟨name, hsay⟩ := saying_package hr
      rw [hsay] at h
      cases h

/-- A further row in front does not matter for what is open at the end. -/
private theorem Inside.cons {rows : List Row} (h : Inside rows) (r : Row) :
    Inside (r :: rows) := by
  obtain ⟨front, header, between, rfl, hheader, hbetween⟩ := h
  exact ⟨r :: front, header, between, rfl, hheader, hbetween⟩

/-- **A section is open behind rows of which the last statement is a block.** -/
theorem inside_of_saying {rows : List Row} {sts : List Statement} {b : Block}
    (h : (saying rows).2 = sts ++ [.block b]) : Inside rows := by
  induction rows generalizing sts with
  | nil => simp [saying] at h
  | cons r rows ih =>
    rcases row_cases r with hr | hr | hr
    · obtain ⟨ls, hsay⟩ := saying_entry hr
      rw [hsay] at h
      exact (ih h).cons r
    · obtain ⟨type, name, hsay⟩ := saying_header hr
      rw [hsay] at h
      cases sts with
      | nil => exact ⟨[], r, rows, rfl, hr, entries_of_saying (List.cons.inj h).2⟩
      | cons st sts => exact (ih (List.cons.inj h).2).cons r
    · obtain ⟨name, hsay⟩ := saying_package hr
      rw [hsay] at h
      cases sts with
      | nil => cases (List.cons.inj h).1
      | cons st sts => exact (ih (List.cons.inj h).2).cons r

/-! ### One more entry -/

/-- Being inside a section is kept if an entry is put somewhere behind its header. -/
private theorem inside_insert {above between : List Row} {r : Row} (hr : r.IsEntry)
    (h : Inside above) (h' : Inside (above ++ between)) : Inside (above ++ r :: between) := by
  induction between using List.reverseRecOn with
  | nil => exact inside_snoc.mpr (Or.inr ⟨Or.inr hr, h⟩)
  | append_singleton between y ih =>
    rw [← List.append_assoc, inside_snoc] at h'
    rw [← List.cons_append, ← List.append_assoc, inside_snoc]
    exact h'.imp id fun hy => ⟨hy.1, ih hy.2⟩

/-- **An entry may be put anywhere into a section.** -/
theorem accepted_insert {above below : List Row} {r : Row} (h : Accepted (above ++ below))
    (hstops : ∀ x ∈ above, x.ending.stop ≠ none) (hinside : Inside above) (hr : r.IsEntry)
    (hstop : r.ending.stop ≠ none) : Accepted (above ++ r :: below) where
  ended := by
    intro x hx
    by_cases hnil : below = []
    · rw [hnil, List.dropLast_concat] at hx
      exact hstops x hx
    have hended := h.ended
    rw [List.dropLast_append_of_ne_nil hnil] at hended
    rw [List.dropLast_append_of_ne_nil (List.cons_ne_nil _ _),
      List.dropLast_cons_of_ne_nil hnil, List.mem_append, List.mem_cons] at hx
    rcases hx with hx | rfl | hx
    · exact hstops x hx
    · exact hstop
    · exact hended x (List.mem_append_right _ hx)
  placed := by
    intro front x back hsplit hx
    rcases List.append_eq_append_iff.mp hsplit with ⟨more, rfl, hback⟩ | ⟨more, rfl, hback⟩
    · cases more with
      | nil => rwa [List.append_nil]
      | cons y more =>
        obtain ⟨rfl, hbelow⟩ := List.cons.inj hback
        have hold : above ++ below = above ++ more ++ x :: back := by
          rw [List.append_assoc]
          exact congrArg _ hbelow
        exact inside_insert hr hinside (h.placed (above ++ more) x back hold hx)
    · cases more with
      | nil => rwa [List.append_nil] at hinside
      | cons y more =>
        obtain ⟨rfl, rfl⟩ := List.cons.inj hback
        exact h.placed front x (more ++ below) (by simp) hx

/-- The rows in front of a place are accepted by themselves. -/
theorem Accepted.of_append {above below : List Row} (h : Accepted (above ++ below))
    (hstops : ∀ x ∈ above, x.ending.stop ≠ none) : Accepted above where
  ended := fun x hx => hstops x (List.dropLast_subset _ hx)
  placed := by
    rintro front x back rfl hx
    exact h.placed front x (back ++ below) (by simp) hx

/-- **An entry that is put into a section is one more line of it.**  All that is said before and
behind it is said as without it. -/
theorem script_insert {before line after : Text} {r : Row} {l : Line} {sts : List Statement}
    {b : Block} (hbefore : Ended (Token.ofText before))
    (hopen : (parse before).script = sts ++ [.block b])
    (herrors : (parse (before ++ after)).errors = []) (hr : r.IsEntry)
    (hstop : r.ending.stop ≠ none)
    (hline : ∀ rest, Token.ofText (line ++ rest) = r.tokens ++ Token.ofText rest)
    (hsaying : ∀ rows, saying (r :: rows) = (l :: (saying rows).1, (saying rows).2)) :
    (parse (before ++ line ++ after)).errors = [] ∧ ∃ more sts',
      (parse (before ++ after)).script =
        sts ++ .block { b with lines := b.lines ++ more } :: sts' ∧
      (parse (before ++ line ++ after)).script =
        sts ++ .block { b with lines := b.lines ++ l :: more } :: sts' := by
  obtain ⟨rows, hrows, htokens⟩ := exists_accepted herrors
  have hcut := htokens
  rw [ofText_append hbefore] at hcut
  obtain ⟨above, below, rfl, habove, hbelow, hstops⟩ :=
    exists_rows_append hcut.symm hbefore hrows.ended
  -- the rows in front leave the section open
  have hsay := script_of_rows (hrows.of_append hstops) habove.symm
  rw [hopen] at hsay
  have hinside := inside_of_saying hsay.symm
  obtain ⟨ls, sts', type, name, lines, happend⟩ := saying_append hinside
  have hfront := happend []
  rw [List.append_nil] at hfront
  rw [hfront] at hsay
  obtain ⟨rfl, hb⟩ := List.append_inj' hsay rfl
  have hb : b = ⟨type, name, lines⟩ := by simpa [saying] using hb
  -- the new rows are the old ones and the line
  have hnew : Token.ofText (before ++ line ++ after) =
      (above ++ r :: below).flatMap Row.tokens := by
    rw [List.append_assoc, ofText_append hbefore, hline, List.flatMap_append, List.flatMap_cons,
      habove, hbelow]
  have haccepted := accepted_insert hrows hstops hinside hr hstop
  refine ⟨(parse_accepted haccepted hnew).1, (saying below).1, (saying below).2, ?_, ?_⟩
  · rw [script_of_rows hrows htokens, happend, hb]
  · rw [script_of_rows haccepted hnew, happend, hsaying, hb]

end Syntax
end Uci
