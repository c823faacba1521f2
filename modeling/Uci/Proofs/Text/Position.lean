import Uci.Text.Position

/-!
# The order of positions

Positions are compared by their lines first and then by their columns.  Each character moves the
position forward, so the character boundaries of a text have positions that grow from left to
right, and no two of them share one.

## Main definitions

* `Text.IsBoundary` — an offset that stands between two characters, or at an end of the text.
* `Position.Before` — a position comes before another one.

## Main results

* `Position.after_snoc` — what one more character does to the position.
* `Position.before_iff` — **the boundaries of a text have positions in the same order.**
* `Position.ofOffset_inj` — no two of them have the same position.
-/

namespace Uci

/-- **A character boundary** of a text: some of its characters take exactly so many bytes. -/
def Text.IsBoundary (t : Text) (n : Nat) : Prop :=
  ∃ before behind : Text, t = before ++ behind ∧ n = before.size

namespace Position

/-- **A position comes before another one**, on an earlier line or further left on the same. -/
def Before (p q : Position) : Prop :=
  p.line < q.line ∨ p.line = q.line ∧ p.column < q.column

theorem Before.irrefl (p : Position) : ¬p.Before p := by
  unfold Before
  omega

theorem Before.trans {p q r : Position} (h : p.Before q) (h' : q.Before r) : p.Before r := by
  unfold Before at *
  omega

/-! ### One character more -/

/-- A line feed begins the next line, and any other character takes one column. -/
theorem after_snoc (before : Text) (c : Char) :
    after (before ++ [c]) =
      if c = '\n' then ⟨(after before).line + 1, 1⟩
      else ⟨(after before).line, (after before).column + 1⟩ := by
  by_cases hc : c = '\n' <;> simp [after, hc]

theorem before_snoc (before : Text) (c : Char) : (after before).Before (after (before ++ [c])) := by
  rw [after_snoc]
  split
  · exact Or.inl (Nat.lt_succ_self _)
  · exact Or.inr ⟨rfl, Nat.lt_succ_self _⟩

/-- More characters move the position forward. -/
theorem before_append (before : Text) {more : Text} (h : more ≠ []) :
    (after before).Before (after (before ++ more)) := by
  induction more generalizing before with
  | nil => exact absurd rfl h
  | cons c more ih =>
    have hstep := before_snoc before c
    by_cases hmore : more = []
    · rwa [hmore]
    · have hrest := ih (before ++ [c]) hmore
      rw [List.append_assoc] at hrest
      exact hstep.trans hrest

/-- Behind the last line feed, or without one, the column counts the characters. -/
theorem column_after {head line : Text} (hline : '\n' ∉ line)
    (hhead : head = [] ∨ ∃ h, head = h ++ ['\n']) :
    (after (head ++ line)).column = line.length + 1 := by
  have hpass : ∀ c ∈ line.reverse, decide (c ≠ '\n') = true := by
    intro c hc
    rw [List.mem_reverse] at hc
    exact decide_eq_true fun he => hline (he ▸ hc)
  have hstop : head.reverse.takeWhile (· ≠ '\n') = [] := by
    rcases hhead with rfl | ⟨h, rfl⟩ <;> simp
  have htake : (line.reverse ++ head.reverse).takeWhile (· ≠ '\n') = line.reverse := by
    rw [List.takeWhile_append_of_pos hpass, hstop, List.append_nil]
  unfold after
  rw [List.reverse_append, htake, List.length_reverse]

/-! ### The boundaries of a text -/

/-- Of two beginnings of a text, the shorter one is a beginning of the other. -/
private theorem exists_more {s r s' r' : Text} (h : s ++ r = s' ++ r') (hlt : s.size < s'.size) :
    ∃ more : Text, more ≠ [] ∧ s' = s ++ more := by
  rcases List.append_eq_append_iff.mp h with ⟨more, rfl, -⟩ | ⟨more, rfl, -⟩
  · refine ⟨more, ?_, rfl⟩
    rintro rfl
    simp at hlt
  · rw [Text.size_append] at hlt
    omega

variable {t : Text} {m n : Nat}

/-- A later boundary has a later position. -/
private theorem before_of_lt (hm : t.IsBoundary m) (hn : t.IsBoundary n) (h : m < n) :
    (ofOffset t m).Before (ofOffset t n) := by
  obtain ⟨s, r, rfl, rfl⟩ := hm
  obtain ⟨s', r', ht, rfl⟩ := hn
  obtain ⟨more, hmore, rfl⟩ := exists_more ht h
  have hfirst : ofOffset (s ++ r) s.size = after s := ofOffset_append s r
  have hsecond : ofOffset (s ++ r) (s ++ more).size = after (s ++ more) := by
    rw [ht]
    exact ofOffset_append _ r'
  rw [hfirst, hsecond]
  exact before_append s hmore

/-- **Positions grow with the boundaries of a text**, strictly. -/
theorem before_iff (hm : t.IsBoundary m) (hn : t.IsBoundary n) :
    (ofOffset t m).Before (ofOffset t n) ↔ m < n := by
  refine ⟨fun h => ?_, before_of_lt hm hn⟩
  rcases Nat.lt_trichotomy m n with hlt | rfl | hgt
  · exact hlt
  · exact absurd h (Before.irrefl _)
  · exact absurd (h.trans (before_of_lt hn hm hgt)) (Before.irrefl _)

/-- **No two boundaries of a text have the same position.** -/
theorem ofOffset_inj (hm : t.IsBoundary m) (hn : t.IsBoundary n)
    (h : ofOffset t m = ofOffset t n) : m = n := by
  rcases Nat.lt_trichotomy m n with hlt | heq | hgt
  · exact absurd (h ▸ before_of_lt hm hn hlt) (Before.irrefl _)
  · exact heq
  · exact absurd (h ▸ before_of_lt hn hm hgt) (Before.irrefl _)

end Position
end Uci
