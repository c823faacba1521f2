import Mathlib.Data.List.TakeWhile
import Uci.Settings.Basic

/-!
# Settings are read as they were written

A string is written in one of four forms.  Common to all of them is that what stands between the
quotes is made of characters as they are, of escapes, and of quotes that are not yet enough to
close it; and whoever reads it takes one such piece after the other.

## Main definitions

* `Toml.Inside` — what is written between quotes, and what it stands for.
* `Toml.RunsWithin` — only so many quotes stand side by side.

## Main results

* `Toml.string_writeString` — **a string is read as it was written**, in whichever form.
* `Settings.read?_text` — so are settings.
-/

namespace Uci
namespace Toml

/-! ### Between quotes -/

/-- **What is written between quotes**, and what it stands for.  Up to `free` quotes may stand side
by side, and `run` of them stand right in front. -/
inductive Inside (q : Char) (escapes long : Bool) (free : Nat) : Nat → Text → Text → Prop
  | nil (run : Nat) : Inside q escapes long free run [] []
  | quote {run : Nat} {s t : Text} : run < free → Inside q escapes long free (run + 1) s t →
    Inside q escapes long free run (q :: s) (q :: t)
  /-- A character that stands for itself; a line end does only in a long string. -/
  | plain {run : Nat} {c : Char} {s t : Text} : c ≠ q → (escapes = true → c ≠ '\\') →
    (isControl c = true → long = true ∧ c = '\n') → Inside q escapes long free 0 s t →
    Inside q escapes long free run (c :: s) (c :: t)
  | escaped {run : Nat} {c : Char} {w s t : Text} : escapes = true →
    (∀ r, escape (w ++ r) = some (c, r)) → (∀ r, skipHidden? (w ++ r) = none) →
    Inside q escapes long free 0 s t →
    Inside q escapes long free run ('\\' :: (w ++ s)) (c :: t)

/-- At most `free` quotes stand side by side, `run` of which are in front of the text. -/
def RunsWithin (q : Char) (free : Nat) : Nat → Text → Prop
  | _, [] => True
  | run, c :: t => if c = q then run < free ∧ RunsWithin q free (run + 1) t
    else RunsWithin q free 0 t

namespace Inside

variable {q : Char} {escapes long : Bool} {free run n : Nat} {s t r : Text}

/-- What has no meaning is no backslash, or no backslash has one. -/
private theorem meaning_eq_false {c : Char} (hslash : escapes = true → c ≠ '\\') :
    (decide (c = '\\') && escapes) = false := by
  rw [Bool.and_eq_false_iff, decide_eq_false_iff_not]
  by_cases he : escapes = true
  · exact Or.inl (hslash he)
  · exact Or.inr (Bool.eq_false_iff.mpr he)

/-- Without quotes of its own, what is written between quotes does not begin with one. -/
theorem head?_ne (h : Inside q escapes long 0 run s t) (hq : q ≠ '\\') : s.head? ≠ some q := by
  cases h with
  | nil => nofun
  | quote hlt _ => exact absurd hlt (Nat.not_lt_zero run)
  | plain hne _ _ _ => exact fun h => hne (Option.some.inj h)
  | escaped _ _ _ _ => exact fun h => hq (Option.some.inj h).symm

/-- **A string of one line** is read up to its closing quote. -/
theorem shortString (h : Inside q escapes false 0 run s t) (hq : q ≠ '\\')
    (hn : (s ++ q :: r).length < n) :
    Toml.shortString q escapes n (s ++ q :: r) = some (t, r) := by
  induction h generalizing n with
  | nil =>
    cases n with
    | zero => cases hn
    | succ n =>
      rw [List.nil_append, Toml.shortString]
      exact if_pos rfl
  | quote hlt _ _ => exact absurd hlt (Nat.not_lt_zero _)
  | @plain run c s t hne hslash hcontrol _ ih =>
    cases n with
    | zero => cases hn
    | succ n =>
      have hplain : isControl c = false :=
        Bool.eq_false_iff.mpr fun hc => Bool.false_ne_true (hcontrol hc).1
      rw [List.cons_append, Toml.shortString, if_neg hne, meaning_eq_false hslash, hplain,
        ih (Nat.lt_of_succ_lt_succ hn)]
      rfl
  | @escaped run c w s t he hescape _ _ ih =>
    cases n with
    | zero => cases hn
    | succ n =>
      have hlt : (s ++ q :: r).length < n := by
        simp only [List.cons_append, List.append_assoc, List.length_cons, List.length_append] at hn
        rw [List.length_append, List.length_cons]
        omega
      subst he
      rw [List.cons_append, List.append_assoc, Toml.shortString, if_neg hq.symm, hescape]
      dsimp only [Option.bind_eq_bind, Option.bind_some]
      rw [ih hlt]
      rfl

/-- How many quotes a text begins with that is in a string and has the closing ones behind it: if
they are no more than may stand side by side, they are not the last ones. -/
private theorem all_quotes_or (h : Inside q escapes long free run s t) (hq : q ≠ '\\')
    (hrun : run ≤ free) (w : Text) :
    (∃ j, s = List.replicate j q ∧ t = List.replicate j q ∧ run + j ≤ free) ∨
      ((s ++ w).takeWhile (· = q)).length + run ≤ free := by
  induction h with
  | nil run => exact Or.inl ⟨0, rfl, rfl, hrun⟩
  | quote hlt _ ih =>
    rcases ih hlt with ⟨j, rfl, rfl, hj⟩ | hlength
    · exact Or.inl ⟨j + 1, rfl, rfl, by omega⟩
    · refine Or.inr ?_
      rw [List.cons_append, List.takeWhile_cons_of_pos (by simp), List.length_cons]
      omega
  | plain hne _ _ _ _ =>
    refine Or.inr ?_
    rw [List.cons_append, List.takeWhile_cons_of_neg (by simpa using hne)]
    simpa using hrun
  | escaped _ _ _ _ _ =>
    refine Or.inr ?_
    rw [List.cons_append, List.takeWhile_cons_of_neg (by simpa using hq.symm)]
    simpa using hrun

/-- Three quotes close a string, and up to two in front of them belong to it. -/
private theorem closing_replicate (hr : r.head? ≠ some q) {j : Nat} (hj : j ≤ 2) :
    closing q (List.replicate j q ++ q :: q :: q :: r) = some (List.replicate j q, r) := by
  have hquotes : List.replicate j q ++ q :: q :: q :: r = List.replicate (j + 3) q ++ r := by
    rw [← List.replicate_append_replicate, List.append_assoc]
    rfl
  have hstop : r.takeWhile (· = q) = [] := by
    cases r with
    | nil => rfl
    | cons c r => exact List.takeWhile_cons_of_neg (by simpa using hr)
  have htake : (List.replicate (j + 3) q ++ r).takeWhile (· = q) = List.replicate (j + 3) q := by
    rw [List.takeWhile_append_of_pos (by simp), hstop, List.append_nil]
  have hown : min (j + 3 - 3) 2 = j := by omega
  unfold closing
  rw [hquotes, htake]
  dsimp only
  rw [List.length_replicate, if_pos (Nat.le_add_left 3 j), hown,
    List.drop_left' (List.length_replicate ..)]

private theorem closing_eq_none {x : Text} (h : (x.takeWhile (· = q)).length ≤ 2) :
    closing q x = none := if_neg (by omega)

/-- A string does not end where fewer quotes stand than may. -/
private theorem closing_of_ne {c : Char} (hne : c ≠ q) (x : Text) : closing q (c :: x) = none := by
  refine closing_eq_none ?_
  rw [List.takeWhile_cons_of_neg (by simpa using hne)]
  exact Nat.zero_le 2

/-- **A string of many lines** is read up to its closing quotes. -/
theorem longString (h : Inside q escapes true 2 run s t) (hq : q ≠ '\\')
    (hplain : isControl q = false) (hr : r.head? ≠ some q) (hrun : run ≤ 2)
    (hn : (s ++ q :: q :: q :: r).length < n) :
    Toml.longString q escapes n (s ++ q :: q :: q :: r) = some (t, r) := by
  induction h generalizing n with
  | nil =>
    cases n with
    | zero => cases hn
    | succ n =>
      have hclose := closing_replicate hr (Nat.zero_le 2)
      rw [List.replicate_zero, List.nil_append] at hclose
      rw [List.nil_append, Toml.longString, hclose]
  | @quote run s t hlt hs ih =>
    cases n with
    | zero => cases hn
    | succ n =>
      have hwhole : Inside q escapes true 2 run (q :: s) (q :: t) := .quote hlt hs
      rcases hwhole.all_quotes_or hq hrun (q :: q :: q :: r) with ⟨j, hsj, htj, hj⟩ | hfew
      · -- only quotes are left, which are taken at once
        have hclose := closing_replicate hr (Nat.le_trans (Nat.le_add_left j run) hj)
        rw [← hsj, List.cons_append] at hclose
        rw [List.cons_append, Toml.longString, hclose, htj.trans hsj.symm]
      · have hopen : closing q (q :: (s ++ q :: q :: q :: r)) = none :=
          closing_eq_none (Nat.le_trans (Nat.le_add_right _ run) hfew)
        rw [List.cons_append, Toml.longString, hopen, meaning_eq_false fun _ => hq, hplain,
          ih hlt (Nat.lt_of_succ_lt_succ hn)]
        rfl
  | @plain run c s t hne hslash hcontrol _ ih =>
    cases n with
    | zero => cases hn
    | succ n =>
      have hallowed : (isControl c && (newline? (c :: (s ++ q :: q :: q :: r))).isNone) = false := by
        by_cases hc : isControl c = true
        · rw [(hcontrol hc).2]
          rfl
        · rw [Bool.eq_false_iff.mpr hc, Bool.false_and]
      rw [List.cons_append, Toml.longString, closing_of_ne hne, meaning_eq_false hslash,
        hallowed, ih (Nat.zero_le 2) (Nat.lt_of_succ_lt_succ hn)]
      rfl
  | @escaped run c w s t he hescape hhidden _ ih =>
    cases n with
    | zero => cases hn
    | succ n =>
      have hlt : (s ++ q :: q :: q :: r).length < n := by
        simp only [List.cons_append, List.append_assoc, List.length_cons, List.length_append] at hn
        simp only [List.length_append, List.length_cons]
        omega
      subst he
      rw [List.cons_append, List.append_assoc, Toml.longString, closing_of_ne hq.symm, hhidden,
        hescape]
      dsimp only [Option.bind_eq_bind, Option.bind_some]
      rw [ih (Nat.zero_le 2) hlt]
      rfl

end Inside

/-! ### What is written -/

/-- A code of four digits is the number that it was made from. -/
private theorem hexNumber_fourDigits : ∀ n < 128, hexNumber 4 0 (fourDigits n) = some (n, []) := by
  decide

/-- Digits are read whatever follows them. -/
private theorem hexNumber_append {k v m : Nat} {s t : Text} (h : hexNumber k v s = some (m, t))
    (r : Text) : hexNumber k v (s ++ r) = some (m, t ++ r) := by
  induction k generalizing v s with
  | zero =>
    cases h
    rfl
  | succ k ih =>
    cases s with
    | nil => cases h
    | cons c s =>
      obtain ⟨d, hd, hrest⟩ := Option.bind_eq_some_iff.mp h
      exact Option.bind_eq_some_iff.mpr ⟨d, hd, ih hrest⟩

/-- A control character is read from its code. -/
private theorem escape_fourDigits {c : Char} (hc : c.toNat < 128) (r : Text) :
    escape ('u' :: (fourDigits c.toNat ++ r)) = some (c, r) := by
  have hnumber := hexNumber_append (hexNumber_fourDigits c.toNat hc) r
  have hvalid : c.toNat.isValidChar := c.valid
  show codePoint 4 (fourDigits c.toNat ++ r) = _
  rw [codePoint, hnumber]
  dsimp only [Option.bind_eq_bind, Option.bind_some]
  rw [if_pos hvalid, Char.ofNat_toNat]
  rfl

/-- **How a character is written** that is no double quote: as it is, or by an escape. -/
private theorem writeChar_cases (long : Bool) (c : Char) :
    (writeChar long c = [c] ∧ c ≠ '\\' ∧ (isControl c = true → long = true ∧ c = '\n')) ∨
      ∃ w, writeChar long c = '\\' :: w ∧ (∀ r, escape (w ++ r) = some (c, r)) ∧
        ∀ r, skipHidden? (w ++ r) = none := by
  unfold writeChar
  split
  · exact Or.inr ⟨['b'], rfl, fun _ => rfl, fun _ => rfl⟩
  · exact Or.inr ⟨['t'], rfl, fun _ => rfl, fun _ => rfl⟩
  · exact Or.inr ⟨['f'], rfl, fun _ => rfl, fun _ => rfl⟩
  · exact Or.inr ⟨['r'], rfl, fun _ => rfl, fun _ => rfl⟩
  · exact Or.inr ⟨['\\'], rfl, fun _ => rfl, fun _ => rfl⟩
  · split
    · next hlong => exact Or.inl ⟨rfl, by decide, fun _ => ⟨hlong, rfl⟩⟩
    · exact Or.inr ⟨['n'], rfl, fun _ => rfl, fun _ => rfl⟩
  · next hslash _ =>
    split
    · next hcode =>
      have hlt : c.toNat < 128 := by
        rw [Bool.or_eq_true, decide_eq_true_eq, decide_eq_true_eq] at hcode
        omega
      exact Or.inr ⟨_, rfl, escape_fourDigits hlt, fun _ => rfl⟩
    · next hcode =>
      refine Or.inl ⟨rfl, hslash, fun hcontrol => absurd ?_ hcode⟩
      simp only [isControl, Bool.or_eq_true, Bool.and_eq_true] at hcontrol ⊢
      exact hcontrol.imp_left And.left

/-- **Between double quotes** any text can be written. -/
theorem inside_writeInside (long : Bool) (free run : Nat) (t : Text) :
    Inside '"' true long free run (writeInside long free run t) t := by
  induction t generalizing run with
  | nil => exact .nil run
  | cons c t ih =>
    unfold writeInside
    split
    · next hc =>
      rw [hc]
      split
      · next hlt => exact .quote hlt (ih (run + 1))
      · exact .escaped (w := ['"']) rfl (fun _ => rfl) (fun _ => rfl) (ih 0)
    · next hc =>
      rcases writeChar_cases long c with ⟨hself, hslash, hcontrol⟩ | ⟨w, hw, hescape, hhidden⟩
      · rw [hself]
        exact .plain hc (fun _ => hslash) hcontrol (ih 0)
      · rw [hw]
        exact .escaped rfl hescape hhidden (ih 0)

/-- **Between single quotes** a text is written as it is, if nothing in it has to be escaped. -/
theorem inside_self {q : Char} {long : Bool} {free run : Nat} {t : Text}
    (hcode : t.any needsCode = false) (hbreak : long = false → '\n' ∉ t)
    (hruns : RunsWithin q free run t) : Inside q false long free run t t := by
  induction t generalizing run with
  | nil => exact .nil run
  | cons c t ih =>
    rw [List.any_cons, Bool.or_eq_false_iff] at hcode
    have hrest : long = false → '\n' ∉ t := fun h hmem => hbreak h (List.mem_cons_of_mem c hmem)
    unfold RunsWithin at hruns
    split at hruns
    · next hc =>
      rw [hc]
      exact .quote hruns.1 (ih hcode.2 hrest hruns.2)
    · next hc =>
      refine .plain hc nofun (fun hcontrol => ?_) (ih hcode.2 hrest hruns)
      -- the only control character that needs no code is the line end
      have hfeed : c = '\n' := by
        have hno := hcode.1
        simp only [isControl, needsCode, Bool.or_eq_true, Bool.and_eq_true, decide_eq_true_eq,
          Bool.or_eq_false_iff, Bool.and_eq_false_iff, decide_eq_false_iff_not] at hcontrol hno
        by_contra hne
        rcases hcontrol with ⟨hlow, htab⟩ | hlast
        · rcases hno.1 with (h | h) | h
          · exact h hlow
          · exact h htab
          · exact h hne
        · exact hno.2 hlast
      refine ⟨?_, hfeed⟩
      by_contra hlong
      exact hbreak (Bool.eq_false_iff.mpr hlong) (hfeed ▸ List.mem_cons_self ..)

theorem runsWithin_of_notMem {q : Char} {t : Text} (h : q ∉ t) (free run : Nat) :
    RunsWithin q free run t := by
  induction t generalizing run with
  | nil => trivial
  | cons c t ih =>
    obtain ⟨hc, ht⟩ := not_or.mp (List.mem_cons.not.mp h)
    unfold RunsWithin
    rw [if_neg (Ne.symm hc)]
    exact ih ht 0

/-- How a run of quotes and the longest one so far go on with a character. -/
private def runStep (q : Char) (x : Nat × Nat) (c : Char) : Nat × Nat :=
  if c = q then (x.1 + 1, max x.2 (x.1 + 1)) else (0, x.2)

/-- The longest run so far never gets shorter. -/
private theorem le_foldl_runStep (q : Char) (t : Text) (x : Nat × Nat) :
    x.2 ≤ (t.foldl (runStep q) x).2 := by
  induction t generalizing x with
  | nil => exact Nat.le_refl _
  | cons c t ih =>
    refine Nat.le_trans ?_ (ih (runStep q x c))
    unfold runStep
    split
    · exact Nat.le_max_left ..
    · exact Nat.le_refl _

private theorem runsWithin_of_foldl {q : Char} {free : Nat} {t : Text} {x : Nat × Nat}
    (h : (t.foldl (runStep q) x).2 ≤ free) : RunsWithin q free x.1 t := by
  induction t generalizing x with
  | nil => trivial
  | cons c t ih =>
    rw [List.foldl_cons] at h
    have hstep := Nat.le_trans (le_foldl_runStep q t (runStep q x c)) h
    have hrest := ih h
    unfold runStep at hstep hrest
    unfold RunsWithin
    split
    · next hc =>
      rw [if_pos hc] at hstep hrest
      exact ⟨Nat.le_trans (Nat.le_max_right ..) hstep, hrest⟩
    · next hc =>
      rw [if_neg hc] at hrest
      exact hrest

/-- Runs are no longer than the longest of them. -/
theorem runsWithin_of_longestRun {q : Char} {t : Text} {free : Nat} (h : longestRun q t ≤ free) :
    RunsWithin q free 0 t :=
  runsWithin_of_foldl (x := (0, 0)) h

/-! ### The four forms -/

section Forms

variable {q : Char} {escapes : Bool} {s t r : Text}

/-- Text without a line end at its beginning. -/
private theorem newline?_eq_none {x : Text} (h : ∀ c ∈ x.head?, c ≠ '\n' ∧ c ≠ '\r') :
    newline? x = none := by
  unfold newline?
  split
  · exact absurd rfl (h '\n' rfl).1
  · exact absurd rfl (h '\r' rfl).2
  · rfl

/-- What is written in a string of many lines, and has no line end in it, does not begin with one
either. -/
private theorem head?_of_inside (h : Inside q escapes true 2 0 s t)
    (hq : isControl q = false) (hbreak : '\n' ∉ t) (x : Text) :
    ∀ c ∈ (s ++ q :: x).head?, c ≠ '\n' ∧ c ≠ '\r' := by
  have hplain : ∀ c : Char, isControl c = false → c ≠ '\n' ∧ c ≠ '\r' := by
    rintro c hc
    refine ⟨?_, ?_⟩ <;> rintro rfl <;> revert hc <;> decide
  intro c hc
  cases h with
  | nil =>
    cases hc
    exact hplain q hq
  | quote _ _ =>
    cases hc
    exact hplain q hq
  | plain _ _ hcontrol _ =>
    cases hc
    refine hplain _ (Bool.eq_false_iff.mpr fun hd => hbreak ?_)
    rw [(hcontrol hd).2]
    exact List.mem_cons_self ..
  | escaped _ _ _ _ =>
    cases hc
    decide

/-- **A string of many lines**, with the line end that may stand in front of it. -/
theorem openedLong_of_inside (h : Inside q escapes true 2 0 s t) (hq : q ≠ '\\')
    (hplain : isControl q = false) (hr : r.head? ≠ some q) :
    openedLong q escapes (firstBreak t ++ (s ++ q :: q :: q :: r)) = some (t, r) := by
  have hskip : (newline? (firstBreak t ++ (s ++ q :: q :: q :: r))).getD
      (firstBreak t ++ (s ++ q :: q :: q :: r)) = s ++ q :: q :: q :: r := by
    unfold firstBreak
    split
    · rfl
    · next hbreak =>
      have hno : '\n' ∉ t := fun hmem => hbreak (List.contains_iff_mem.mpr hmem)
      rw [List.nil_append, newline?_eq_none (head?_of_inside h hplain hno _)]
      rfl
  unfold openedLong
  rw [hskip]
  exact h.longString hq hplain hr (Nat.zero_le 2) (Nat.lt_succ_self _)

/-- A quote that no two others follow opens a string of one line. -/
private theorem not_three_quotes (h : Inside q escapes false 0 0 s t) (hq : q ≠ '\\')
    (hr : r.head? ≠ some q) (x : Text) : s ++ q :: r ≠ q :: q :: x := by
  intro heq
  cases s with
  | nil =>
    rw [(List.cons.inj heq).2] at hr
    exact hr rfl
  | cons c s => exact h.head?_ne hq (congrArg some (List.cons.inj heq).1)

theorem string_basic (hr : r.head? ≠ some '"') : string (basic t ++ r) = some (t, r) := by
  have h := inside_writeInside false 0 0 t
  have hshort : openedShort '"' true (writeInside false 0 0 t ++ '"' :: r) = some (t, r) :=
    h.shortString (by decide) (Nat.lt_succ_self _)
  have hthree := not_three_quotes h (by decide) hr
  rw [← hshort, basic, List.append_assoc, List.singleton_append, List.cons_append]
  generalize writeInside false 0 0 t ++ '"' :: r = x at hthree
  unfold string
  split
  · next heq => exact absurd (List.cons.inj heq).2 (hthree _)
  · next heq => rw [(List.cons.inj heq).2]
  · next heq => cases heq
  · next heq => cases heq
  · next hno _ _ => exact absurd rfl (hno x)

theorem string_literal (hcode : t.any needsCode = false) (hbreak : '\n' ∉ t) (hquote : '\'' ∉ t)
    (hr : r.head? ≠ some '\'') : string (literal t ++ r) = some (t, r) := by
  have h : Inside '\'' false false 0 0 t t :=
    inside_self hcode (fun _ => hbreak) (runsWithin_of_notMem hquote 0 0)
  have hshort : openedShort '\'' false (t ++ '\'' :: r) = some (t, r) :=
    h.shortString (by decide) (Nat.lt_succ_self _)
  have hthree := not_three_quotes h (by decide) hr
  rw [← hshort, literal, List.append_assoc, List.singleton_append, List.cons_append]
  generalize t ++ '\'' :: r = x at hthree
  unfold string
  split
  · next heq => cases heq
  · next heq => cases heq
  · next heq => exact absurd (List.cons.inj heq).2 (hthree _)
  · next heq => rw [(List.cons.inj heq).2]
  · next hno => exact absurd rfl (hno x)

theorem string_longBasic (hr : r.head? ≠ some '"') : string (longBasic t ++ r) = some (t, r) := by
  have hlong := openedLong_of_inside (inside_writeInside true 2 0 t) (by decide) (by decide) hr
  rw [← hlong, longBasic, List.append_assoc, List.append_assoc, List.append_assoc]
  rfl

theorem string_longLiteral (hcode : t.any needsCode = false) (hruns : longestRun '\'' t ≤ 2)
    (hr : r.head? ≠ some '\'') : string (longLiteral t ++ r) = some (t, r) := by
  have h : Inside '\'' false true 2 0 t t :=
    inside_self hcode nofun (runsWithin_of_longestRun hruns)
  have hlong := openedLong_of_inside h (by decide) (by decide) hr
  rw [← hlong, longLiteral, List.append_assoc, List.append_assoc, List.append_assoc]
  rfl

/-- **A string is read as it was written**, whatever it holds. -/
theorem string_writeString (t : Text) (hbasic : r.head? ≠ some '"')
    (hliteral : r.head? ≠ some '\'') : string (writeString t ++ r) = some (t, r) := by
  have hmem : ∀ c : Char, (!t.contains c) = true → c ∉ t := fun c hc hmem => by
    rw [List.contains_iff_mem.mpr hmem] at hc
    cases hc
  unfold writeString
  dsimp only
  split
  · exact string_basic hbasic
  split
  · next h =>
    simp only [Bool.and_eq_true, Bool.not_eq_true'] at h
    exact string_literal h.1.1 (hmem _ (by simpa using h.1.2)) (hmem _ (by simpa using h.2)) hliteral
  split
  · exact string_longBasic hbasic
  split
  · next h =>
    simp only [Bool.and_eq_true, Bool.not_eq_true', decide_eq_true_eq] at h
    exact string_longLiteral h.1 h.2 hliteral
  split
  · exact string_longBasic hbasic
  · exact string_basic hbasic

end Forms

/-! ### Lines -/

/-- Every form begins with a quote. -/
private theorem exists_quote_writeString (t : Text) :
    ∃ x, writeString t = '"' :: x ∨ writeString t = '\'' :: x := by
  unfold writeString
  dsimp only
  repeat' split
  all_goals first | exact ⟨_, Or.inl rfl⟩ | exact ⟨_, Or.inr rfl⟩

theorem value_writeString (t r : Text) :
    value (writeString t ++ '\n' :: r) = some (.text t, '\n' :: r) := by
  have hstring := string_writeString t (r := '\n' :: r) (by simp) (by simp)
  unfold value
  obtain ⟨x, hx | hx⟩ := exists_quote_writeString t
  all_goals
    rw [hx, List.cons_append] at hstring ⊢
    rw [valueWithin, hstring]
    rfl

/-- A key that stands in front of a value without quotes. -/
structure IsBare (key : Text) : Prop where
  line : ∀ d x, Toml.line d (skipSpace (key ++ " = ".toList ++ x)) =
    assignment d (key ++ " = ".toList ++ x)
  keys : ∀ x, keys (key ++ " = ".toList ++ x) = some ([key], '=' :: ' ' :: x)

/-- **A line that gives a key a string** is read as it was written. -/
theorem lines_writeAssignment {key : Text} {d : Draft} {table : Table} (hkey : IsBare key)
    (n : Nat) (t r : Text) (htable : d.table.assignIn d.opened [key] (.text t) = some table) :
    lines (n + 1) d (writeAssignment key t ++ r) = lines n { d with table } r := by
  have htext : writeAssignment key t ++ r =
      key ++ " = ".toList ++ (writeString t ++ '\n' :: r) := by
    rw [writeAssignment, List.append_assoc, List.append_assoc, List.singleton_append]
  have hempty : (key ++ " = ".toList ++ (writeString t ++ '\n' :: r)).isEmpty = false := by
    rw [List.append_assoc]
    cases key <;> rfl
  have hspace : skipSpace (' ' :: (writeString t ++ '\n' :: r)) = writeString t ++ '\n' :: r := by
    obtain ⟨x, hx | hx⟩ := exists_quote_writeString t
    all_goals
      rw [hx]
      rfl
  have hassign : assignment d (key ++ " = ".toList ++ (writeString t ++ '\n' :: r)) =
      some ({ d with table }, '\n' :: r) := by
    rw [assignment, hkey.keys]
    change (value (skipSpace (' ' :: (writeString t ++ '\n' :: r)))).bind (fun x =>
      (d.table.assignIn d.opened [key] x.1).bind fun table => some ({ d with table }, x.2)) = _
    rw [hspace, value_writeString, Option.bind_some, htable]
    rfl
  rw [htext, lines, hempty, hkey.line, hassign]
  rfl

end Toml

namespace Settings

open Toml (IsBare)

theorem isBare_directoryKey : IsBare directoryKey := ⟨fun _ _ => rfl, fun _ => rfl⟩

theorem isBare_filterKey : IsBare filterKey := ⟨fun _ _ => rfl, fun _ => rfl⟩

/-- **Settings are read as they were written.** -/
theorem read?_text (s : Settings) : ∃ table, Toml.read? s.text = some table ∧
    textAt? table directoryKey = some (some s.directory) ∧
      textAt? table filterKey = some s.filter := by
  -- one line for each key, and no more lines than characters
  have hread : Toml.read? s.text = Toml.lines (s.text.length + 1) {} s.text := rfl
  have hlength : 2 ≤ s.text.length := by
    unfold text Toml.writeAssignment
    simp only [List.length_append]
    have : directoryKey.length = 10 := rfl
    omega
  obtain ⟨n, hn⟩ := Nat.exists_eq_add_of_le hlength
  have hfirst : ∀ r, Toml.lines (n + 3) {} (Toml.writeAssignment directoryKey s.directory ++ r) =
      Toml.lines (n + 2) { table := [(directoryKey, .value (.text s.directory))] } r := fun r =>
    Toml.lines_writeAssignment isBare_directoryKey (n + 2) s.directory r rfl
  rw [hread, hn, show 2 + n + 1 = n + 3 by omega]
  unfold text
  cases hfilter : s.filter with
  | none =>
    rw [Option.map_none, Option.getD_none, hfirst]
    exact ⟨_, rfl, rfl, rfl⟩
  | some level =>
    have hsecond := Toml.lines_writeAssignment (n := n + 1) (t := level) (r := [])
      (d := { table := [(directoryKey, .value (.text s.directory))] }) isBare_filterKey rfl
    rw [Option.map_some, Option.getD_some, hfirst]
    rw [List.append_nil] at hsecond
    rw [hsecond]
    exact ⟨_, rfl, rfl, rfl⟩

end Settings
end Uci
