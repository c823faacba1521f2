import Mathlib.Data.List.Basic
import Mathlib.Data.List.TakeWhile
import Uci.Syntax.Token

/-!
# The patterns of tokens

Which token comes first in a text is a matter of the token and of what stands behind it: a run of
characters goes on as long as it can, a quote goes on to the next one that counts.  Each pattern is
a rule of its own here, and the tokens of a text are found by these rules from left to right.

## Main definitions

* `Stops` — text that does not prolong what stands before it.
* `Escaped` — text between double quotes.
* `Cut` — **a token that is cut off in front of a text.**

## Main results

* `splitEscaped_eq_iff` — what is split off up to a double quote.
* `Cut.first`, `cut_first` — the first token of a text is the one that is cut off.
* `ofText_of_cut`, `exists_cut` — so are all of them.
* `Cut.append`, `Cut.of_append` — only the character behind a token matters to it.
-/

namespace Uci
namespace Syntax

/-! ### Runs of characters -/

/-- **Text that stops** what stands before it: a bare word goes no further, and neither does
a run of spaces and tabs. -/
def Stops (p : Char → Bool) (r : Text) : Prop := ∀ c ∈ r.head?, p c = false

theorem stops_cons {p : Char → Bool} {c : Char} {r : Text} (hc : p c = false) :
    Stops p (c :: r) := by
  intro d hd
  cases hd
  exact hc

theorem stops_dropWhile (p : Char → Bool) (t : Text) : Stops p (t.dropWhile p) := by
  intro c hc
  have hstop := List.head?_dropWhile_not p t
  rw [Option.mem_def.mp hc] at hstop
  exact hstop

/-- Whether text stops what stands before it is decided where it begins. -/
theorem stops_append {p : Char → Bool} {r : Text} (hr : r ≠ []) (s : Text) :
    Stops p (r ++ s) ↔ Stops p r := by
  unfold Stops
  rw [List.head?_append_of_ne_nil r hr]

/-- A run of characters that pass a test ends where the text behind it begins. -/
theorem span_append {p : Char → Bool} {s r : Text} (hs : s.all p = true) (hr : Stops p r) :
    (s ++ r).takeWhile p = s ∧ (s ++ r).dropWhile p = r := by
  have hall : ∀ c ∈ s, p c = true := List.all_eq_true.mp hs
  have hstop : r.takeWhile p = [] ∧ r.dropWhile p = r := by
    cases r with
    | nil => exact ⟨rfl, rfl⟩
    | cons c r =>
      have hc : p c = false := hr c rfl
      simp [hc]
  rw [List.takeWhile_append_of_pos hall, List.dropWhile_append_of_pos hall, hstop.1, hstop.2]
  simp

/-- The characters of a bare word are those that may stand in one. -/
theorem isWordChar_of_mem {w : Text} {c : Char} (hw : isWord w = true) (hc : c ∈ w) :
    isWordChar c = true := by
  cases w with
  | nil => cases hw
  | cons d w =>
    rw [isWord_cons, Bool.and_eq_true, isWordStart, Bool.and_eq_true] at hw
    rcases List.mem_cons.mp hc with rfl | hc
    · exact hw.1.1
    · exact List.all_eq_true.mp hw.2 c hc

/-! ### Text between double quotes -/

theorem splitEscaped_quote (t : Text) : splitEscaped ('"' :: t) = ([], '"' :: t) := by
  rw [splitEscaped.eq_def]
  exact if_pos rfl

theorem splitEscaped_backslash (c : Char) (t : Text) :
    splitEscaped ('\\' :: c :: t) =
      ('\\' :: c :: (splitEscaped t).1, (splitEscaped t).2) := by
  rw [splitEscaped.eq_def]
  rfl

theorem splitEscaped_cons {c : Char} (hq : c ≠ '"') (hs : c ≠ '\\') (t : Text) :
    splitEscaped (c :: t) = (c :: (splitEscaped t).1, (splitEscaped t).2) := by
  rw [splitEscaped.eq_def]
  exact (if_neg hq).trans (if_neg hs)

/-- **Text between double quotes**: a backslash takes the character behind it along. -/
inductive Escaped : Text → Prop
  | nil : Escaped []
  | pair (c : Char) {s : Text} : Escaped s → Escaped ('\\' :: c :: s)
  | plain {c : Char} {s : Text} : c ≠ '"' → c ≠ '\\' → Escaped s → Escaped (c :: s)

/-- What no text between double quotes goes on with: the end, a backslash that escapes nothing, or
a quote. -/
def Unescaped (r : Text) : Prop := r = [] ∨ r = ['\\'] ∨ ∃ after, r = '"' :: after

private theorem escaped_splitEscaped (t : Text) : Escaped (splitEscaped t).1 := by
  fun_induction splitEscaped t with
  | case1 | case2 | case3 => exact .nil
  | case4 d t inside back hsplit hq ih =>
    rw [hsplit] at ih
    exact .pair d ih
  | case5 c t hq hs inside back hsplit ih =>
    rw [hsplit] at ih
    exact .plain hq hs ih

private theorem unescaped_splitEscaped (t : Text) : Unescaped (splitEscaped t).2 := by
  unfold Unescaped
  fun_induction splitEscaped t <;> simp_all

/-- **What is split off** is the text between double quotes, up to where it ends. -/
theorem splitEscaped_eq_iff {t i r : Text} :
    splitEscaped t = (i, r) ↔ Escaped i ∧ Unescaped r ∧ t = i ++ r := by
  constructor
  · intro h
    have happ := splitEscaped_append t
    have hi := escaped_splitEscaped t
    have hr := unescaped_splitEscaped t
    rw [h] at happ hi hr
    exact ⟨hi, hr, happ.symm⟩
  · rintro ⟨hi, hr, rfl⟩
    induction hi with
    | nil =>
      rcases hr with rfl | rfl | ⟨after, rfl⟩
      · rfl
      · rfl
      · exact splitEscaped_quote after
    | pair c hs ih => rw [List.cons_append, List.cons_append, splitEscaped_backslash, ih]
    | plain hq hs _ ih => rw [List.cons_append, splitEscaped_cons hq hs, ih]

/-! ### The patterns -/

/-- **A token that is cut off** in front of a text.  A quote that is never closed takes
everything to the end of the text, except for a backslash that escapes nothing. -/
inductive Cut : Token → Text → Prop
  | spacing {s r : Text} (hne : s ≠ []) (hs : s.all isSpacing = true) (hr : Stops isSpacing r) :
    Cut ⟨.whitespace, s⟩ r
  | feed (r : Text) : Cut ⟨.newline, ['\n']⟩ r
  | returnFeed (r : Text) : Cut ⟨.newline, ['\r', '\n']⟩ r
  | loneReturn {r : Text} (hr : r.head? ≠ some '\n') : Cut ⟨.unknown, ['\r']⟩ r
  | comment {s r : Text} (hs : s.all (fun d => d ≠ '\r' && d ≠ '\n') = true)
      (hr : Stops (fun d => d ≠ '\r' && d ≠ '\n') r) : Cut ⟨.comment, '#' :: s⟩ r
  | single {s : Text} (hs : s.all (· ≠ '\'') = true) (r : Text) :
    Cut ⟨.singleQuoted, '\'' :: s ++ ['\'']⟩ r
  | openSingle {s : Text} (hs : s.all (· ≠ '\'') = true) : Cut ⟨.unknown, '\'' :: s⟩ []
  | double {s : Text} (hs : Escaped s) (r : Text) : Cut ⟨.doubleQuoted, '"' :: s ++ ['"']⟩ r
  | openDouble {s r : Text} (hs : Escaped s) (hr : r = [] ∨ r = ['\\']) :
    Cut ⟨.unknown, '"' :: s⟩ r
  | word {w r : Text} (hw : isWord w = true) (hr : Stops isWordChar r) : Cut ⟨.word, w⟩ r
  | other {c : Char} (hspacing : isSpacing c = false)
      (hmark : c ≠ '\n' ∧ c ≠ '\r' ∧ c ≠ '#' ∧ c ≠ '\'' ∧ c ≠ '"')
      (hword : isWordStart c = false) (r : Text) : Cut ⟨.unknown, [c]⟩ r

/-- **The first token of a text is cut off.** -/
theorem cut_first (c : Char) (t : Text) : Cut (Token.first c t).1 (Token.first c t).2 := by
  have hrun : ∀ p : Char → Bool, (t.takeWhile p).all p = true := fun p =>
    List.all_eq_true.mpr fun d => List.mem_takeWhile_imp
  unfold Token.first
  split
  · next hc =>
    refine .spacing (List.cons_ne_nil _ _) ?_ (stops_dropWhile isSpacing t)
    rw [List.all_cons, hc, hrun]
    rfl
  split
  · next hc =>
    rw [hc]
    exact .feed t
  split
  · next hc =>
    rw [hc]
    cases t with
    | nil => exact .loneReturn (by simp)
    | cons d t =>
      dsimp only
      split
      · next hd =>
        rw [hd]
        exact .returnFeed t
      · next hd => exact .loneReturn (by simpa using hd)
  split
  · next hc =>
    rw [hc]
    exact .comment (hrun _) (stops_dropWhile _ t)
  split
  · next hc =>
    rw [hc]
    split
    · next q after hdrop =>
      -- what stops the search for a quote is a quote
      have hstop := stops_dropWhile (fun d => decide (d ≠ '\'')) t
      rw [hdrop] at hstop
      have hq : q = '\'' := by simpa using hstop q rfl
      rw [hq]
      exact .single (hrun _) after
    · next hdrop => exact .openSingle (List.all_eq_true.mpr (List.dropWhile_eq_nil_iff.mp hdrop))
  split
  · next hc =>
    rw [hc]
    split
    · next inside hsplit => exact .openDouble (splitEscaped_eq_iff.mp hsplit).1 (Or.inl rfl)
    · next inside q after hsplit =>
      obtain ⟨hinside, hend, -⟩ := splitEscaped_eq_iff.mp hsplit
      split
      · next hq =>
        rw [hq]
        exact .double hinside after
      · next hq =>
        refine .openDouble hinside (Or.inr ?_)
        rcases hend with h | h | ⟨r, h⟩
        · cases h
        · exact h
        · exact absurd (List.cons.inj h).1 hq
  split
  · next hc =>
    refine .word ?_ (stops_dropWhile isWordChar t)
    rw [isWord_cons, hc, hrun]
    rfl
  · next hspacing hfeed hreturn hhash hsingle hdouble hword =>
    exact .other (Bool.eq_false_iff.mpr hspacing) ⟨hfeed, hreturn, hhash, hsingle, hdouble⟩
      (Bool.eq_false_iff.mpr hword) t

namespace Cut

variable {u : Token} {r s : Text}

/-- **What is cut off in front of a text is the first token** of both. -/
theorem first (h : Cut u r) : ∃ c t, u.text ++ r = c :: t ∧ Token.first c t = (u, r) := by
  cases h with
  | @spacing s r hne hs hr =>
    obtain ⟨c, s, rfl⟩ := List.exists_cons_of_ne_nil hne
    rw [List.all_cons, Bool.and_eq_true] at hs
    obtain ⟨htake, hdrop⟩ := span_append hs.2 hr
    refine ⟨c, s ++ r, rfl, ?_⟩
    unfold Token.first
    rw [if_pos hs.1, htake, hdrop]
  | feed r => exact ⟨_, _, rfl, rfl⟩
  | returnFeed r => exact ⟨_, _, rfl, rfl⟩
  | @loneReturn r hr =>
    refine ⟨_, _, rfl, ?_⟩
    cases r with
    | nil => rfl
    | cons d r =>
      have hd : d ≠ '\n' := by simpa using hr
      unfold Token.first
      rw [if_neg (by decide), if_neg (by decide), if_pos rfl]
      exact if_neg hd
  | @comment s r hs hr =>
    obtain ⟨htake, hdrop⟩ := span_append hs hr
    refine ⟨'#', s ++ r, rfl, ?_⟩
    unfold Token.first
    rw [if_neg (by decide), if_neg (by decide), if_neg (by decide), if_pos rfl, htake, hdrop]
  | @single s hs r =>
    obtain ⟨htake, hdrop⟩ := span_append (r := '\'' :: r) hs (stops_cons (by decide))
    refine ⟨'\'', s ++ '\'' :: r, by simp, ?_⟩
    unfold Token.first
    rw [if_neg (by decide), if_neg (by decide), if_neg (by decide), if_neg (by decide), if_pos rfl,
      htake, hdrop]
  | @openSingle s hs =>
    obtain ⟨-, hdrop⟩ := span_append (r := []) hs nofun
    rw [List.append_nil] at hdrop
    refine ⟨'\'', s, by simp, ?_⟩
    unfold Token.first
    rw [if_neg (by decide), if_neg (by decide), if_neg (by decide), if_neg (by decide), if_pos rfl,
      hdrop]
  | @double s hs r =>
    refine ⟨'"', s ++ '"' :: r, by simp, ?_⟩
    unfold Token.first
    rw [if_neg (by decide), if_neg (by decide), if_neg (by decide), if_neg (by decide),
      if_neg (by decide), if_pos rfl, splitEscaped_eq_iff.mpr ⟨hs, Or.inr (Or.inr ⟨r, rfl⟩), rfl⟩]
    rfl
  | @openDouble s r hs hr =>
    refine ⟨'"', s ++ r, rfl, ?_⟩
    unfold Token.first
    rw [if_neg (by decide), if_neg (by decide), if_neg (by decide), if_neg (by decide),
      if_neg (by decide), if_pos rfl]
    rcases hr with rfl | rfl
    · rw [splitEscaped_eq_iff.mpr ⟨hs, Or.inl rfl, rfl⟩]
    · rw [splitEscaped_eq_iff.mpr ⟨hs, Or.inr (Or.inl rfl), rfl⟩]
      rfl
  | @word w r hw hr =>
    cases w with
    | nil => cases hw
    | cons c w =>
      rw [isWord_cons, Bool.and_eq_true] at hw
      obtain ⟨htake, hdrop⟩ := span_append hw.2 hr
      refine ⟨c, w ++ r, rfl, ?_⟩
      rw [Token.first_of_isWordStart hw.1, htake, hdrop]
  | @other c hspacing hmark hword r =>
    obtain ⟨hfeed, hreturn, hhash, hsingle, hdouble⟩ := hmark
    refine ⟨c, r, rfl, ?_⟩
    unfold Token.first
    rw [if_neg (by simp [hspacing]), if_neg hfeed, if_neg hreturn, if_neg hhash, if_neg hsingle,
      if_neg hdouble, if_neg (by simp [hword])]

/-- **Further text behind** what follows a token does not change it. -/
theorem append (h : Cut u r) (hr : r ≠ []) (hslash : r ≠ ['\\']) (s : Text) : Cut u (r ++ s) := by
  cases h with
  | spacing hne hs hstop => exact .spacing hne hs ((stops_append hr s).mpr hstop)
  | feed => exact .feed _
  | returnFeed => exact .returnFeed _
  | loneReturn hno =>
    refine .loneReturn ?_
    rwa [List.head?_append_of_ne_nil r hr]
  | comment hs hstop => exact .comment hs ((stops_append hr s).mpr hstop)
  | single hs => exact .single hs _
  | openSingle => exact absurd rfl hr
  | double hs => exact .double hs _
  | openDouble hs hend => exact absurd hend (not_or.mpr ⟨hr, hslash⟩)
  | word hw hstop => exact .word hw ((stops_append hr s).mpr hstop)
  | other hspacing hmark hword => exact .other hspacing hmark hword _

/-- Neither does leaving it out. -/
theorem of_append (h : Cut u (r ++ s)) (hr : r ≠ []) : Cut u r := by
  generalize htext : r ++ s = t at h
  cases h with
  | spacing hne hs hstop => exact .spacing hne hs ((stops_append hr s).mp (htext ▸ hstop))
  | feed => exact .feed r
  | returnFeed => exact .returnFeed r
  | loneReturn hno =>
    refine .loneReturn ?_
    rwa [← htext, List.head?_append_of_ne_nil r hr] at hno
  | comment hs hstop => exact .comment hs ((stops_append hr s).mp (htext ▸ hstop))
  | single hs => exact .single hs r
  | openSingle => exact absurd (List.append_eq_nil_iff.mp htext).1 hr
  | double hs => exact .double hs r
  | openDouble hs hend =>
    -- a backslash is all that can follow
    rcases hend with rfl | rfl
    · exact absurd (List.append_eq_nil_iff.mp htext).1 hr
    · rcases List.append_eq_singleton_iff.mp htext with ⟨hnil, -⟩ | ⟨hslash, -⟩
      · exact absurd hnil hr
      · exact .openDouble hs (Or.inr hslash)
  | word hw hstop => exact .word hw ((stops_append hr s).mp (htext ▸ hstop))
  | other hspacing hmark hword => exact .other hspacing hmark hword r

/-- **A line end** is one whatever follows. -/
theorem of_newline (h : Cut u r) (hu : u.kind = .newline) (s : Text) : Cut u s := by
  cases h with
  | feed => exact .feed s
  | returnFeed => exact .returnFeed s
  | spacing | loneReturn | comment | single | openSingle | double | openDouble | word | other =>
    cases hu

end Cut

/-- **What is cut off in front of a text** is one token of both. -/
theorem ofText_of_cut {u : Token} {r : Text} (h : Cut u r) :
    Token.ofText (u.text ++ r) = u :: Token.ofText r := by
  obtain ⟨c, t, htext, hfirst⟩ := h.first
  rw [htext, Token.ofText_cons, hfirst]

/-- **A text with a token** has one that is cut off in front of the others. -/
theorem exists_cut {t : Text} {u : Token} {ts : List Token} (h : Token.ofText t = u :: ts) :
    ∃ r, t = u.text ++ r ∧ Cut u r ∧ Token.ofText r = ts := by
  cases t with
  | nil =>
    rw [Token.ofText_nil] at h
    cases h
  | cons c t =>
    rw [Token.ofText_cons] at h
    obtain ⟨rfl, rfl⟩ := List.cons.inj h
    exact ⟨_, (Token.first_append c t).symm, cut_first c t, rfl⟩

/-- Every token of a text is cut off in front of some of it. -/
theorem cut_of_mem {t : Text} {u : Token} (h : u ∈ Token.ofText t) : ∃ r, Cut u r := by
  induction t using Token.ofText.induct with
  | case1 => simp at h
  | case2 c t ih =>
    rw [Token.ofText_cons, List.mem_cons] at h
    rcases h with rfl | h
    · exact ⟨_, cut_first c t⟩
    · exact ih h

end Syntax
end Uci
