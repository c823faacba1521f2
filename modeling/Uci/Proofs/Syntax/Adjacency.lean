import Mathlib.Data.List.Chain
import Uci.Syntax.Token

/-!
# Neighbouring tokens

The grammar looks at the tokens of a source one after the other and does not ask where
they come from.  Two things it may rely on all the same, since tokens are cut as long as
their patterns allow: a stretch of space has no other one behind it, and a comment goes on
to the end of its line.

## Main definitions

* `Kind.isLexical` — the kinds that tokens of a source have.
* `Follows` — a token may stand behind another one.
* `Lexed` — **a list of tokens as they are cut from a source**, or the end of one.

## Main results

* `lexed_ofText` — the tokens of every text are such a list.
-/

namespace Uci
namespace Syntax

/-- The kinds of tokens that are cut from a source.  A keyword is a word there. -/
def Kind.isLexical : Kind → Bool
  | whitespace | newline | comment | word | singleQuoted | doubleQuoted | unknown => true
  | _ => false

/-- A token may stand behind another one. -/
structure Follows (t u : Token) : Prop where
  space : t.kind = .whitespace → u.kind ≠ .whitespace
  comment : t.kind = .comment → u.kind = .newline ∨ u.kind = .unknown

/-- **Tokens as they are cut from a source.** -/
structure Lexed (ts : List Token) : Prop where
  isLexical : ∀ t ∈ ts, t.kind.isLexical = true
  chain : ts.IsChain Follows

/-! ### The first token of a text -/

namespace Token

theorem isLexical_first (c : Char) (t : Text) : (first c t).1.kind.isLexical = true := by
  unfold first
  repeat' split
  all_goals rfl

/-- Space is what begins with space. -/
theorem first_kind_eq_whitespace {c : Char} {t : Text} :
    (first c t).1.kind = .whitespace ↔ isSpacing c = true := by
  unfold first
  split
  · next h => simp [h]
  · next h =>
    repeat' split
    all_goals simpa using h

/-- A comment is what begins with `#`. -/
theorem first_kind_eq_comment {c : Char} {t : Text} : (first c t).1.kind = .comment ↔ c = '#' := by
  constructor
  · unfold first
    repeat' split
    all_goals simp_all
  · rintro rfl
    rfl

/-- What begins with a line feed or a carriage return is a line end, or a carriage return
without a line feed. -/
theorem first_kind_of_return {c : Char} (h : c = '\r' ∨ c = '\n') (t : Text) :
    (first c t).1.kind = .newline ∨ (first c t).1.kind = .unknown := by
  rcases h with rfl | rfl
  · unfold first
    rw [if_neg (by decide), if_neg (by decide), if_pos rfl]
    split
    · split
      · exact Or.inl rfl
      · exact Or.inr rfl
    · exact Or.inr rfl
  · exact Or.inl rfl

/-- What is left behind space does not begin with space. -/
private theorem snd_first_of_isSpacing {c : Char} (h : isSpacing c = true) (t : Text) :
    (first c t).2 = t.dropWhile isSpacing := by
  unfold first
  rw [if_pos h]

private theorem snd_first_hash (t : Text) :
    (first '#' t).2 = t.dropWhile fun d => d ≠ '\r' && d ≠ '\n' := rfl

/-- The token behind the first one. -/
theorem follows_first (c : Char) (t : Text) : ∀ u ∈ (ofText (first c t).2).head?,
    Follows (first c t).1 u := by
  intro u hu
  cases hr : (first c t).2 with
  | nil =>
    rw [hr, ofText_nil] at hu
    cases hu
  | cons d r =>
    rw [hr, ofText_cons] at hu
    cases hu
    constructor
    · intro hspace hd
      rw [snd_first_of_isSpacing (first_kind_eq_whitespace.mp hspace)] at hr
      -- the run of spaces ends before the first character that is none
      have hstop := List.head?_dropWhile_not isSpacing t
      rw [hr] at hstop
      have hd : isSpacing d = true := first_kind_eq_whitespace.mp hd
      simp [hd] at hstop
    · intro hcomment
      rw [first_kind_eq_comment.mp hcomment, snd_first_hash] at hr
      have hstop := List.head?_dropWhile_not (fun d => d ≠ '\r' && d ≠ '\n') t
      rw [hr] at hstop
      refine first_kind_of_return ?_ r
      by_contra hno
      obtain ⟨hreturn, hfeed⟩ := not_or.mp hno
      simp [hreturn, hfeed] at hstop

end Token

/-! ### Lists of tokens -/

/-- **The tokens of a text.** -/
theorem lexed_ofText (t : Text) : Lexed (Token.ofText t) := by
  induction t using Token.ofText.induct with
  | case1 =>
    rw [Token.ofText_nil]
    exact ⟨by simp, .nil⟩
  | case2 c t ih =>
    rw [Token.ofText_cons]
    constructor
    · intro u hu
      rcases List.mem_cons.mp hu with rfl | hu
      · exact Token.isLexical_first c t
      · exact ih.isLexical u hu
    · exact List.isChain_cons.mpr ⟨Token.follows_first c t, ih.chain⟩

namespace Lexed

variable {t u : Token} {ts us : List Token}

/-- The tokens behind some are lexed as well. -/
theorem of_append (h : Lexed (ts ++ us)) : Lexed us where
  isLexical u hu := h.isLexical u (List.mem_append_right ts hu)
  chain := h.chain.right_of_append

theorem head (h : Lexed (t :: u :: ts)) : Follows t u := (List.isChain_cons_cons.mp h.chain).1

end Lexed

end Syntax
end Uci
