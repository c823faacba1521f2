import Uci.Proofs.Syntax.Reporting
import Uci.Proofs.Syntax.Splicing

/-!
# Carriage returns at line ends

A line ends with a line feed, and a carriage return may stand before it.  In a text without
carriage returns, of which no token but a line end holds a line feed, one can be put before every
line feed: the tokens are the same but for the line ends, and every place has the position that it
had, only that more bytes are counted before it.

## Main definitions

* `Text.crlf`, `Token.crlf` — a text and a token with a carriage return before every line feed.
* `FeedsEnd` — tokens of which only line ends hold a line feed.
* `Text.crlfOffset`, `Carries` — where a place is found, and maps of places that agree with tokens.

## Main results

* `Position.ofOffset_crlf` — positions do not count carriage returns at line ends.
* `ofText_crlf` — **the tokens of the text with carriage returns.**
* `carries_ofText` — the places of a text agree with its tokens.
-/

namespace Uci

/-! ### Texts and positions -/

namespace Text

/-- **The text with a carriage return before every line feed.** -/
def crlf (t : Text) : Text := t.flatMap fun c => if c = '\n' then ['\r', '\n'] else [c]

@[simp] theorem crlf_nil : crlf [] = [] := rfl

@[simp] theorem crlf_cons_feed (t : Text) : crlf ('\n' :: t) = '\r' :: '\n' :: crlf t := rfl

theorem crlf_cons {c : Char} (h : c ≠ '\n') (t : Text) : crlf (c :: t) = c :: crlf t := by
  rw [crlf, List.flatMap_cons, if_neg h]
  rfl

@[simp] theorem crlf_append (s t : Text) : crlf (s ++ t) = crlf s ++ crlf t := List.flatMap_append

/-- A line feed stands neither at the head nor behind it. -/
theorem not_mem_feed_cons {c : Char} {t : Text} : '\n' ∉ c :: t ↔ c ≠ '\n' ∧ '\n' ∉ t := by
  rw [List.mem_cons, not_or, ne_comm]

theorem crlf_eq_self {t : Text} (h : '\n' ∉ t) : crlf t = t := by
  induction t with
  | nil => rfl
  | cons c t ih =>
    obtain ⟨hc, ht⟩ := not_mem_feed_cons.mp h
    rw [crlf_cons hc, ih ht]

theorem crlf_flatMap {α : Type} (l : List α) (f : α → Text) :
    crlf (l.flatMap f) = l.flatMap fun a => crlf (f a) := List.flatMap_assoc

/-- **Where a place of the text is found** in the one with carriage returns, both counted in
bytes. -/
def crlfOffset (t : Text) (n : Nat) : Nat := size (crlf ((t.prefixOfSize? n).getD t))

theorem crlfOffset_append (s t : Text) : crlfOffset (s ++ t) (size s) = size (crlf s) := by
  rw [crlfOffset, prefixOfSize?_append, Option.getD_some]

end Text

/-- **A carriage return at a line end is not counted.** -/
theorem Position.after_crlf (t : Text) : after t.crlf = after t := by
  induction t using List.reverseRecOn with
  | nil => rfl
  | append_singleton t c ih =>
    rw [Text.crlf_append, after_snoc]
    by_cases hc : c = '\n'
    · -- the carriage return takes a column of the line that ends here
      subst hc
      have hsplit : Text.crlf t ++ Text.crlf ['\n'] = (Text.crlf t ++ ['\r']) ++ ['\n'] := by simp
      rw [hsplit, after_snoc, after_snoc, ih, if_pos rfl, if_neg (by decide), if_pos rfl]
    · rw [Text.crlf_cons hc, Text.crlf_nil, after_snoc, ih]

/-- **Corresponding places have the same position.** -/
theorem Position.ofOffset_crlf {t : Text} {n : Nat} (h : t.IsBoundary n) :
    ofOffset t.crlf (t.crlfOffset n) = ofOffset t n := by
  obtain ⟨before, behind, rfl, rfl⟩ := h
  rw [Text.crlfOffset_append, Text.crlf_append, ofOffset_append, ofOffset_append, after_crlf]

namespace Syntax

/-! ### Tokens -/

/-- The token with a carriage return before every line feed. -/
def Token.crlf (t : Token) : Token := ⟨t.kind, t.text.crlf⟩

@[simp] theorem Token.kind_crlf (t : Token) : t.crlf.kind = t.kind := rfl

/-- **Only line ends hold a line feed.** -/
def FeedsEnd (ts : List Token) : Prop := ∀ t ∈ ts, t.kind ≠ .newline → '\n' ∉ t.text

theorem Token.crlf_eq_self {t : Token} (h : '\n' ∉ t.text) : t.crlf = t := by
  rw [Token.crlf, Text.crlf_eq_self h]

/-- Tokens that stand on a line stay as they are. -/
theorem FeedsEnd.map_crlf {ts : List Token} (h : FeedsEnd ts)
    (hinline : ∀ t ∈ ts, t.kind.isInline = true) : ts.map Token.crlf = ts := by
  refine (List.map_congr_left fun t ht => ?_).trans (List.map_id ts)
  exact Token.crlf_eq_self (h t ht (Kind.ne_newline_of_isInline (hinline t ht)))

/-- What stops a run of characters still does, if a carriage return stops it where a line feed
does. -/
private theorem Stops.crlf {p : Char → Bool} (hp : p '\n' = false → p '\r' = false) {r : Text}
    (h : Stops p r) : Stops p r.crlf := by
  cases r with
  | nil => exact h
  | cons c r =>
    by_cases hc : c = '\n'
    · subst hc
      rw [Text.crlf_cons_feed]
      exact stops_cons (hp (h '\n' rfl))
    · rw [Text.crlf_cons hc]
      exact stops_cons (h c rfl)

/-- **A token that is cut off** is so with carriage returns. -/
private theorem Cut.crlf {u : Token} {r : Text} (h : Cut u r) (hreturn : '\r' ∉ u.text)
    (hfeed : u.kind ≠ .newline → '\n' ∉ u.text) : Cut u.crlf r.crlf := by
  by_cases hk : u.kind = .newline
  · cases h with
    | feed => exact .returnFeed _
    | returnFeed => exact absurd List.mem_cons_self hreturn
    | spacing | loneReturn | comment | single | openSingle | double | openDouble | word | other =>
      cases hk
  · rw [Token.crlf_eq_self (hfeed hk)]
    cases h with
    | feed | returnFeed => exact absurd rfl hk
    | loneReturn => exact absurd List.mem_cons_self hreturn
    | spacing hne hs hstop => exact .spacing hne hs (hstop.crlf (by decide))
    | comment hs hstop => exact .comment hs (hstop.crlf (by decide))
    | single hs => exact .single hs _
    | openSingle hs => exact .openSingle hs
    | double hs => exact .double hs _
    | openDouble hs hend =>
      rcases hend with rfl | rfl
      · exact .openDouble hs (Or.inl rfl)
      · exact .openDouble hs (Or.inr rfl)
    | word hw hstop => exact .word hw (hstop.crlf (by decide))
    | other hspacing hmark hword => exact .other hspacing hmark hword _

/-- **The tokens of the text with carriage returns.** -/
theorem ofText_crlf {t : Text} (hreturn : '\r' ∉ t) (hfeeds : FeedsEnd (Token.ofText t)) :
    Token.ofText t.crlf = (Token.ofText t).map Token.crlf := by
  generalize hts : Token.ofText t = ts at hfeeds ⊢
  induction ts generalizing t with
  | nil => rw [ofText_eq_nil.mp hts, Text.crlf_nil, Token.ofText_nil, List.map_nil]
  | cons u ts ih =>
    obtain ⟨r, rfl, hcut, hmore⟩ := exists_cut hts
    obtain ⟨hu, hothers⟩ := List.forall_mem_cons.mp hfeeds
    rw [List.mem_append, not_or] at hreturn
    rw [Text.crlf_append, List.map_cons, ← ih hreturn.2 hmore hothers]
    exact ofText_of_cut (hcut.crlf hreturn.1 hu)

/-! ### Places -/

/-- **A map of places agrees with tokens** that begin at an offset: behind each of them it has
moved on by what the tokens take with carriage returns. -/
def Carries (g : Nat → Nat) (o : Nat) (ts : List Token) : Prop :=
  ∀ front back, ts = front ++ back → g (o + sizeOf front) = g o + sizeOf (front.map Token.crlf)

section

variable {g : Nat → Nat} {o : Nat} {ts us : List Token}

theorem Carries.front (h : Carries g o (ts ++ us)) :
    g (o + sizeOf ts) = g o + sizeOf (ts.map Token.crlf) := h ts us rfl

theorem Carries.behind (h : Carries g o (ts ++ us)) : Carries g (o + sizeOf ts) us := by
  rintro front back rfl
  have hall := h (ts ++ front) back (List.append_assoc ..).symm
  rw [sizeOf_append, ← Nat.add_assoc] at hall
  rw [hall, h.front, List.map_append, sizeOf_append, Nat.add_assoc]

theorem Carries.of_append (h : Carries g o (ts ++ us)) : Carries g o ts := by
  rintro front back rfl
  exact h front (back ++ us) (List.append_assoc ..)

end

/-- The places of a text agree with its tokens. -/
theorem carries_ofText (t : Text) : Carries t.crlfOffset 0 (Token.ofText t) := by
  intro front back hsplit
  have htext : t = front.flatMap Token.text ++ back.flatMap Token.text := by
    rw [← List.flatMap_append, ← hsplit, Token.texts_ofText]
  have hcrlf : sizeOf (front.map Token.crlf) =
      Text.size (Text.crlf (front.flatMap Token.text)) := by
    rw [sizeOf, List.flatMap_map, Text.crlf_flatMap]
    rfl
  have hzero : t.crlfOffset 0 = 0 := Text.crlfOffset_append [] t
  rw [hzero, hcrlf, Nat.zero_add, Nat.zero_add]
  nth_rewrite 1 [htext]
  exact Text.crlfOffset_append _ _

end Syntax
end Uci
