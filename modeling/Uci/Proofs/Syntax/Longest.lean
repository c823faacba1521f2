import Mathlib.Computability.Language
import Uci.Proofs.Syntax.Adjacency
import Uci.Proofs.Syntax.Pattern

/-!
# Longest matches

The patterns of tokens are regular expressions, here written out as languages.  A text is read
from left to right, and each time the token taken is the longest text that any of the patterns
matches there; where none of them matches anything, the text is set aside in a token of kind
`unknown`, up to the end if it begins with a quote that is never closed.  The tokens of a text are
read in this way, and nothing else is.

What may stand next to what follows from it: two tokens that one pattern would have matched
together cannot be neighbours.

## Main definitions

* `Kind.pattern` — the texts that the pattern of a kind matches.
* `Taken` — **the longest match in front of a text**, or how much is set aside where there is none.
* `LongestReading` — tokens that a text is read as by longest matches.

## Main results

* `taken_iff_cut` — the longest match is the token that is cut off.
* `longestReading_ofText` — **the tokens of a text are its longest matches**.
* `ofText_eq_iff` — which determines them.
-/

namespace Uci
namespace Syntax

open scoped Computability

/-! ### The patterns -/

/-- One character that passes a test. -/
def oneOf (p : Char → Bool) : Language Char := {t | ∃ c, p c = true ∧ t = [c]}

/-- One character, namely `c`. -/
def just (c : Char) : Language Char := {[c]}

/-- One piece of what may stand between double quotes: `[^"\\]|\\(.|\n)`. -/
def piecePattern : Language Char :=
  oneOf (fun c => c ≠ '"' && c ≠ '\\') + just '\\' * (oneOf (· ≠ '\n') + just '\n')

/-- A double quote and what may stand behind it up to the closing one: `"([^"\\]|\\(.|\n))*`. -/
def openPattern : Language Char := just '"' * piecePattern∗

/-- **The texts that the pattern of a kind matches**; kinds that no source has tokens of have no
pattern, and neither has `unknown`. -/
def Kind.pattern : Kind → Language Char
  -- `[ \t]+`
  | whitespace => oneOf (fun c => c = ' ' || c = '\t') * (oneOf fun c => c = ' ' || c = '\t')∗
  -- `\r?\n`
  | newline => (1 + just '\r') * just '\n'
  -- `#[^\r\n]*`
  | comment => just '#' * (oneOf fun c => c ≠ '\r' && c ≠ '\n')∗
  -- `'[^']*'`
  | singleQuoted => just '\'' * (oneOf (· ≠ '\''))∗ * just '\''
  -- `"([^"\\]|\\(.|\n))*"`
  | doubleQuoted => openPattern * just '"'
  -- `[^\s'"#\\][^\s'"\\]*`
  | word =>
    (oneOf fun c => !Text.isBlank c && c ≠ '\'' && c ≠ '"' && c ≠ '#' && c ≠ '\\') *
      (oneOf fun c => !Text.isBlank c && c ≠ '\'' && c ≠ '"' && c ≠ '\\')∗
  | _ => 0

/-- **How much is set aside** in front of a text where no pattern matches. -/
inductive SetAside : Text → Text → Prop
  /-- Behind a single quote everything to the end. -/
  | single (s : Text) : SetAside ('\'' :: s) []
  /-- Behind a double quote all that could stand there if it were closed, which is everything to
  the end, but for one backslash that may be the last character. -/
  | double {s r : Text} : s ∈ openPattern →
    (∀ s' ∈ openPattern, s' <+: s ++ r → s'.length ≤ s.length) → r = [] ∨ r = ['\\'] →
    SetAside s r
  /-- Of anything else one character. -/
  | other {c : Char} : c ≠ '\'' → c ≠ '"' → ∀ r, SetAside [c] r

/-- **The longest match** in front of the text `r`, or what is set aside where there is none. -/
structure Taken (u : Token) (r : Text) : Prop where
  /-- The token is a match of the pattern of its kind, and no pattern has a longer one. -/
  longest : u.kind ≠ .unknown → u.text ∈ u.kind.pattern ∧
    ∀ k : Kind, ∀ s ∈ k.pattern, s <+: u.text ++ r → s.length ≤ u.text.length
  /-- Text is set aside only where no pattern matches anything. -/
  unmatched : u.kind = .unknown → (∀ k : Kind, ∀ s ∈ k.pattern, ¬s <+: u.text ++ r) ∧
    SetAside u.text r

/-! ### What the patterns match -/

section Patterns

variable {p : Char → Bool} {c : Char} {s t : Text} {l : Language Char}

theorem mem_just_mul : t ∈ just c * l ↔ ∃ s ∈ l, t = c :: s := by
  rw [Language.mem_mul]
  constructor
  · rintro ⟨_, rfl, s, hs, rfl⟩
    exact ⟨s, hs, rfl⟩
  · rintro ⟨s, hs, rfl⟩
    exact ⟨[c], rfl, s, hs, rfl⟩

theorem mem_mul_just : t ∈ l * just c ↔ ∃ s ∈ l, t = s ++ [c] := by
  rw [Language.mem_mul]
  constructor
  · rintro ⟨s, hs, _, rfl, rfl⟩
    exact ⟨s, hs, rfl⟩
  · rintro ⟨s, hs, rfl⟩
    exact ⟨s, hs, [c], rfl, rfl⟩

theorem mem_oneOf_mul : t ∈ oneOf p * l ↔ ∃ c, p c = true ∧ ∃ s ∈ l, t = c :: s := by
  rw [Language.mem_mul]
  constructor
  · rintro ⟨_, ⟨c, hc, rfl⟩, s, hs, rfl⟩
    exact ⟨c, hc, s, hs, rfl⟩
  · rintro ⟨c, hc, s, hs, rfl⟩
    exact ⟨[c], ⟨c, hc, rfl⟩, s, hs, rfl⟩

theorem append_mem_kstar (hs : s ∈ l) (ht : t ∈ l∗) : s ++ t ∈ l∗ :=
  mul_kstar_le_kstar (a := l) (Language.append_mem_mul hs ht)

/-- A run of characters. -/
theorem mem_kstar_oneOf : t ∈ (oneOf p)∗ ↔ t.all p = true := by
  constructor
  · rintro ⟨ts, rfl, hts⟩
    rw [List.all_eq_true]
    intro c hc
    obtain ⟨s, hs, hcs⟩ := List.mem_flatten.mp hc
    obtain ⟨d, hd, rfl⟩ := hts s hs
    rwa [List.mem_singleton.mp hcs]
  · intro ht
    induction t with
    | nil => exact Language.nil_mem_kstar _
    | cons c t ih =>
      rw [List.all_cons, Bool.and_eq_true] at ht
      exact append_mem_kstar (s := [c]) ⟨c, ht.1, rfl⟩ (ih ht.2)

/-- Between double quotes stands text that is escaped as it has to be. -/
theorem mem_kstar_piecePattern : t ∈ piecePattern∗ ↔ Escaped t := by
  constructor
  · rintro ⟨ts, rfl, hts⟩
    induction ts with
    | nil => exact .nil
    | cons s ts ih =>
      obtain ⟨hs, hts⟩ := List.forall_mem_cons.mp hts
      have hrest := ih hts
      rcases hs with ⟨c, hc, rfl⟩ | hs
      · simp only [Bool.and_eq_true, decide_eq_true_eq] at hc
        exact .plain hc.1 hc.2 hrest
      · obtain ⟨s, ⟨c, -, rfl⟩ | rfl, rfl⟩ := mem_just_mul.mp hs
        · exact .pair c hrest
        · exact .pair '\n' hrest
  · intro ht
    induction ht with
    | nil => exact Language.nil_mem_kstar _
    | @pair c s _ ih =>
      refine append_mem_kstar (s := ['\\', c]) (Or.inr (mem_just_mul.mpr ⟨[c], ?_, rfl⟩)) ih
      -- the character behind a backslash is a line feed or another one
      by_cases hc : c = '\n'
      · exact Or.inr (by rw [hc]; rfl)
      · exact Or.inl ⟨c, by simpa using hc, rfl⟩
    | @plain c s hq hb _ ih =>
      exact append_mem_kstar (s := [c]) (Or.inl ⟨c, by simp [hq, hb], rfl⟩) ih

theorem mem_openPattern : t ∈ openPattern ↔ ∃ s, Escaped s ∧ t = '"' :: s := by
  rw [openPattern, mem_just_mul]
  exact exists_congr fun s => and_congr_left fun _ => mem_kstar_piecePattern

theorem mem_whitespace : t ∈ Kind.whitespace.pattern ↔ t ≠ [] ∧ t.all isSpacing = true := by
  have hp : (fun c : Char => decide (c = ' ') || decide (c = '\t')) = isSpacing := rfl
  rw [Kind.pattern, hp, mem_oneOf_mul]
  constructor
  · rintro ⟨c, hc, s, hs, rfl⟩
    exact ⟨List.cons_ne_nil c s, by rw [List.all_cons, hc, mem_kstar_oneOf.mp hs]; rfl⟩
  · rintro ⟨hne, ht⟩
    obtain ⟨c, s, rfl⟩ := List.exists_cons_of_ne_nil hne
    rw [List.all_cons, Bool.and_eq_true] at ht
    exact ⟨c, ht.1, s, mem_kstar_oneOf.mpr ht.2, rfl⟩

theorem mem_newline : t ∈ Kind.newline.pattern ↔ t = ['\n'] ∨ t = ['\r', '\n'] := by
  rw [Kind.pattern, mem_mul_just]
  constructor
  · rintro ⟨s, rfl | rfl, rfl⟩
    · exact Or.inl rfl
    · exact Or.inr rfl
  · rintro (rfl | rfl)
    · exact ⟨[], Or.inl rfl, rfl⟩
    · exact ⟨['\r'], Or.inr rfl, rfl⟩

theorem mem_comment : t ∈ Kind.comment.pattern ↔
    ∃ s : Text, s.all (fun d => d ≠ '\r' && d ≠ '\n') = true ∧ t = '#' :: s := by
  rw [Kind.pattern, mem_just_mul]
  exact exists_congr fun s => and_congr_left fun _ => mem_kstar_oneOf

theorem mem_singleQuoted : t ∈ Kind.singleQuoted.pattern ↔
    ∃ s : Text, s.all (· ≠ '\'') = true ∧ t = '\'' :: s ++ ['\''] := by
  rw [Kind.pattern, mem_mul_just]
  constructor
  · rintro ⟨_, hopen, rfl⟩
    obtain ⟨s, hs, rfl⟩ := mem_just_mul.mp hopen
    exact ⟨s, mem_kstar_oneOf.mp hs, rfl⟩
  · rintro ⟨s, hs, rfl⟩
    exact ⟨_, mem_just_mul.mpr ⟨s, mem_kstar_oneOf.mpr hs, rfl⟩, rfl⟩

theorem mem_doubleQuoted : t ∈ Kind.doubleQuoted.pattern ↔
    ∃ s, Escaped s ∧ t = '"' :: s ++ ['"'] := by
  rw [Kind.pattern, mem_mul_just]
  constructor
  · rintro ⟨_, hopen, rfl⟩
    obtain ⟨s, hs, rfl⟩ := mem_openPattern.mp hopen
    exact ⟨s, hs, rfl⟩
  · rintro ⟨s, hs, rfl⟩
    exact ⟨_, mem_openPattern.mpr ⟨s, hs, rfl⟩, rfl⟩

/-- The pattern of words matches bare words. -/
theorem mem_word : t ∈ Kind.word.pattern ↔ isWord t = true := by
  have hp : (fun c : Char => !Text.isBlank c && decide (c ≠ '\'') && decide (c ≠ '"') &&
      decide (c ≠ '\\')) = isWordChar := rfl
  have hstart : ∀ c : Char, (!Text.isBlank c && decide (c ≠ '\'') && decide (c ≠ '"') &&
      decide (c ≠ '#') && decide (c ≠ '\\')) = isWordStart c := by
    intro c
    unfold isWordStart isWordChar
    rw [Bool.and_right_comm]
  rw [Kind.pattern, hp, mem_oneOf_mul]
  constructor
  · rintro ⟨c, hc, s, hs, rfl⟩
    rw [isWord_cons, ← hstart, hc, mem_kstar_oneOf.mp hs]
    rfl
  · intro ht
    cases t with
    | nil => cases ht
    | cons c s =>
      rw [isWord_cons, Bool.and_eq_true, ← hstart] at ht
      exact ⟨c, ht.1, s, mem_kstar_oneOf.mpr ht.2, rfl⟩

end Patterns

/-! ### The longest match is the token that is cut off -/

section

variable {u v : Token} {k : Kind} {r r' s t : Text}

/-- **What a text begins with and a pattern matches** is part of a token of that kind: runs go on
as far as they can, the rest is complete. -/
theorem exists_cut_of_mem_pattern (hs : s ∈ k.pattern) (r : Text) :
    ∃ s' r', r = s' ++ r' ∧ Cut ⟨k, s ++ s'⟩ r' := by
  have hrun : ∀ p : Char → Bool, (r.takeWhile p).all p = true := fun p =>
    List.all_eq_true.mpr fun c => List.mem_takeWhile_imp
  have hsplit : ∀ p : Char → Bool, r = r.takeWhile p ++ r.dropWhile p := fun p =>
    List.takeWhile_append_dropWhile.symm
  cases k with
  | whitespace =>
    obtain ⟨hne, hs⟩ := mem_whitespace.mp hs
    refine ⟨_, _, hsplit isSpacing, .spacing (List.append_ne_nil_of_left_ne_nil hne _) ?_
      (stops_dropWhile isSpacing r)⟩
    rw [List.all_append, hs, hrun]
    rfl
  | newline =>
    rcases mem_newline.mp hs with rfl | rfl
    · exact ⟨[], r, rfl, .feed r⟩
    · exact ⟨[], r, rfl, .returnFeed r⟩
  | comment =>
    obtain ⟨i, hi, rfl⟩ := mem_comment.mp hs
    refine ⟨_, _, hsplit _, .comment (s := i ++ r.takeWhile fun d => d ≠ '\r' && d ≠ '\n') ?_
      (stops_dropWhile _ r)⟩
    rw [List.all_append, hi, hrun]
    rfl
  | singleQuoted =>
    obtain ⟨i, hi, rfl⟩ := mem_singleQuoted.mp hs
    refine ⟨[], r, rfl, ?_⟩
    rw [List.append_nil]
    exact .single hi r
  | doubleQuoted =>
    obtain ⟨i, hi, rfl⟩ := mem_doubleQuoted.mp hs
    refine ⟨[], r, rfl, ?_⟩
    rw [List.append_nil]
    exact .double hi r
  | word =>
    have hw := mem_word.mp hs
    cases s with
    | nil => cases hw
    | cons c s =>
      refine ⟨_, _, hsplit isWordChar, .word ?_ (stops_dropWhile isWordChar r)⟩
      rw [isWord_cons, Bool.and_eq_true] at hw
      rw [List.cons_append, isWord_cons, List.all_append, hw.1, hw.2, hrun]
      rfl
  | _ => cases hs

/-- A text is cut in one way only. -/
theorem Cut.unique (h : Cut u r) (h' : Cut v r') (htext : u.text ++ r = v.text ++ r') :
    u = v ∧ r = r' := by
  obtain ⟨c, t, ht, hfirst⟩ := h.first
  obtain ⟨c', t', ht', hfirst'⟩ := h'.first
  obtain ⟨rfl, rfl⟩ := List.cons.inj (ht.symm.trans (htext.trans ht'))
  exact Prod.ext_iff.mp (hfirst.symm.trans hfirst')

/-- Where a pattern matches, a token that is cut off has that kind and is no shorter. -/
theorem Cut.kind_eq_of_prefix (h : Cut u r) (hs : s ∈ k.pattern) (hpre : s <+: u.text ++ r) :
    u.kind = k ∧ s.length ≤ u.text.length := by
  obtain ⟨r', hr'⟩ := hpre
  obtain ⟨s', r'', rfl, hcut⟩ := exists_cut_of_mem_pattern hs r'
  obtain ⟨rfl, -⟩ := h.unique hcut (by rw [← hr', List.append_assoc])
  refine ⟨rfl, ?_⟩
  rw [List.length_append]
  exact Nat.le_add_right _ _

/-- A token that is cut off is a match of its pattern. -/
theorem Cut.mem_pattern (h : Cut u r) (hu : u.kind ≠ .unknown) : u.text ∈ u.kind.pattern := by
  cases h with
  | spacing hne hs _ => exact mem_whitespace.mpr ⟨hne, hs⟩
  | feed => exact mem_newline.mpr (Or.inl rfl)
  | returnFeed => exact mem_newline.mpr (Or.inr rfl)
  | comment hs _ => exact mem_comment.mpr ⟨_, hs, rfl⟩
  | single hs => exact mem_singleQuoted.mpr ⟨_, hs, rfl⟩
  | double hs => exact mem_doubleQuoted.mpr ⟨_, hs, rfl⟩
  | word hw _ => exact mem_word.mpr hw
  | loneReturn | openSingle | openDouble | other => exact absurd rfl hu

/-- Text behind a double quote that ends with the text, or in front of a last backslash, is as
long as it can be. -/
private theorem length_le_of_openPattern (hs : Escaped s) (hr : r = [] ∨ r = ['\\'])
    (ht : t ∈ openPattern) (hpre : t <+: '"' :: s ++ r) : t.length ≤ ('"' :: s).length := by
  obtain ⟨i, hi, rfl⟩ := mem_openPattern.mp ht
  rcases hr with rfl | rfl
  · rw [List.append_nil] at hpre
    exact hpre.length_le
  · rcases List.prefix_concat_iff.mp hpre with heq | hpre
    · -- the backslash at the end would have to escape something
      have hwhole : splitEscaped (s ++ ['\\']) = (i, []) := by
        refine splitEscaped_eq_iff.mpr ⟨hi, Or.inl rfl, ?_⟩
        rw [List.append_nil]
        exact (List.cons.inj heq).2.symm
      have hfront : splitEscaped (s ++ ['\\']) = (s, ['\\']) :=
        splitEscaped_eq_iff.mpr ⟨hs, Or.inr (Or.inl rfl), rfl⟩
      rw [hwhole] at hfront
      cases hfront
    · exact hpre.length_le

/-- Of a text without a match as much is cut off as is set aside. -/
theorem Cut.setAside (h : Cut u r) (hu : u.kind = .unknown) : SetAside u.text r := by
  cases h with
  | loneReturn => exact .other (by decide) (by decide) _
  | @openSingle s => exact .single s
  | openDouble hs hr =>
    exact .double (mem_openPattern.mpr ⟨_, hs, rfl⟩)
      (fun t ht hpre => length_le_of_openPattern hs hr ht hpre) hr
  | other _ hmark _ => exact .other hmark.2.2.2.1 hmark.2.2.2.2 _
  | spacing | feed | returnFeed | comment | single | double | word => cases hu

theorem taken_of_cut (h : Cut u r) : Taken u r where
  longest hu := ⟨h.mem_pattern hu, fun k s hs hpre => (h.kind_eq_of_prefix hs hpre).2⟩
  unmatched hu := by
    refine ⟨fun k s hs hpre => ?_, h.setAside hu⟩
    -- a match would make the token one of its kind, and `unknown` has no pattern
    rw [← (h.kind_eq_of_prefix hs hpre).1, hu] at hs
    cases hs

/-- How much is set aside is determined by the text. -/
theorem SetAside.length_eq (h : SetAside s r) (h' : SetAside t r') (htext : s ++ r = t ++ r') :
    s.length = t.length := by
  cases h with
  | single s =>
    cases h' with
    | single t =>
      rw [List.append_nil, List.append_nil] at htext
      rw [htext]
    | double ht _ _ =>
      obtain ⟨i, -, rfl⟩ := mem_openPattern.mp ht
      cases htext
    | other hc _ _ => exact absurd (List.cons.inj htext).1.symm hc
  | double hs hmax _ =>
    cases h' with
    | single t =>
      obtain ⟨i, -, rfl⟩ := mem_openPattern.mp hs
      cases htext
    | double ht hmax' _ =>
      -- each of them is as long as it can be
      exact Nat.le_antisymm (hmax' s hs ⟨r, htext⟩) (hmax t ht ⟨r', htext.symm⟩)
    | other _ hc _ =>
      obtain ⟨i, -, rfl⟩ := mem_openPattern.mp hs
      exact absurd (List.cons.inj htext).1.symm hc
  | other hsingle hdouble =>
    cases h' with
    | single t => exact absurd (List.cons.inj htext).1 hsingle
    | double ht _ _ =>
      obtain ⟨i, -, rfl⟩ := mem_openPattern.mp ht
      exact absurd (List.cons.inj htext).1 hdouble
    | other => rfl

/-- A longest match in front of a text is the token that is cut off there. -/
private theorem eq_of_taken (h : Taken u r) (hcut : Cut v r') (htext : u.text ++ r = v.text ++ r') :
    u = v := by
  have hv := taken_of_cut hcut
  by_cases hu : u.kind = .unknown
  · obtain ⟨hno, haside⟩ := h.unmatched hu
    -- where nothing matches, nothing else is cut off
    have hvu : v.kind = .unknown := by
      by_contra hne
      exact hno v.kind v.text (hcut.mem_pattern hne) ⟨r', htext.symm⟩
    have hlength := haside.length_eq (hcut.setAside hvu) htext
    have htexts := (List.append_inj htext hlength).1
    obtain ⟨ku, tu⟩ := u
    obtain ⟨kv, tv⟩ := v
    cases hu
    cases hvu
    cases htexts
    rfl
  · obtain ⟨hmem, hmax⟩ := h.longest hu
    obtain ⟨hkind, hle⟩ := hcut.kind_eq_of_prefix hmem ⟨r, htext⟩
    have hvu : v.kind ≠ .unknown := by rwa [hkind]
    have hge := hmax v.kind v.text (hcut.mem_pattern hvu) ⟨r', htext.symm⟩
    have htexts := (List.append_inj htext (Nat.le_antisymm hle hge)).1
    obtain ⟨ku, tu⟩ := u
    obtain ⟨kv, tv⟩ := v
    cases hkind
    cases htexts
    rfl

/-- **The longest match is the token that is cut off.** -/
theorem taken_iff_cut (hne : u.text ≠ []) : Taken u r ↔ Cut u r := by
  refine ⟨fun h => ?_, taken_of_cut⟩
  obtain ⟨c, t, htext⟩ := List.exists_cons_of_ne_nil (List.append_ne_nil_of_left_ne_nil hne r)
  have hcut := cut_first c t
  have heq : u.text ++ r = (Token.first c t).1.text ++ (Token.first c t).2 := by
    rw [htext, Token.first_append]
  have hu := eq_of_taken h hcut heq
  rw [← hu] at hcut heq
  rwa [← List.append_cancel_left heq] at hcut

end

/-! ### Tokens of a text -/

/-- **A reading by longest matches**: the tokens, put together, are the text, and each of them is
the longest match in front of those behind it. -/
structure LongestReading (t : Text) (ts : List Token) : Prop where
  nonempty : ∀ u ∈ ts, u.text ≠ []
  lossless : ts.flatMap Token.text = t
  taken : ∀ us u vs, ts = us ++ u :: vs → Taken u (vs.flatMap Token.text)

/-- What stands side by side in a text: words are not divided either, and go on over a `#`. -/
structure Beside (u v : Token) : Prop extends Follows u v where
  word : u.kind = .word → v.kind ≠ .word ∧ v.kind ≠ .comment

section

variable {u v : Token} {r s t : Text} {ts : List Token}

theorem longestReading_nil : LongestReading [] [] where
  nonempty := by nofun
  lossless := rfl
  taken us u vs h := by simp at h

/-- Reading goes on behind a longest match. -/
theorem longestReading_cons : LongestReading t (u :: ts) ↔
    u.text ≠ [] ∧ ∃ r, t = u.text ++ r ∧ Taken u r ∧ LongestReading r ts := by
  constructor
  · intro h
    obtain ⟨hu, hts⟩ := List.forall_mem_cons.mp h.nonempty
    refine ⟨hu, ts.flatMap Token.text, ?_, h.taken [] u ts rfl, hts, rfl, ?_⟩
    · rw [← h.lossless, List.flatMap_cons]
    · rintro us v vs rfl
      exact h.taken (u :: us) v vs rfl
  · rintro ⟨hu, r, rfl, htaken, hts⟩
    refine ⟨List.forall_mem_cons.mpr ⟨hu, hts.nonempty⟩, ?_, ?_⟩
    · rw [List.flatMap_cons, hts.lossless]
    · intro us v vs hsplit
      cases us with
      | nil =>
        cases hsplit
        rwa [hts.lossless]
      | cons w us =>
        obtain ⟨-, hsplit⟩ := List.cons.inj hsplit
        exact hts.taken us v vs hsplit

/-- The tokens of a text are cut off one by one. -/
theorem longestReading_of_ofText (t : Text) : LongestReading t (Token.ofText t) := by
  induction t using Token.ofText.induct with
  | case1 =>
    rw [Token.ofText_nil]
    exact longestReading_nil
  | case2 c t ih =>
    rw [Token.ofText_cons]
    exact longestReading_cons.mpr ⟨Token.first_text_ne_nil c t, _, (Token.first_append c t).symm,
      taken_of_cut (cut_first c t), ih⟩

/-- **Longest matches determine the tokens of a text.** -/
theorem ofText_eq_iff : Token.ofText t = ts ↔ LongestReading t ts := by
  constructor
  · rintro rfl
    exact longestReading_of_ofText t
  · intro h
    induction ts generalizing t with
    | nil => rw [← h.lossless, List.flatMap_nil, Token.ofText_nil]
    | cons u ts ih =>
      obtain ⟨hne, r, rfl, htaken, hts⟩ := longestReading_cons.mp h
      rw [ofText_of_cut ((taken_iff_cut hne).mp htaken), ih hts]

/-- A longest match cannot be prolonged by what stands behind it. -/
theorem Taken.append_notMem (h : Taken u r) (hu : u.kind ≠ .unknown) (hs : s <+: r) (hne : s ≠ [])
    (k : Kind) : u.text ++ s ∉ k.pattern := by
  intro hmem
  have hle := (h.longest hu).2 k _ hmem ((List.prefix_append_right_inj u.text).mpr hs)
  have hpos := List.length_pos_iff.mpr hne
  rw [List.length_append] at hle
  omega

/-- Behind a word stands neither a word nor a comment, which the word would have gone on with. -/
theorem Taken.beside_word (h : Taken u (v.text ++ r)) (hu : u.kind = .word) (hv : Taken v r) :
    v.kind ≠ .word ∧ v.kind ≠ .comment := by
  have hne : u.kind ≠ .unknown := by rw [hu]; nofun
  have hw : isWord u.text = true := mem_word.mp (hu ▸ (h.longest hne).1)
  -- characters of words make the word longer
  have hlonger : ∀ s : Text, s <+: v.text ++ r → s ≠ [] → s.all isWordChar = true → False := by
    intro s hs hsne hall
    refine h.append_notMem hne hs hsne .word (mem_word.mpr ?_)
    cases htext : u.text with
    | nil =>
      rw [htext] at hw
      cases hw
    | cons c w =>
      rw [htext, isWord_cons, Bool.and_eq_true] at hw
      rw [List.cons_append, isWord_cons, List.all_append, hw.1, hw.2, hall]
      rfl
  constructor
  · intro hvk
    have hmem := (hv.longest (by rw [hvk]; nofun)).1
    rw [hvk] at hmem
    have hvw := mem_word.mp hmem
    refine hlonger v.text (List.prefix_append _ _) ?_ ?_
    · intro hnil
      rw [hnil] at hvw
      cases hvw
    · exact List.all_eq_true.mpr fun c => isWordChar_of_mem hvw
  · intro hvk
    have hmem := (hv.longest (by rw [hvk]; nofun)).1
    rw [hvk] at hmem
    obtain ⟨s, -, htext⟩ := mem_comment.mp hmem
    refine hlonger ['#'] ?_ (List.cons_ne_nil _ _) (by decide)
    rw [htext]
    exact ⟨s ++ r, rfl⟩

theorem beside_ofText (t : Text) : (Token.ofText t).IsChain Beside := by
  have hfollows := (lexed_ofText t).chain
  have htaken := (longestReading_of_ofText t).taken
  rw [List.isChain_iff_forall_rel_of_append_cons_cons] at hfollows ⊢
  intro u v us vs hsplit
  refine ⟨hfollows hsplit, fun hu => ?_⟩
  have hv : Taken v (vs.flatMap Token.text) := by
    refine htaken (us ++ [u]) v vs ?_
    rw [hsplit, List.append_assoc]
    rfl
  have h := htaken us u (v :: vs) hsplit
  rw [List.flatMap_cons] at h
  exact h.beside_word hu hv

/-- The span of a token goes from the bytes in front of it to the bytes up to its end. -/
theorem spans_getElem? {n i a b : Nat} (h : (Token.spans n ts)[i]? = some (u, a, b)) :
    a = n + Text.size ((ts.take i).flatMap Token.text) ∧
      b = n + Text.size ((ts.take (i + 1)).flatMap Token.text) := by
  induction ts generalizing n i with
  | nil => simp [Token.spans] at h
  | cons t ts ih =>
    rw [Token.spans] at h
    cases i with
    | zero =>
      cases h
      simp
    | succ i =>
      rw [List.getElem?_cons_succ] at h
      obtain ⟨ha, hb⟩ := ih h
      rw [ha, hb]
      simp [Nat.add_assoc]

theorem map_fst_spans (n : Nat) (ts : List Token) : (Token.spans n ts).map Prod.fst = ts := by
  induction ts generalizing n with
  | nil => rfl
  | cons t ts ih => rw [Token.spans, List.map_cons, ih]

/-- **The tokens of a text are its longest matches**: none is empty, put together they are the
text, each is the longest match in front of what stands behind it or is set aside where no pattern
matches, their spans are consecutive, and what a pattern would have matched together does not
stand side by side. -/
theorem longestReading_ofText (t : Text) :
    LongestReading t (Token.ofText t) ∧
      (Token.spans 0 (Token.ofText t)).map Prod.fst = Token.ofText t ∧
      (∀ i u a b, (Token.spans 0 (Token.ofText t))[i]? = some (u, a, b) →
        a = Text.size (((Token.ofText t).take i).flatMap Token.text) ∧
          b = Text.size (((Token.ofText t).take (i + 1)).flatMap Token.text)) ∧
      (Token.ofText t).IsChain Beside := by
  refine ⟨longestReading_of_ofText t, map_fst_spans 0 _, fun i u a b h => ?_, beside_ofText t⟩
  have hspan := spans_getElem? h
  rwa [Nat.zero_add, Nat.zero_add] at hspan

end

end Syntax
end Uci
