import Uci.Proofs.Document.Directives

/-!
# Where refusals are reported

A text without errors that is no document is refused for one value of one directive, the first one
that is not obeyed.  The position of the error is chosen before it is known which value that is:
where a header has a name it is the name, so that a type which is refused is reported at the name
behind it, and everything else that is refused is reported where it stands.

## Main definitions

* `FirstRefusal` — the directive that a text is refused for, with the value and the cause.
* `ReportedInPlace` — the error of a text stands at the value that is refused.
* `RefusalsReported` — **what is known of the refusal of a text and of its position.**

## Main results

* `FirstRefusal.unique` — a text has one first refusal at most.
* `refusalsReported` — **a refused value is reported where it stands, unless it is the type of a
  header with a name.**
-/

namespace Uci

open Syntax (Value Directive Token Run isWord)

namespace Document

variable {t : Text} {x x' : Directive} {v v' name : Value} {c c' : ParseCause} {p : Progress}
  {e : ParseError}

/-! ### What a directive is refused for -/

namespace Progress

/-- What is refused stands on the line, and so does what is reported for it. -/
theorem Refuses.mem_values (h : p.Refuses x v c) :
    v ∈ x.values ∧ x.reported v ∈ x.values := by
  cases h with
  | @type v name hword => cases name <;> simp [Directive.values, Directive.reported]
  | _ => simp [Directive.values, Directive.reported]

/-- It is reported as what it is, unless it is the type of a header with a name. -/
private theorem Refuses.reported_eq (h : p.Refuses x v c)
    (hx : ∀ name, x ≠ .header v (some name)) : x.reported v = v := by
  cases h with
  | @type v name hword =>
    cases name with
    | none => rfl
    | some n => exact absurd rfl (hx n)
  | _ => rfl

/-- **One value of a directive is refused at most**, and for one cause. -/
theorem Refuses.unique (hp : p.Underway) (h : p.Refuses x v c) (h' : p.Refuses x v' c') :
    v = v' ∧ c = c' := by
  have hc : (⟨c, (x.reported v).offset⟩ : Rejection) = ⟨c', (x.reported v').offset⟩ := by
    have hobey := (obey_eq_error_iff hp (r := ⟨c, _⟩)).mpr ⟨v, h, rfl⟩
    have hobey' := (obey_eq_error_iff hp (r := ⟨c', _⟩)).mpr ⟨v', h', rfl⟩
    exact Except.error.inj (hobey.symm.trans hobey')
  refine ⟨?_, congrArg Rejection.cause hc⟩
  cases h with
  | package _ => cases h'; rfl
  | type hword => cases h' <;> first | rfl | contradiction
  | emptyName hword _ => cases h' <;> first | rfl | contradiction
  | reservedName hword _ _ => cases h' <;> first | rfl | contradiction
  | optionName _ _ => cases h' <;> rfl
  | optionOfList _ _ => cases h' <;> rfl
  | listName _ _ => cases h' <;> rfl
  | listOfOption _ _ => cases h' <;> rfl

end Progress

/-! ### The first refusal -/

/-- **The first refusal** of a text: all directives in front are obeyed, and a value of this one is
refused. -/
def FirstRefusal (t : Text) (x : Directive) (v : Value) (c : ParseCause) : Prop :=
  ∃ front back p, (Syntax.parse t).directives = front ++ x :: back ∧
    front.foldlM Progress.obey .start = .ok p ∧ p.Refuses x v c

/-- **A text without errors fails exactly for its first refusal**, at the value that is reported. -/
private theorem parse_eq_error_iff (herrors : (Syntax.parse t).errors = []) :
    parse t = .error e ↔ ∃ x v, FirstRefusal t x v e.cause ∧
      e.position = .ofOffset t (x.reported v).offset := by
  have hparse : parse t = .error e ↔ ∃ r, replay (Syntax.parse t).items = .error r ∧
      (⟨.ofOffset t r.offset, r.cause⟩ : ParseError) = e := by
    unfold parse
    dsimp only
    rw [herrors]
    cases replay (Syntax.parse t).items <;> simp
  rw [hparse]
  simp only [replay_eq_error_iff]
  constructor
  · rintro ⟨r, ⟨front, x, back, p, v, hsplit, hfront, hrefuses, hoffset⟩, rfl⟩
    exact ⟨x, v, ⟨front, back, p, hsplit, hfront, hrefuses⟩, congrArg (Position.ofOffset t) hoffset⟩
  · rintro ⟨x, v, ⟨front, back, p, hsplit, hfront, hrefuses⟩, hposition⟩
    refine ⟨⟨e.cause, (x.reported v).offset⟩,
      ⟨front, x, back, p, v, hsplit, hfront, hrefuses, rfl⟩, ?_⟩
    rw [← hposition]

/-- **A text has one first refusal at most.** -/
theorem FirstRefusal.unique (h : FirstRefusal t x v c) (h' : FirstRefusal t x' v' c') :
    x = x' ∧ v = v' ∧ c = c' := by
  obtain ⟨front, back, p, hsplit, hfront, hrefuses⟩ := h
  obtain ⟨front', back', p', hsplit', hfront', hrefuses'⟩ := h'
  have hp := Progress.underway_start.foldlM hfront
  have hp' := Progress.underway_start.foldlM hfront'
  obtain ⟨rfl, rfl⟩ := eq_of_foldlM_error (hsplit.symm.trans hsplit') hfront
    ((Progress.obey_eq_error_iff hp (r := ⟨c, _⟩)).mpr ⟨v, hrefuses, rfl⟩) hfront'
    ((Progress.obey_eq_error_iff hp' (r := ⟨c', _⟩)).mpr ⟨v', hrefuses', rfl⟩)
  exact ⟨rfl, hrefuses.unique hp hrefuses'⟩

/-! ### Places -/

/-- **The error of a text stands at the value that is refused**, if there is one. -/
def ReportedInPlace (t : Text) : Prop :=
  ∀ e, parse t = .error e → ∃ x v, FirstRefusal t x v e.cause ∧
    e.position = .ofOffset t v.offset

/-- **What is known of the refusal of a text**, and of its position. -/
structure RefusalsReported (t : Text) : Prop where
  /-- The text fails exactly for its first refusal, with the cause of it and at the value that is
  reported. -/
  fails : ∀ e, parse t = .error e ↔ ∃ x v, FirstRefusal t x v e.cause ∧
    e.position = .ofOffset t (x.reported v).offset
  /-- There is one first refusal at most. -/
  once : ∀ x v c x' v' c', FirstRefusal t x v c → FirstRefusal t x' v' c' →
    x = x' ∧ v = v' ∧ c = c'
  /-- The position of a value on the refused line is that of its first character. -/
  placed : ∀ x v c, FirstRefusal t x v c → ∀ w ∈ x.values,
    ∃ (before : List Token) (run : Run) (behind : List Token),
      Token.ofText t = before ++ (run.tokens ++ behind) ∧
        w.text = run.tokens.flatMap Token.content ∧
        Position.ofOffset t w.offset = .after (before.flatMap Token.text)
  /-- The position is that of the refused value, unless this is the type of a header that has a
  name. -/
  position_eq_iff : ∀ x v c, FirstRefusal t x v c →
    (Position.ofOffset t (x.reported v).offset = .ofOffset t v.offset ↔
      ∀ name, x ≠ .header v (some name))
  /-- So that is how a text can fail at another value than the one that is refused. -/
  inPlace_iff : ReportedInPlace t ↔ ∀ v name c, ¬FirstRefusal t (.header v (some name)) v c

/-- Two values of a directive have two positions. -/
private theorem position_ne (herrors : (Syntax.parse t).errors = [])
    (hx : .header v (some name) ∈ (Syntax.parse t).directives) :
    Position.ofOffset t name.offset ≠ .ofOffset t v.offset := by
  have hstands := Syntax.standsIn_of_mem_directives herrors hx
  have hordered : [v, name].Pairwise (·.offset < ·.offset) := hstands.ordered
  have hlt := List.pairwise_pair.mp hordered
  intro heq
  have hname := (hstands.values name (by simp [Directive.values])).isBoundary
  have hv := (hstands.values v (by simp [Directive.values])).isBoundary
  exact absurd (Position.ofOffset_inj hname hv heq) (Nat.ne_of_gt hlt)

private theorem FirstRefusal.mem_directives (h : FirstRefusal t x v c) :
    x ∈ (Syntax.parse t).directives := by
  obtain ⟨front, back, p, hsplit, -⟩ := h
  rw [hsplit]
  exact List.mem_append_right _ List.mem_cons_self

private theorem FirstRefusal.position_eq_iff (herrors : (Syntax.parse t).errors = [])
    (h : FirstRefusal t x v c) :
    Position.ofOffset t (x.reported v).offset = .ofOffset t v.offset ↔
      ∀ name, x ≠ .header v (some name) := by
  constructor
  · rintro heq name rfl
    exact position_ne herrors h.mem_directives heq
  · intro hx
    obtain ⟨front, back, p, -, -, hrefuses⟩ := h
    rw [hrefuses.reported_eq hx]

/-- **A refused value is reported where it stands**, unless it is the type of a header with a
name; that is reported at the name. -/
theorem refusalsReported (t : Text) (herrors : (Syntax.parse t).errors = []) :
    RefusalsReported t where
  fails e := parse_eq_error_iff herrors
  once x v c x' v' c' := FirstRefusal.unique
  placed x v c h w hw :=
    ((Syntax.standsIn_of_mem_directives herrors h.mem_directives).values w hw).position_eq
  position_eq_iff x v c := FirstRefusal.position_eq_iff herrors
  inPlace_iff := by
    constructor
    · intro hall v name c h
      obtain ⟨x', v', h', hposition⟩ := hall ⟨.ofOffset t name.offset, c⟩
        ((parse_eq_error_iff herrors).mpr ⟨_, v, h, rfl⟩)
      obtain ⟨-, rfl, -⟩ := h.unique h'
      exact position_ne herrors h.mem_directives hposition
    · intro hno e he
      obtain ⟨x, v, h, hposition⟩ := (parse_eq_error_iff herrors).mp he
      refine ⟨x, v, h, hposition.trans ((h.position_eq_iff herrors).mpr ?_)⟩
      rintro name rfl
      exact hno v name _ h

/-- A value over two lines, a section that is opened again, and an option with the name of a list,
where the text is refused. -/
theorem refusalsReported_reopening :
    let t := "config a b\n\tlist x '1\n2'\nconfig a 'b'\n\toption x 2\n".toList
    (Syntax.parse t).errors = [] ∧ parse t = .error ⟨⟨5, 9⟩, .isList ['x']⟩ ∧
      RefusalsReported t := by
  intro t
  have herrors : (Syntax.parse t).errors = [] := by decide +kernel
  exact ⟨herrors, by decide +kernel, refusalsReported t herrors⟩

/-- A type that is no word, in a header with a name: the error stands at the name. -/
theorem not_reportedInPlace_quotedType :
    let t := "config 'a b' c\n".toList
    (Syntax.parse t).errors = [] ∧
      parse t = .error ⟨⟨1, 14⟩, .refused (.misuse (.notAWord .sectionType "a b".toList))⟩ ∧
      ¬ReportedInPlace t := by
  intro t
  have hparse : parse t =
      .error ⟨⟨1, 14⟩, .refused (.misuse (.notAWord .sectionType "a b".toList))⟩ := by
    decide +kernel
  refine ⟨by decide +kernel, hparse, fun hall => ?_⟩
  obtain ⟨x, v, ⟨front, back, p, hsplit, -, hrefuses⟩, hposition⟩ := hall _ hparse
  have hdirectives : (Syntax.parse t).directives =
      [.header ⟨"a b".toList, 7⟩ (some ⟨"c".toList, 13⟩)] := by
    decide +kernel
  have hx : x ∈ (Syntax.parse t).directives := by
    rw [hsplit]
    exact List.mem_append_right _ List.mem_cons_self
  rw [hdirectives, List.mem_singleton] at hx
  subst hx
  -- what is refused is the type
  obtain rfl : v = ⟨"a b".toList, 7⟩ := by
    cases hrefuses
    rfl
  revert hposition
  decide +kernel

end Document
end Uci
