import Uci.Proofs.Syntax.Acceptance
import Uci.Proofs.Syntax.Reporting
import Uci.Proofs.Text.Position

/-!
# Directives

The lines of a source that ask for something, one after the other and not nested, with the places
of their values.  In a source without errors every value stands where its place says: the tokens
that begin there are what it is written as.

## Main definitions

* `Directive`, `Parse.directives` — the lines of a source that ask for something.
* `Value.StandsIn`, `Directive.StandsIn` — values in their places.

## Main results

* `standsIn_of_mem_directives` — **the values of a source without errors stand in their places.**
* `Value.StandsIn.position_eq` — the position of a value is that of its first character.
-/

namespace Uci
namespace Syntax

/-- **Directive**: a line that asks for something, with the values that stand on it. -/
inductive Directive where
  | package (name : Value)
  | header (type : Value) (name : Option Value)
  | option (name value : Value)
  | list (name : Value) (value : Option Value)
  deriving DecidableEq, Repr

/-- The values of a directive. -/
def Directive.values : Directive → List Value
  | package name => [name]
  | header type name => type :: name.toList
  | option name value => [name, value]
  | list name value => name :: value.toList

/-- What an entry asks for.  An entry that lacks a piece asks for nothing. -/
def Entry.directive? : Entry → Option Directive
  | .option (some name) (some value) => some (.option name value)
  | .list (some name) value => some (.list name value)
  | _ => none

/-- What an item asks for, line by line. -/
def Item.directives : Item → List Directive
  | .package name => (name.map .package).toList
  | .section body =>
    match body.type with
    | none => []
    | some type => .header type body.name :: body.entries.filterMap Entry.directive?

/-- **The directives of a source.** -/
def Parse.directives (p : Parse) : List Directive := p.items.flatMap Item.directives

/-! ### Values in their places -/

/-- **A value in its place** among tokens that begin at an offset: tokens that are a run begin
there, and the value is what they stand for. -/
def Value.StandsIn (v : Value) (o : Nat) (ts : List Token) : Prop :=
  ∃ (before : List Token) (run : Run) (behind : List Token),
    ts = before ++ (run.tokens ++ behind) ∧ v = run.value (o + sizeOf before)

/-- **The values of a directive in their places**, one behind the other. -/
structure Directive.StandsIn (x : Directive) (o : Nat) (ts : List Token) : Prop where
  values : ∀ v ∈ x.values, v.StandsIn o ts
  ordered : x.values.Pairwise (·.offset < ·.offset)

variable {v : Value} {x : Directive} {o : Nat} {ts us : List Token} {t : Text}

theorem Value.StandsIn.behind (ts : List Token) (h : v.StandsIn (o + sizeOf ts) us) :
    v.StandsIn o (ts ++ us) := by
  obtain ⟨before, run, behind, rfl, rfl⟩ := h
  refine ⟨ts ++ before, run, behind, (List.append_assoc ..).symm, ?_⟩
  rw [sizeOf_append, Nat.add_assoc]

theorem Value.StandsIn.inFront (h : v.StandsIn o ts) (us : List Token) :
    v.StandsIn o (ts ++ us) := by
  obtain ⟨before, run, behind, rfl, rfl⟩ := h
  exact ⟨before, run, behind ++ us, by simp, rfl⟩

theorem Directive.StandsIn.behind (ts : List Token) (h : x.StandsIn (o + sizeOf ts) us) :
    x.StandsIn o (ts ++ us) :=
  ⟨fun v hv => (h.values v hv).behind ts, h.ordered⟩

theorem Directive.StandsIn.inFront (h : x.StandsIn o ts) (us : List Token) :
    x.StandsIn o (ts ++ us) :=
  ⟨fun v hv => (h.values v hv).inFront us, h.ordered⟩

/-- A value takes room. -/
private theorem sizeOf_run_pos (v : Run) (htext : ∀ u ∈ v.tokens, u.text ≠ []) :
    0 < sizeOf v.tokens := by
  obtain ⟨u, us, hv⟩ := List.exists_cons_of_ne_nil v.ne_nil
  have hu := List.length_pos_iff.mpr (htext u (by rw [hv]; exact List.mem_cons_self))
  have hle := Text.length_le_size u.text
  rw [hv, sizeOf_cons]
  omega

/-- **The values of a command stand in its line.** -/
private theorem standsIn_clause (c : Command) (e : Ending) (o : Nat)
    (htext : ∀ u ∈ (c.clause e).tokens, u.text ≠ [])
    (hx : x.values.Sublist (c.firstValue o :: (c.secondValue o).toList)) :
    x.StandsIn o (c.clause e).tokens := by
  have htokens : (c.clause e).tokens =
      (wordToken c.keyword.text :: (Part.optional c.gap).flatMap Part.tokens) ++
        (c.first.tokens ++ ((furtherParts c.second).flatMap Part.tokens ++
          e.parts.flatMap Part.tokens)) := by
    simp [Command.clause, Clause.tokens, Command.parts, Part.tokens]
  have hfirst : (c.firstValue o).StandsIn o (c.clause e).tokens := by
    refine ⟨_, c.first, _, htokens, ?_⟩
    rw [sizeOf_cons, ← Nat.add_assoc]
    rfl
  have hall : (∀ v ∈ c.firstValue o :: (c.secondValue o).toList,
        v.StandsIn o (c.clause e).tokens) ∧
      (c.firstValue o :: (c.secondValue o).toList).Pairwise (·.offset < ·.offset) := by
    unfold Command.secondValue
    cases hsecond : c.second with
    | none => exact ⟨List.forall_mem_singleton.mpr hfirst, List.pairwise_singleton _ _⟩
    | some w =>
      rw [hsecond] at htokens
      refine ⟨List.forall_mem_cons.mpr ⟨hfirst, List.forall_mem_singleton.mpr ?_⟩,
        List.pairwise_pair.mpr ?_⟩
      · refine ⟨(wordToken c.keyword.text :: (Part.optional c.gap).flatMap Part.tokens) ++
          (c.first.tokens ++ [w.1.1]), w.2, e.parts.flatMap Part.tokens, ?_, ?_⟩
        · rw [htokens]
          simp [furtherParts, Part.tokens]
        · simp [Command.firstOffset, wordToken, Nat.add_assoc]
      · have hpos := sizeOf_run_pos c.first fun u hu => htext u (by
          rw [htokens]
          exact List.mem_append_right _ (List.mem_append_left _ hu))
        show c.firstOffset o < c.firstOffset o + sizeOf c.first.tokens + w.1.1.text.size
        omega
  exact ⟨fun v hv => hall.1 v (hx.subset hv), hall.2.sublist hx⟩

/-- What rows list stands among their tokens. -/
private theorem standsIn_listing (rows : List Row) (o : Nat)
    (htext : ∀ u ∈ rows.flatMap Row.tokens, u.text ≠ []) :
    (∀ x ∈ (listing o rows).1.filterMap Entry.directive?,
        x.StandsIn o (rows.flatMap Row.tokens)) ∧
      ∀ x ∈ (listing o rows).2.flatMap Item.directives,
        x.StandsIn o (rows.flatMap Row.tokens) := by
  induction rows generalizing o with
  | nil => exact ⟨List.forall_mem_nil _, List.forall_mem_nil _⟩
  | cons r rows ih =>
    rw [List.flatMap_cons] at htext ⊢
    obtain ⟨hrow, hrows⟩ := List.forall_mem_append.mp htext
    have hbehind := ih (o + sizeOf r.tokens) hrows
    have hmore : ∀ xs : List Directive,
        (∀ x ∈ xs, x.StandsIn (o + sizeOf r.tokens) (rows.flatMap Row.tokens)) →
        ∀ x ∈ xs, x.StandsIn o (r.tokens ++ rows.flatMap Row.tokens) :=
      fun xs hxs x hx => (hxs x hx).behind r.tokens
    have hentries := hmore _ hbehind.1
    have hitems := hmore _ hbehind.2
    cases r with
    | blank e => exact ⟨hentries, hitems⟩
    | command indent c e =>
      have hsize : o + sizeOf (Row.command indent c e).tokens =
          o + sizeOf ((Part.optional indent).flatMap Part.tokens) +
            sizeOf (c.clause e).tokens := by
        rw [Row.tokens, sizeOf_append, Nat.add_assoc]
      rw [hsize] at hentries hitems
      -- what stands on the line itself
      have hline : ∀ x : Directive, x.values.Sublist
          (c.firstValue (o + sizeOf ((Part.optional indent).flatMap Part.tokens)) ::
            (c.secondValue (o + sizeOf ((Part.optional indent).flatMap Part.tokens))).toList) →
          x.StandsIn o ((Row.command indent c e).tokens ++ rows.flatMap Row.tokens) := by
        intro x hx
        have hclause := standsIn_clause c e _
          (fun u hu => hrow u (List.mem_append_right _ hu)) hx
        exact (hclause.behind _).inFront _
      rw [listing]
      cases hk : c.keyword with
      | package =>
        refine ⟨List.forall_mem_nil _, ?_⟩
        rw [List.flatMap_cons]
        refine List.forall_mem_append.mpr ⟨List.forall_mem_singleton.mpr (hline _ ?_), hitems⟩
        exact List.singleton_sublist.mpr List.mem_cons_self
      | config =>
        refine ⟨List.forall_mem_nil _, ?_⟩
        rw [List.flatMap_cons]
        refine List.forall_mem_append.mpr ⟨List.forall_mem_cons.mpr ⟨hline _ ?_, hentries⟩, hitems⟩
        exact List.Sublist.refl _
      | option =>
        refine ⟨?_, hitems⟩
        cases hsecond : c.secondValue
            (o + sizeOf ((Part.optional indent).flatMap Part.tokens)) with
        | none => exact hentries
        | some v =>
          refine List.forall_mem_cons.mpr ⟨hline _ ?_, hentries⟩
          rw [hsecond]
          exact List.Sublist.refl _
      | list =>
        refine ⟨List.forall_mem_cons.mpr ⟨hline _ ?_, hentries⟩, hitems⟩
        exact List.Sublist.refl _

/-- **The values of a source without errors stand in their places.** -/
theorem standsIn_of_mem_directives (herrors : (parse t).errors = [])
    (hx : x ∈ (parse t).directives) : x.StandsIn 0 (Token.ofText t) := by
  obtain ⟨rows, hrows, htokens⟩ := exists_accepted herrors
  have htext : ∀ u ∈ rows.flatMap Row.tokens, u.text ≠ [] := fun u hu =>
    text_ne_nil_of_mem (htokens ▸ hu)
  rw [Parse.directives, (parse_accepted hrows htokens).2] at hx
  rw [htokens]
  exact (standsIn_listing rows 0 htext).2 x hx

namespace Value.StandsIn

/-- The text in front of a value ends where the value begins. -/
private theorem exists_text (h : v.StandsIn 0 (Token.ofText t)) :
    ∃ (before : List Token) (run : Run) (behind : List Token),
      Token.ofText t = before ++ (run.tokens ++ behind) ∧
        v.text = run.tokens.flatMap Token.content ∧
        v.offset = Text.size (before.flatMap Token.text) ∧
        t = before.flatMap Token.text ++ (run.tokens ++ behind).flatMap Token.text := by
  obtain ⟨before, run, behind, htokens, rfl⟩ := h
  refine ⟨before, run, behind, htokens, rfl, Nat.zero_add _, ?_⟩
  rw [← List.flatMap_append, ← htokens, Token.texts_ofText]

/-- **The position of a value** is that of the first character it is written with. -/
theorem position_eq (h : v.StandsIn 0 (Token.ofText t)) :
    ∃ (before : List Token) (run : Run) (behind : List Token),
      Token.ofText t = before ++ (run.tokens ++ behind) ∧
        v.text = run.tokens.flatMap Token.content ∧
        Position.ofOffset t v.offset = .after (before.flatMap Token.text) := by
  obtain ⟨before, run, behind, htokens, htext, hoffset, ht⟩ := exists_text h
  refine ⟨before, run, behind, htokens, htext, ?_⟩
  rw [hoffset]
  exact (congrArg (Position.ofOffset · _) ht).trans (Position.ofOffset_append _ _)

/-- It begins between two characters. -/
theorem isBoundary (h : v.StandsIn 0 (Token.ofText t)) : t.IsBoundary v.offset := by
  obtain ⟨before, run, behind, -, -, hoffset, ht⟩ := exists_text h
  exact ⟨_, _, ht, hoffset⟩

end Value.StandsIn

end Syntax
end Uci
