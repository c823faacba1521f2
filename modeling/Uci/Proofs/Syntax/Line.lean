import Mathlib.Data.List.TakeWhile
import Uci.Proofs.Syntax.Adjacency
import Uci.Proofs.Syntax.Reading

/-!
# Lines as the grammar reads them

A statement takes a line from its keyword to the line end, whatever stands there.  Behind
the keyword the line falls into parts: tokens that are kept as they are, values, and a
stretch that could not be read.  A line without the last kind of part has one of few shapes,
which are written down here as data that cannot be built in any other shape.

## Main definitions

* `Run` — what a value is written as: words and quoted texts with nothing between them.
* `Part`, `Clause` — a part of a line, and a whole line behind a keyword, right or wrong.
* `Command`, `Ending` — a statement as it ought to be, and what may stand behind it.
* `Keyword.rule` — the rule for the line of a keyword.

## Main results

* `Parser.reads_rule` — **a line that is right is read as it stands.**
* `Parser.spans_rule` — every line of a keyword is read, and without an error only if it is
  right.
-/

namespace Uci
namespace Syntax

/-! ### Parts of a line -/

/-- A token of a given kind. -/
abbrev TokenOf (k : Kind) := { t : Token // t.kind = k }

/-- **Run**: the tokens of a value. -/
structure Run where
  tokens : List Token
  ne_nil : tokens ≠ []
  isValuePart : ∀ t ∈ tokens, t.kind.isValuePart = true

/-- **Part** of a line behind its keyword. -/
inductive Part where
  /-- A token that is kept as it is. -/
  | leaf (t : Token)
  | value (v : Run)
  /-- A stretch that could not be read. -/
  | error (ts : List Token)

namespace Part

def tokens : Part → List Token
  | leaf t => [t]
  | value v => v.tokens
  | error ts => ts

def tree : Part → Tree
  | leaf t => t.leaf
  | value v => .node .value (v.tokens.map Token.leaf)
  | error ts => .node .error (ts.map Token.leaf)

/-- A token that may be left out. -/
def optional {k : Kind} (o : Option (TokenOf k)) : List Part := o.toList.map fun t => .leaf t.1

end Part

/-- The token of a bare word. -/
def wordToken (w : Text) : Token := ⟨.word, w⟩

/-- The node of a statement. -/
def Keyword.node : Keyword → Kind
  | package => .package
  | config => .sectionHeader
  | option => .option
  | list => .list

/-- The piece that a statement lacks if nothing stands behind its keyword. -/
def Keyword.missing : Keyword → Piece
  | package => .packageName
  | config => .sectionType
  | option => .optionName
  | list => .listName

/-- **Clause**: a keyword and the parts of the line behind it. -/
structure Clause where
  keyword : Keyword
  parts : List Part

namespace Clause

def tokens (c : Clause) : List Token :=
  wordToken c.keyword.text :: c.parts.flatMap Part.tokens

/-- The trees below the node of the statement. -/
def trees (c : Clause) : List Tree :=
  .token c.keyword.kind c.keyword.text :: c.parts.map Part.tree

def tree (c : Clause) : Tree := .node c.keyword.node c.trees

end Clause

/-! ### Lines that are right -/

/-- May a statement have a second value, or not have one? -/
def Keyword.fits : Keyword → Bool → Bool
  | package, second => !second
  | option, second => second
  | config, _ | list, _ => true

/-- A further value, with the space it needs before it. -/
def furtherParts (o : Option (TokenOf .whitespace × Run)) : List Part :=
  o.toList.flatMap fun v => [.leaf v.1.1, .value v.2]

theorem furtherParts_none_append (ps : List Part) : furtherParts none ++ ps = ps := rfl

/-- **Command**: a keyword with as many values as it needs. -/
structure Command where
  keyword : Keyword
  gap : Option (TokenOf .whitespace)
  first : Run
  second : Option (TokenOf .whitespace × Run)
  fits : keyword.fits second.isSome = true

/-- The parts behind the keyword of a command. -/
def Command.parts (c : Command) : List Part :=
  Part.optional c.gap ++ .value c.first :: furtherParts c.second

/-- **Ending**: what may stand behind a command, or alone on a line. -/
structure Ending where
  space : Option (TokenOf .whitespace)
  comment : Option (TokenOf .comment)
  /-- The line end, which the last line of a source may lack. -/
  stop : Option (TokenOf .newline)

def Ending.parts (e : Ending) : List Part :=
  Part.optional e.space ++ (Part.optional e.comment ++ Part.optional e.stop)

/-- A line that has no line end is the last one. -/
def Ending.Closes (e : Ending) (rest : List Token) : Prop := e.stop = none → rest = []

/-- The line of a command. -/
def Command.clause (c : Command) (e : Ending) : Clause := ⟨c.keyword, c.parts ++ e.parts⟩

/-! ### What stands at the head of a list of tokens -/

/-- A token of a kind, if there is one. -/
theorem exists_optional (k : Kind) (ts : List Token) :
    ∃ (o : Option (TokenOf k)) (rest : List Token),
      ts = (Part.optional o).flatMap Part.tokens ++ rest ∧ (o = none → Halts (· = k) rest) := by
  cases ts with
  | nil => exact ⟨none, [], rfl, fun _ => nofun⟩
  | cons t ts =>
    by_cases ht : t.kind = k
    · exact ⟨some ⟨t, ht⟩, ts, rfl, fun hnone => absurd hnone (Option.some_ne_none _)⟩
    · refine ⟨none, t :: ts, rfl, ?_⟩
      rintro - u ⟨⟩
      exact decide_eq_false ht

/-- As many tokens as pass a test. -/
theorem exists_front (f : Kind → Bool) (ts : List Token) :
    ∃ front rest : List Token, ts = front ++ rest ∧ (∀ t ∈ front, f t.kind = true) ∧
      Halts f rest := by
  refine ⟨_, _, List.takeWhile_append_dropWhile.symm, fun t ht =>
    List.mem_takeWhile_imp (p := fun t : Token => f t.kind) ht, ?_⟩
  intro t ht
  have hstop := List.head?_dropWhile_not (fun t : Token => f t.kind) ts
  rwa [Option.mem_def.mp ht] at hstop

/-- A value, if there is one. -/
theorem exists_run (ts : List Token) :
    (∃ (v : Run) (rest : List Token), ts = v.tokens ++ rest ∧ Halts Kind.isValuePart rest) ∨
      Halts Kind.isValuePart ts := by
  obtain ⟨front, rest, hts, hfront, hrest⟩ := exists_front Kind.isValuePart ts
  by_cases hnil : front = []
  · rw [hts, hnil]
    exact Or.inr hrest
  · exact Or.inl ⟨⟨front, hnil, hfront⟩, rest, hts, hrest⟩

/-- An ending does not begin with a token that passes a test which none of its parts pass. -/
theorem Ending.halts (e : Ending) {f : Kind → Bool} {rest : List Token} (h : e.Closes rest)
    (hspace : e.space ≠ none → f .whitespace = false)
    (hcomment : e.comment ≠ none → f .comment = false) (hstop : f .newline = false) :
    Halts f (e.parts.flatMap Part.tokens ++ rest) := by
  obtain ⟨space, comment, stop⟩ := e
  cases space with
  | some s =>
    rintro t ⟨⟩
    rw [s.2]
    exact hspace (Option.some_ne_none _)
  | none =>
    cases comment with
    | some c =>
      rintro t ⟨⟩
      rw [c.2]
      exact hcomment (Option.some_ne_none _)
    | none =>
      cases stop with
      | some s =>
        rintro t ⟨⟩
        rw [s.2]
        exact hstop
      | none =>
        rw [h rfl]
        nofun

namespace Parser

/-- **A rule takes parts of a line.** -/
abbrev Takes (p q : Parser) (parts : List Part) (errs : List SyntaxError) : Prop :=
  p.Spans q (parts.flatMap Part.tokens) (parts.map Part.tree) errs

variable {p q q' : Parser} {t : Token} {rest : List Token} {parts parts' : List Part}
  {errs errs' : List SyntaxError} {k : Kind}

theorem Takes.trans (h : p.Takes q parts errs) (h' : q.Takes q' parts' errs') :
    p.Takes q' (parts ++ parts') (errs ++ errs') := by
  have hspans := Spans.trans h h'
  rwa [← List.flatMap_append, ← List.map_append] at hspans

theorem takes_bump (h : p.rest = t :: rest) : p.Takes p.bump [.leaf t] [] ∧ p.bump.rest = rest :=
  Reads.bump h

/-! ### Pieces of a line -/

theorem isAt_of_halts (hk : k ≠ .endOfFile) (h : Halts (· = k) p.rest) : p.isAt k = false := by
  rw [isAt, decide_eq_false_iff_not, current_eq]
  cases hr : p.rest with
  | nil => exact Ne.symm hk
  | cons t ts => simpa using h t (by rw [hr]; rfl)

/-- A token that may be left out. -/
theorem takes_eat {o : Option (TokenOf k)} (hk : k ≠ .endOfFile)
    (h : p.rest = (Part.optional o).flatMap Part.tokens ++ rest)
    (hno : o = none → Halts (· = k) rest) :
    p.Takes (p.eat k).2 (Part.optional o) [] ∧ (p.eat k).2.rest = rest := by
  cases o with
  | none =>
    have hrest : p.rest = rest := h
    have heat : p.eat k = (false, p) := by
      unfold eat
      rw [isAt_of_halts hk (hrest ▸ hno rfl), if_neg (by decide)]
    rw [heat]
    exact ⟨Reads.refl p, hrest⟩
  | some t =>
    have hrest : p.rest = t.1 :: rest := h
    rw [eat_of_eq hrest t.2]
    exact takes_bump hrest

/-- Behind space there is no further space to take. -/
theorem eat_eat (h : Lexed p.rest) :
    ((p.eat .whitespace).2.eat .whitespace).2 = (p.eat .whitespace).2 := by
  obtain ⟨o, rest, hrest, hno⟩ := exists_optional .whitespace p.rest
  obtain ⟨-, hq⟩ := takes_eat (by decide) hrest hno
  have hhalts : Halts (· = .whitespace) rest := by
    cases o with
    | none => exact hno rfl
    | some t =>
      intro u hu
      obtain ⟨ts, rfl⟩ := List.head?_eq_some_iff.mp hu
      have hchain : Lexed (t.1 :: u :: ts) := by
        rw [hrest] at h
        exact h
      exact decide_eq_false (hchain.head.space t.2)
  generalize (p.eat .whitespace).2 = q at hq
  unfold eat
  rw [isAt_of_halts (by decide) (hq ▸ hhalts), if_neg (by decide)]

/-- A value is read, with the space before it. -/
theorem takes_value {gap : Option (TokenOf .whitespace)} {v : Run}
    (h : p.rest = (Part.optional gap).flatMap Part.tokens ++ (v.tokens ++ rest))
    (hrest : Halts Kind.isValuePart rest) :
    p.value.1 = true ∧ p.value.2.rest = rest ∧
      p.Takes p.value.2 (Part.optional gap ++ [.value v]) [] := by
  obtain ⟨t, ts, hv⟩ := List.exists_cons_of_ne_nil v.ne_nil
  have ht : t.kind.isValuePart = true := v.isValuePart t (by rw [hv]; exact List.mem_cons_self)
  -- what a value begins with is no space
  have hno : gap = none → Halts (· = .whitespace) (v.tokens ++ rest) := by
    rintro - u hu
    rw [hv] at hu
    cases hu
    refine decide_eq_false ?_
    intro hkind
    rw [hkind] at ht
    cases ht
  obtain ⟨hgap, hnext⟩ := takes_eat (by decide) h hno
  have hcurrent : (p.eat .whitespace).2.current.isValuePart = true := by
    rw [current_of_rest (by rw [hnext, hv]; rfl), ht]
  have hvalue : p.value =
      (true, ((p.eat .whitespace).2.node .value fun p => p.bumpWhile Kind.isValuePart).2) := by
    unfold value
    simp only [hcurrent, if_true]
  obtain ⟨hrun, hend⟩ := reads_bumpWhile (p := (p.eat .whitespace).2.start.2) hnext
    v.isValuePart hrest
  rw [hvalue]
  refine ⟨rfl, hend, hgap.trans ?_⟩
  have hnode : (p.eat .whitespace).2.Reads
      ((p.eat .whitespace).2.node .value fun p => p.bumpWhile Kind.isValuePart).2 v.tokens
      [.node .value (v.tokens.map Token.leaf)] := hrun.node
  unfold Takes
  rw [List.flatMap_singleton]
  exact hnode

/-- Where no value stands, only space is read. -/
theorem takes_no_value {gap : Option (TokenOf .whitespace)}
    (h : p.rest = (Part.optional gap).flatMap Part.tokens ++ rest)
    (hno : gap = none → Halts (· = .whitespace) rest) (hrest : Halts Kind.isValuePart rest) :
    p.value = (false, (p.eat .whitespace).2) ∧ p.value.2.rest = rest ∧
      p.Takes p.value.2 (Part.optional gap) [] := by
  obtain ⟨hgap, hnext⟩ := takes_eat (by decide) h hno
  have hcurrent : ¬(p.eat .whitespace).2.current.isValuePart = true := by
    rw [current_eq, hnext]
    cases rest with
    | nil => decide
    | cons t ts =>
      have ht : t.kind.isValuePart = false := hrest t rfl
      simp [ht]
  have hvalue : p.value = (false, (p.eat .whitespace).2) := by
    unfold value
    simp only
    rw [if_neg hcurrent]
  rw [hvalue]
  exact ⟨rfl, hnext, hgap⟩

/-- The rest of a line goes into an `error` node. -/
theorem takes_errorLine (p : Parser) : ∃ parts, p.Takes p.errorLine parts [] := by
  obtain ⟨front, back, hp, hfront, hback⟩ := exists_front (fun k => k ≠ .newline) p.rest
  have hrun := (reads_bumpWhile (p := p.start.2) hp hfront hback).1
  have herror : p.Reads (p.node .error fun p => p.bumpWhile fun k => k ≠ .newline).2 front
      [.node .error (front.map Token.leaf)] := hrun.node
  obtain ⟨o, rest, hrest, hno⟩ := exists_optional .newline
    (p.node .error fun p => p.bumpWhile fun k => k ≠ .newline).2.rest
  have hstop := (takes_eat (by decide) hrest hno).1
  have htakes : p.Takes (p.node .error fun p => p.bumpWhile fun k => k ≠ .newline).2
      [.error front] [] := by
    unfold Takes
    rw [List.flatMap_singleton]
    exact herror
  exact ⟨_, htakes.trans hstop⟩

/-! ### Ends of lines -/

/-- The parser behind the space and the comment at the end of a line. -/
def lineEnd (p : Parser) : Parser := ((p.eat .whitespace).2.eat .comment).2

theorem takes_lineEnd {space : Option (TokenOf .whitespace)} {comment : Option (TokenOf .comment)}
    (h : p.rest = (Part.optional space ++ Part.optional comment).flatMap Part.tokens ++ rest)
    (hspace : space = none → comment = none → Halts (· = .whitespace) rest)
    (hcomment : comment = none → Halts (· = .comment) rest) :
    p.Takes p.lineEnd (Part.optional space ++ Part.optional comment) [] ∧
      p.lineEnd.rest = rest := by
  rw [List.flatMap_append, List.append_assoc] at h
  have hno : space = none →
      Halts (· = .whitespace) ((Part.optional comment).flatMap Part.tokens ++ rest) := by
    intro hs
    cases comment with
    | none => exact hspace hs rfl
    | some c =>
      rintro t ⟨⟩
      rw [c.2]
      rfl
  obtain ⟨hfirst, hnext⟩ := takes_eat (by decide) h hno
  obtain ⟨hsecond, hend⟩ := takes_eat (by decide) hnext hcomment
  exact ⟨hfirst.trans hsecond, hend⟩

/-- Space and a comment, if there are any. -/
theorem exists_lineEnd (p : Parser) :
    ∃ (space : Option (TokenOf .whitespace)) (comment : Option (TokenOf .comment)),
      p.Takes p.lineEnd (Part.optional space ++ Part.optional comment) [] := by
  obtain ⟨space, rest, hp, hspace⟩ := exists_optional .whitespace p.rest
  obtain ⟨hfirst, hnext⟩ := takes_eat (by decide) hp hspace
  obtain ⟨comment, rest', hq, hcomment⟩ := exists_optional .comment rest
  exact ⟨space, comment, hfirst.trans (takes_eat (by decide) (hnext.trans hq) hcomment).1⟩

/-- What a rule does where the line has come to its end, or has not. -/
theorem finishLine_eq (p : Parser) (sound : Bool) :
    p.finishLine sound =
      if p.lineEnd.atEnd then p.lineEnd
      else if p.lineEnd.isAt .newline then p.lineEnd.bump
      else if sound then (p.lineEnd.error p.lineEnd.unexpected).errorLine
      else p.lineEnd.errorLine := rfl

theorem finishLine_of_nil (h : p.lineEnd.rest = []) (sound : Bool) :
    p.finishLine sound = p.lineEnd := by
  have hat : p.lineEnd.atEnd = true := List.isEmpty_iff.mpr h
  rw [finishLine_eq, if_pos hat]

theorem finishLine_of_cons (h : p.lineEnd.rest = t :: rest) (sound : Bool) :
    p.finishLine sound =
      if t.kind = .newline then p.lineEnd.bump
      else if sound then (p.lineEnd.error p.lineEnd.unexpected).errorLine
      else p.lineEnd.errorLine := by
  have hat : p.lineEnd.atEnd = false := by
    rw [atEnd, h]
    rfl
  rw [finishLine_eq, hat, if_neg (by decide), isAt, current_of_rest h]
  simp only [decide_eq_true_eq]

/-- Space that was taken before makes no difference to the end of a line. -/
theorem finishLine_eat (h : Lexed p.rest) (sound : Bool) :
    (p.eat .whitespace).2.finishLine sound = p.finishLine sound := by
  have hend : (p.eat .whitespace).2.lineEnd = p.lineEnd := by
    unfold lineEnd
    rw [eat_eat h]
  rw [finishLine_eq, finishLine_eq, hend]

/-- **A line that is complete** ends with its ending. -/
theorem takes_ending {e : Ending} (h : p.rest = e.parts.flatMap Part.tokens ++ rest)
    (hclose : e.Closes rest) :
    p.Takes (p.finishLine true) e.parts [] ∧ (p.finishLine true).rest = rest := by
  obtain ⟨space, comment, stop⟩ := e
  have hshape : p.rest = (Part.optional space ++ Part.optional comment).flatMap Part.tokens ++
      ((Part.optional stop).flatMap Part.tokens ++ rest) := by
    rw [h]
    simp [Ending.parts]
  -- what is left at the line end begins with neither space nor a comment
  have hno : ∀ k, k ≠ .newline →
      Halts (· = k) ((Part.optional stop).flatMap Part.tokens ++ rest) := fun k hk =>
    Ending.halts ⟨none, none, stop⟩ hclose (absurd rfl) (absurd rfl)
      (decide_eq_false (Ne.symm hk))
  obtain ⟨hfront, hnext⟩ := takes_lineEnd hshape (fun _ _ => hno _ (by decide))
    (fun _ => hno _ (by decide))
  have hparts : (⟨space, comment, stop⟩ : Ending).parts =
      Part.optional space ++ Part.optional comment ++ Part.optional stop := by
    simp [Ending.parts]
  rw [hparts]
  cases stop with
  | none =>
    have hrest : rest = [] := hclose rfl
    rw [hrest] at hnext ⊢
    rw [finishLine_of_nil hnext]
    exact ⟨hfront.trans (Reads.refl _), hnext⟩
  | some s =>
    have hstop : p.lineEnd.rest = s.1 :: rest := hnext
    obtain ⟨hbump, hend⟩ := takes_bump hstop
    rw [finishLine_of_cons hstop, if_pos s.2]
    exact ⟨hfront.trans hbump, hend⟩

/-- Reporting reads nothing. -/
theorem takes_error (p : Parser) (fault : Fault) :
    ∃ err, p.Takes (p.error fault) [] [err] := ⟨_, Spans.error p fault⟩

/-- Every line is read to its end.  Where that was to be a sound one and nothing is found wrong,
it is an ending. -/
theorem takes_finishLine (p : Parser) (sound : Bool) :
    ∃ parts errs, p.Takes (p.finishLine sound) parts errs ∧
      (sound = true → errs = [] →
        ∃ e : Ending, parts = e.parts ∧ e.Closes (p.finishLine sound).rest) := by
  obtain ⟨space, comment, hfront⟩ := exists_lineEnd p
  cases hrest : p.lineEnd.rest with
  | nil =>
    rw [finishLine_of_nil hrest]
    refine ⟨_, _, hfront, fun _ _ => ⟨⟨space, comment, none⟩, ?_, fun _ => hrest⟩⟩
    simp [Ending.parts, Part.optional]
  | cons t rest =>
    rw [finishLine_of_cons hrest]
    by_cases ht : t.kind = .newline
    · rw [if_pos ht]
      refine ⟨_, _, hfront.trans (takes_bump hrest).1, fun _ _ =>
        ⟨⟨space, comment, some ⟨t, ht⟩⟩, ?_, fun hnone => absurd hnone (Option.some_ne_none _)⟩⟩
      simp [Ending.parts, Part.optional]
    · rw [if_neg ht]
      cases sound with
      | true =>
        -- what stands there is reported
        obtain ⟨err, herr⟩ := takes_error p.lineEnd p.lineEnd.unexpected
        obtain ⟨parts, hline⟩ := takes_errorLine (p.lineEnd.error p.lineEnd.unexpected)
        refine ⟨_, _, (hfront.trans herr).trans hline, fun _ hnil => ?_⟩
        cases hnil
      | false =>
        obtain ⟨parts, hline⟩ := takes_errorLine p.lineEnd
        exact ⟨_, _, hfront.trans hline, nofun⟩

/-- A statement that lacks a piece is reported. -/
theorem takes_finishWithout (p : Parser) (piece : Piece) :
    ∃ parts errs, p.Takes (p.finishWithout piece) parts errs ∧ errs ≠ [] := by
  obtain ⟨err, herr⟩ := takes_error p (.missing piece)
  obtain ⟨parts, errs, hline, -⟩ := takes_finishLine (p.error (.missing piece)) false
  exact ⟨_, _, herr.trans hline, List.cons_ne_nil _ _⟩

/-! ### The rule for a line -/

/-- The rule for what stands behind the first value of a statement. -/
def further (k : Keyword) (p : Parser) : Parser :=
  match k with
  | .package => p.finishLine true
  | .config | .list => p.value.2.finishLine true
  | .option => if p.value.1 then p.value.2.finishLine true else p.value.2.finishWithout .optionValue

/-- The rule for the line of a keyword, below the node of the statement. -/
def lineRule (k : Keyword) (p : Parser) : Parser :=
  if (p.bumpAs k.kind).value.1 then further k (p.bumpAs k.kind).value.2
  else (p.bumpAs k.kind).value.2.finishWithout k.missing

theorem package_eq (p : Parser) : p.package = (p.node .package (lineRule .package)).2 := by
  unfold package
  congr 2
  funext p
  unfold lineRule
  split
  · next h => simp only [Keyword.kind, h, if_true, further]
  · next h => simp only [Keyword.kind, h, Keyword.missing, Bool.false_eq_true, if_false]

theorem sectionHeader_eq (p : Parser) :
    p.sectionHeader = p.node .sectionHeader (lineRule .config) := by
  unfold sectionHeader
  congr 1
  funext p
  unfold lineRule
  split
  · next h => simp only [Keyword.kind, h, if_true, further]
  · next h => simp only [Keyword.kind, h, Keyword.missing, Bool.false_eq_true, if_false]

theorem option_eq (p : Parser) : p.option = (p.node .option (lineRule .option)).2 := by
  unfold option
  congr 2
  funext p
  unfold lineRule
  split
  · next h =>
    simp only [Keyword.kind, h, if_true, further]
    split
    · next h' => simp only [h', if_true]
    · next h' => simp only [h', Bool.false_eq_true, if_false]
  · next h => simp only [Keyword.kind, h, Keyword.missing, Bool.false_eq_true, if_false]

theorem list_eq (p : Parser) : p.list = (p.node .list (lineRule .list)).2 := by
  unfold list
  congr 2
  funext p
  unfold lineRule
  split
  · next h => simp only [Keyword.kind, h, if_true, further]
  · next h => simp only [Keyword.kind, h, Keyword.missing, Bool.false_eq_true, if_false]

/-- A further value, if one is written, and the ending. -/
theorem takes_furtherParts {second : Option (TokenOf .whitespace × Run)} {e : Ending}
    (h : p.rest = (furtherParts second ++ e.parts).flatMap Part.tokens ++ rest)
    (hclose : e.Closes rest) :
    p.value.1 = second.isSome ∧ (p.value.2.finishLine true).rest = rest ∧
      p.Takes (p.value.2.finishLine true) (furtherParts second ++ e.parts) [] := by
  cases second with
  | some v =>
    have hshape : p.rest = (Part.optional (some v.1)).flatMap Part.tokens ++
        (v.2.tokens ++ (e.parts.flatMap Part.tokens ++ rest)) := by
      rw [h]
      simp [furtherParts, Part.optional, Part.tokens]
    obtain ⟨hvalue, hnext, htakes⟩ := takes_value hshape
      (e.halts hclose (fun _ => rfl) (fun _ => rfl) rfl)
    obtain ⟨hline, hend⟩ := takes_ending hnext hclose
    exact ⟨hvalue, hend, htakes.trans hline⟩
  | none =>
    -- the rule for the value takes the space of the ending already
    obtain ⟨space, comment, stop⟩ := e
    have hparts : furtherParts none ++ (⟨space, comment, stop⟩ : Ending).parts =
        Part.optional space ++ (⟨none, comment, stop⟩ : Ending).parts := rfl
    rw [hparts] at h ⊢
    rw [List.flatMap_append, List.append_assoc] at h
    have hclose' : (⟨none, comment, stop⟩ : Ending).Closes rest := hclose
    obtain ⟨hvalue, hnext, htakes⟩ := takes_no_value h
      (fun _ => Ending.halts _ hclose' (absurd rfl) (fun _ => rfl) rfl)
      (Ending.halts _ hclose' (absurd rfl) (fun _ => rfl) rfl)
    obtain ⟨hline, hend⟩ := takes_ending hnext hclose'
    exact ⟨congrArg Prod.fst hvalue, hend, htakes.trans hline⟩

/-- What stands behind the first value of a command. -/
theorem takes_further {k : Keyword} {second : Option (TokenOf .whitespace × Run)} {e : Ending}
    (hfits : k.fits second.isSome = true)
    (h : p.rest = (furtherParts second ++ e.parts).flatMap Part.tokens ++ rest)
    (hclose : e.Closes rest) :
    p.Takes (further k p) (furtherParts second ++ e.parts) [] ∧ (further k p).rest = rest := by
  obtain ⟨hvalue, hend, htakes⟩ := takes_furtherParts h hclose
  cases k with
  | package =>
    cases second with
    | none =>
      rw [furtherParts_none_append] at h ⊢
      exact takes_ending h hclose
    | some v => cases hfits
  | config | list =>
    simp only [further]
    exact ⟨htakes, hend⟩
  | option =>
    have hsome : p.value.1 = true := hvalue.trans hfits
    simp only [further, hsome, if_true]
    exact ⟨htakes, hend⟩

/-- What stands behind a first value begins with no part of one. -/
private theorem halts_furtherParts {second : Option (TokenOf .whitespace × Run)} {e : Ending}
    (hclose : e.Closes rest) :
    Halts Kind.isValuePart ((furtherParts second ++ e.parts).flatMap Part.tokens ++ rest) := by
  cases second with
  | none =>
    rw [furtherParts_none_append]
    exact e.halts hclose (fun _ => rfl) (fun _ => rfl) rfl
  | some v =>
    rintro t ⟨⟩
    rw [v.1.2]
    rfl

/-- **A line that is right is read as it stands.** -/
theorem reads_lineRule {c : Command} {e : Ending} (h : p.rest = (c.clause e).tokens ++ rest)
    (hclose : e.Closes rest) :
    p.Reads (lineRule c.keyword p) (c.clause e).tokens (c.clause e).trees ∧
      (lineRule c.keyword p).rest = rest := by
  have hparts : (c.clause e).parts =
      Part.optional c.gap ++ [.value c.first] ++ (furtherParts c.second ++ e.parts) := by
    simp [Command.clause, Command.parts]
  obtain ⟨hkeyword, hnext⟩ := Reads.bumpAs h c.keyword.kind
  have hshape : (p.bumpAs c.keyword.kind).rest = (Part.optional c.gap).flatMap Part.tokens ++
      (c.first.tokens ++ ((furtherParts c.second ++ e.parts).flatMap Part.tokens ++ rest)) := by
    rw [hnext, hparts, List.flatMap_append, List.flatMap_append, List.flatMap_singleton]
    simp [Part.tokens]
  obtain ⟨hvalue, hq, hfirst⟩ := takes_value hshape (halts_furtherParts hclose)
  obtain ⟨hmore, hend⟩ := takes_further c.fits hq hclose
  unfold lineRule
  rw [hvalue, if_pos rfl]
  refine ⟨?_, hend⟩
  have hall := hfirst.trans hmore
  rw [← hparts] at hall
  exact hkeyword.trans hall

/-! ### Lines that may be wrong -/

/-- A value is read if one comes next, and what was read is known either way. -/
private theorem exists_value (p : Parser) :
    (∃ (gap : Option (TokenOf .whitespace)) (v : Run), p.value.1 = true ∧
        p.Takes p.value.2 (Part.optional gap ++ [.value v]) [] ∧
        Halts Kind.isValuePart p.value.2.rest ∧
        (gap = none → ¬Halts Kind.isValuePart p.rest)) ∨
      p.value = (false, (p.eat .whitespace).2) ∧ ∃ parts, p.Takes p.value.2 parts [] := by
  obtain ⟨gap, back, hback, hno⟩ := exists_optional .whitespace p.rest
  rcases exists_run back with ⟨v, rest, rfl, hrest⟩ | hhalts
  · obtain ⟨hvalue, hnext, htakes⟩ := takes_value hback hrest
    refine Or.inl ⟨gap, v, hvalue, htakes, by rwa [hnext], ?_⟩
    rintro rfl hp
    obtain ⟨t, ts, hv⟩ := List.exists_cons_of_ne_nil v.ne_nil
    have ht := v.isValuePart t (by rw [hv]; exact List.mem_cons_self)
    rw [hp t (by rw [hback, hv]; rfl)] at ht
    cases ht
  · obtain ⟨hvalue, -, htakes⟩ := takes_no_value hback hno hhalts
    exact Or.inr ⟨hvalue, _, htakes⟩

/-- Behind a value there is a further one, behind space, or the end of the line. -/
private theorem exists_furtherParts (hl : Lexed p.rest) (hp : Halts Kind.isValuePart p.rest) :
    ∃ second : Option (TokenOf .whitespace × Run), p.value.1 = second.isSome ∧
      ∃ parts errs, p.Takes (p.value.2.finishLine true) (furtherParts second ++ parts) errs ∧
        (errs = [] → ∃ e : Ending, parts = e.parts ∧
          e.Closes (p.value.2.finishLine true).rest) := by
  rcases exists_value p with ⟨gap, v, hvalue, htakes, -, hgap⟩ | ⟨hvalue, -⟩
  · obtain ⟨parts, errs, hline, hending⟩ := takes_finishLine p.value.2 true
    cases gap with
    | none => exact absurd hp (hgap rfl)
    | some s => exact ⟨some (s, v), hvalue, parts, errs, htakes.trans hline, hending rfl⟩
  · obtain ⟨parts, errs, hline, hending⟩ := takes_finishLine p true
    rw [hvalue, finishLine_eat hl]
    refine ⟨none, rfl, parts, errs, ?_, hending rfl⟩
    rwa [furtherParts_none_append]

/-- What stands behind a first value is read, and without an error only if it is as it ought
to be. -/
private theorem exists_further (k : Keyword) (hl : Lexed p.rest)
    (hp : Halts Kind.isValuePart p.rest) :
    ∃ parts errs, p.Takes (further k p) parts errs ∧ (errs = [] →
      ∃ (second : Option (TokenOf .whitespace × Run)) (e : Ending), k.fits second.isSome = true ∧
        parts = furtherParts second ++ e.parts ∧ e.Closes (further k p).rest) := by
  obtain ⟨second, hvalue, parts, errs, htakes, hending⟩ := exists_furtherParts hl hp
  cases k with
  | package =>
    obtain ⟨parts, errs, hline, hending⟩ := takes_finishLine p true
    simp only [further]
    refine ⟨parts, errs, hline, fun hnil => ?_⟩
    obtain ⟨e, he, hclose⟩ := hending rfl hnil
    exact ⟨none, e, rfl, he.trans (furtherParts_none_append _).symm, hclose⟩
  | config | list =>
    simp only [further]
    refine ⟨_, errs, htakes, fun hnil => ?_⟩
    obtain ⟨e, rfl, hclose⟩ := hending hnil
    exact ⟨second, e, rfl, rfl, hclose⟩
  | option =>
    simp only [further]
    cases hsome : p.value.1 with
    | true =>
      simp only [if_true]
      refine ⟨_, errs, htakes, fun hnil => ?_⟩
      obtain ⟨e, rfl, hclose⟩ := hending hnil
      exact ⟨second, e, hvalue.symm.trans hsome, rfl, hclose⟩
    | false =>
      rcases exists_value p with ⟨_, _, htrue, -⟩ | ⟨-, front, hfront⟩
      · rw [hsome] at htrue
        cases htrue
      · obtain ⟨parts, errs, hline, herrs⟩ := takes_finishWithout p.value.2 .optionValue
        simp only [Bool.false_eq_true, if_false]
        exact ⟨_, _, hfront.trans hline, fun hnil => absurd hnil herrs⟩

/-- **Every line of a keyword is read**, and without an error only if it is right. -/
theorem spans_lineRule {k : Keyword} (hl : Lexed p.rest)
    (h : p.rest = wordToken k.text :: rest) :
    ∃ parts errs, p.Spans (lineRule k p) (⟨k, parts⟩ : Clause).tokens (⟨k, parts⟩ : Clause).trees
        errs ∧
      (errs = [] → ∃ (c : Command) (e : Ending), c.clause e = ⟨k, parts⟩ ∧
        e.Closes (lineRule k p).rest) := by
  obtain ⟨hkeyword, -⟩ := Reads.bumpAs h k.kind
  unfold lineRule
  generalize p.bumpAs k.kind = q at hkeyword ⊢
  rcases exists_value q with ⟨gap, v, hvalue, htakes, hhalts, -⟩ | ⟨hvalue, front, hfront⟩
  · have hfirst := hkeyword.trans htakes
    have hlexed : Lexed q.value.2.rest := by
      rw [hfirst.rest] at hl
      exact hl.of_append
    obtain ⟨parts, errs, hmore, hend⟩ := exists_further k hlexed hhalts
    rw [hvalue, if_pos rfl]
    refine ⟨_, errs, Spans.trans hkeyword (htakes.trans hmore), fun hnil => ?_⟩
    obtain ⟨second, e, hfits, rfl, hclose⟩ := hend hnil
    refine ⟨⟨k, gap, v, second, hfits⟩, e, ?_, hclose⟩
    simp [Command.clause, Command.parts]
  · obtain ⟨parts, errs, hline, herrs⟩ := takes_finishWithout q.value.2 k.missing
    rw [hvalue] at hfront hline ⊢
    exact ⟨_, errs, Spans.trans hkeyword (hfront.trans hline), fun hnil => absurd hnil herrs⟩

end Parser
end Syntax
end Uci
