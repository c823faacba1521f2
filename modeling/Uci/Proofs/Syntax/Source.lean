import Uci.Proofs.Syntax.Line

/-!
# Sources as the grammar reads them

Whatever a source is made of, the grammar takes it apart into strips: single tokens of space,
comments and line ends, and the lines of statements.  A section takes all strips below its
header up to the next line that does not belong to it.  Where no error is found every line is
right, and nothing was passed over.

## Main definitions

* `Strip` — a token of trivia, or the line of a statement.
* `Outer` — what stands right below the root of a tree.
* `Sound` — strips of which every line is right.

## Main results

* `Parser.spans_entries`, `Parser.spans_items` — **every source is read to its end**, as
  strips, and without an error only if it is sound.
-/

namespace Uci
namespace Syntax

/-- Does the line of a statement belong to the section above it? -/
def Keyword.isEntry : Keyword → Bool
  | package | config => false
  | option | list => true

/-- **Strip** of a source. -/
inductive Strip where
  | trivia (t : Token) (h : t.kind.isTrivia = true)
  | clause (c : Clause)

namespace Strip

def tokens : Strip → List Token
  | trivia t _ => [t]
  | clause c => c.tokens

def tree : Strip → Tree
  | trivia t _ => t.leaf
  | clause c => c.tree

/-- May the strip stand below the header of a section? -/
def isEntry : Strip → Bool
  | trivia _ _ => true
  | clause c => c.keyword.isEntry

end Strip

/-- **What stands right below the root.** -/
inductive Outer where
  | trivia (t : Token) (h : t.kind.isTrivia = true)
  | package (parts : List Part)
  | section (header : List Part) (body : List Strip) (h : ∀ s ∈ body, s.isEntry = true)
  /-- A line that no rule is for. -/
  | skipped (parts : List Part)

namespace Outer

def tokens : Outer → List Token
  | trivia t _ => [t]
  | package parts => (⟨.package, parts⟩ : Clause).tokens
  | «section» header body _ => (⟨.config, header⟩ : Clause).tokens ++ body.flatMap Strip.tokens
  | skipped parts => parts.flatMap Part.tokens

def trees : Outer → List Tree
  | trivia t _ => [t.leaf]
  | package parts => [(⟨.package, parts⟩ : Clause).tree]
  | «section» header body _ =>
    [.node .section ((⟨.config, header⟩ : Clause).tree :: body.map Strip.tree)]
  | skipped parts => parts.map Part.tree

/-- The strips in the order of the source. -/
def strips : Outer → List Strip
  | trivia t h => [.trivia t h]
  | package parts => [.clause ⟨.package, parts⟩]
  | «section» header body _ => .clause ⟨.config, header⟩ :: body
  | skipped _ => []

end Outer

/-- **Strips of which every line is right**, with `rest` behind them: only the last line may
lack a line end. -/
def Sound : List Strip → List Token → Prop
  | [], _ => True
  | .trivia _ _ :: ss, rest => Sound ss rest
  | .clause c :: ss, rest =>
    (∃ (d : Command) (e : Ending), d.clause e = c ∧
      e.Closes (ss.flatMap Strip.tokens ++ rest)) ∧ Sound ss rest

theorem sound_append {ss ss' : List Strip} {rest : List Token} :
    Sound (ss ++ ss') rest ↔ Sound ss (ss'.flatMap Strip.tokens ++ rest) ∧ Sound ss' rest := by
  induction ss with
  | nil => simp [Sound]
  | cons s ss ih =>
    cases s with
    | trivia t ht => exact ih
    | clause c =>
      rw [List.cons_append, Sound, Sound, ih, List.flatMap_append, List.append_assoc, and_assoc]

theorem sound_cons {s : Strip} {ss : List Strip} {rest : List Token} :
    Sound (s :: ss) rest ↔ Sound [s] (ss.flatMap Strip.tokens ++ rest) ∧ Sound ss rest := by
  rw [← List.singleton_append, sound_append]

/-- Tokens of trivia are strips. -/
theorem exists_trivia {ts : List Token} (h : ∀ t ∈ ts, t.kind.isTrivia = true) :
    ∃ ss : List Strip, ss.flatMap Strip.tokens = ts ∧ ss.map Strip.tree = ts.map Token.leaf ∧
      (∀ s ∈ ss, s.isEntry = true) ∧ ∀ rest, Sound ss rest := by
  induction ts with
  | nil => exact ⟨[], rfl, rfl, nofun, fun _ => trivial⟩
  | cons t ts ih =>
    obtain ⟨ht, hts⟩ := List.forall_mem_cons.mp h
    obtain ⟨ss, htokens, htrees, hentry, hsound⟩ := ih hts
    refine ⟨.trivia t ht :: ss, ?_, ?_, List.forall_mem_cons.mpr ⟨rfl, hentry⟩, hsound⟩
    · rw [List.flatMap_cons, htokens]
      rfl
    · rw [List.map_cons, htrees]
      rfl

/-- Keywords are told apart by how they are written. -/
theorem Keyword.eq_of_text {k k' : Keyword} (h : k.text = k'.text) : k = k' := by
  revert h
  cases k <;> cases k' <;> decide

namespace Parser

variable {p q : Parser} {t : Token} {k : Keyword} {rest : List Token} {errs : List SyntaxError}

/-! ### The line of a statement -/

/-- A keyword that comes next. -/
theorem rest_of_isAtKeyword (h : p.isAtKeyword k = true) :
    ∃ rest, p.rest = wordToken k.text :: rest := by
  obtain ⟨t, rest, hr⟩ := List.exists_cons_of_ne_nil (rest_ne_nil h)
  simp only [isAtKeyword, isAtWord, Bool.and_eq_true, isAt_iff, decide_eq_true_eq] at h
  have hkind : t.kind = .word := (current_of_rest hr).symm.trans h.1
  have htext : t.text = k.text := by
    rw [← h.2, currentText, hr]
    rfl
  have ht : t = wordToken k.text := by rw [wordToken, ← hkind, ← htext]
  exact ⟨rest, ht ▸ hr⟩

/-- A keyword is at hand if it comes next, and no other one is. -/
theorem isAtKeyword_of_rest (h : p.rest = wordToken k.text :: rest) (k' : Keyword) :
    p.isAtKeyword k' = decide (k = k') := by
  have htext : p.currentText = k.text := currentText_of_rest h
  unfold isAtKeyword isAtWord isAt
  rw [current_of_rest h, htext]
  cases k <;> cases k' <;> decide

/-- The line of a statement is a strip, and a sound one if no error is found. -/
theorem spans_clause (hl : Lexed p.rest) (h : p.isAtKeyword k = true) :
    ∃ parts errs, p.start.2.Spans (lineRule k p.start.2) (⟨k, parts⟩ : Clause).tokens
        (⟨k, parts⟩ : Clause).trees errs ∧
      (errs = [] → Sound [.clause ⟨k, parts⟩] (lineRule k p.start.2).rest) := by
  obtain ⟨rest, hrest⟩ := rest_of_isAtKeyword h
  obtain ⟨parts, errs, hspans, hsound⟩ := spans_lineRule (p := p.start.2) hl hrest
  refine ⟨parts, errs, hspans, fun hnil => ?_⟩
  obtain ⟨c, e, hc, hclose⟩ := hsound hnil
  exact ⟨⟨c, e, hc, hclose⟩, trivial⟩

/-! ### The lines of a section -/

/-- **A rule takes strips**: in front of what is left, and sound ones if it finds no error. -/
def Strips (p q : Parser) (ss : List Strip) (errs : List SyntaxError) : Prop :=
  p.Spans q (ss.flatMap Strip.tokens) (ss.map Strip.tree) errs ∧ (errs = [] → Sound ss q.rest)

theorem Strips.trans {ss ss' : List Strip} {q' : Parser} {errs' : List SyntaxError}
    (h : p.Strips q ss errs) (h' : q.Strips q' ss' errs') :
    p.Strips q' (ss ++ ss') (errs ++ errs') := by
  have hspans := Spans.trans h.1 h'.1
  rw [← List.flatMap_append, ← List.map_append] at hspans
  refine ⟨hspans, fun hnil => ?_⟩
  obtain ⟨hfirst, hsecond⟩ := List.append_eq_nil_iff.mp hnil
  have hsound := h.2 hfirst
  rw [h'.1.rest] at hsound
  exact sound_append.mpr ⟨hsound, h'.2 hsecond⟩

theorem Strips.lexed {ss : List Strip} (h : p.Strips q ss errs) (hl : Lexed p.rest) :
    Lexed q.rest := by
  rw [h.1.rest] at hl
  exact hl.of_append

/-- Trivia is taken token by token. -/
theorem strips_skipTrivia (p : Parser) :
    ∃ ss, (∀ s ∈ ss, s.isEntry = true) ∧ p.Strips p.skipTrivia ss [] := by
  obtain ⟨front, rest, hp, hfront, hrest⟩ := exists_front Kind.isTrivia p.rest
  obtain ⟨hreads, -⟩ := reads_bumpWhile hp hfront hrest
  obtain ⟨ss, htokens, htrees, hentry, hsound⟩ := exists_trivia hfront
  rw [← htrees, ← htokens] at hreads
  exact ⟨ss, hentry, hreads, fun _ => hsound _⟩

/-- The line of a statement, as the node that it is. -/
theorem strips_clause (hl : Lexed p.rest) (h : p.isAtKeyword k = true) :
    ∃ parts errs, p.Strips (p.node k.node (lineRule k)).2 [.clause ⟨k, parts⟩] errs := by
  obtain ⟨parts, errs, hspans, hsound⟩ := spans_clause hl h
  have hnode := hspans.node (k := k.node)
  refine ⟨parts, errs, ?_, hsound⟩
  rw [List.flatMap_singleton]
  exact hnode

/-- One line of a section, with the trivia before it. -/
private theorem strips_entry (hl : Lexed p.rest) (hk : k.isEntry = true)
    (h : p.skipTrivia.isAtKeyword k = true) :
    ∃ ss errs, (∀ s ∈ ss, s.isEntry = true) ∧
      p.Strips (p.skipTrivia.node k.node (lineRule k)).2 ss errs := by
  obtain ⟨trivia, hentry, hskip⟩ := strips_skipTrivia p
  obtain ⟨parts, errs, hclause⟩ := strips_clause (hskip.lexed hl) h
  refine ⟨_, _, ?_, hskip.trans hclause⟩
  intro s hs
  rcases List.mem_append.mp hs with hs | hs
  · exact hentry s hs
  · rw [List.mem_singleton.mp hs]
    exact hk

/-- **The strips of a section**, whatever they are. -/
theorem spans_entries (hl : Lexed p.rest) :
    ∃ ss errs, (∀ s ∈ ss, s.isEntry = true) ∧ p.Strips p.entries ss errs := by
  -- both kinds of lines are taken alike
  have hline : ∀ {k : Keyword} {p : Parser}, k.isEntry = true → Lexed p.rest →
      p.skipTrivia.isAtKeyword k = true →
      (Lexed (p.skipTrivia.node k.node (lineRule k)).2.rest →
        ∃ ss errs, (∀ s ∈ ss, s.isEntry = true) ∧
          (p.skipTrivia.node k.node (lineRule k)).2.Strips
            (p.skipTrivia.node k.node (lineRule k)).2.entries ss errs) →
      ∃ ss errs, (∀ s ∈ ss, s.isEntry = true) ∧
        p.Strips (p.skipTrivia.node k.node (lineRule k)).2.entries ss errs := by
    intro k p hk hl h ih
    obtain ⟨ss, errs, hentry, hfirst⟩ := strips_entry hl hk h
    obtain ⟨ss', errs', hentry', hmore⟩ := ih (hfirst.lexed hl)
    exact ⟨_, _, fun s hs => (List.mem_append.mp hs).elim (hentry s) (hentry' s),
      hfirst.trans hmore⟩
  induction p using entries.induct with
  | case1 p ho hlt ih =>
    rw [entries_of_option ho, option_eq]
    rw [option_eq] at ih
    exact hline rfl hl ho ih
  | case2 p ho hlist hlt ih =>
    rw [entries_of_list ho hlist, list_eq]
    rw [list_eq] at ih
    exact hline rfl hl hlist ih
  | case3 p ho hlist =>
    rw [entries_of_other ho hlist]
    obtain ⟨ss, hentry, hskip⟩ := strips_skipTrivia p
    exact ⟨ss, [], hentry, hskip⟩

/-! ### Whole sources -/

/-- **A rule takes what stands below the root**: up to the end if `p` is in front of it, and
sound strips if it finds no error. -/
def Outers (p q : Parser) (os : List Outer) (errs : List SyntaxError) : Prop :=
  p.Spans q (os.flatMap Outer.tokens) (os.flatMap Outer.trees) errs ∧ (errs = [] →
    (os.flatMap Outer.strips).flatMap Strip.tokens = os.flatMap Outer.tokens ∧
      Sound (os.flatMap Outer.strips) q.rest)

theorem Outers.trans {os os' : List Outer} {q' : Parser} {errs' : List SyntaxError}
    (h : p.Outers q os errs) (h' : q.Outers q' os' errs') :
    p.Outers q' (os ++ os') (errs ++ errs') := by
  have hspans := Spans.trans h.1 h'.1
  rw [← List.flatMap_append, ← List.flatMap_append] at hspans
  refine ⟨hspans, fun hnil => ?_⟩
  obtain ⟨hfirst, hsecond⟩ := List.append_eq_nil_iff.mp hnil
  obtain ⟨htokens, hsound⟩ := h.2 hfirst
  obtain ⟨htokens', hsound'⟩ := h'.2 hsecond
  rw [h'.1.rest, ← htokens'] at hsound
  refine ⟨?_, ?_⟩
  · rw [List.flatMap_append, List.flatMap_append, htokens, htokens', List.flatMap_append]
  · rw [List.flatMap_append]
    exact sound_append.mpr ⟨hsound, hsound'⟩

/-- A section. -/
theorem outers_section (hl : Lexed p.rest) (h : p.isAtKeyword .config = true) :
    ∃ o errs, p.Outers p.section [o] errs := by
  obtain ⟨header, errs, hheader, hsound⟩ := spans_clause hl h
  have hrest := rest_behindNode p .sectionHeader (lineRule .config)
  have hlexed : Lexed (p.behindNode .sectionHeader (lineRule .config)).rest := by
    rw [hrest]
    rw [show p.rest = _ from hheader.rest] at hl
    exact hl.of_append
  obtain ⟨body, errs', hentry, hbody⟩ := spans_entries hlexed
  have hspans : p.Spans
      (Parser.nodeAround (p.node .sectionHeader (lineRule .config)) .section entries) _ _ _ :=
    Spans.nodeAround hheader hbody.1
  have hsection : p.section =
      Parser.nodeAround (p.node .sectionHeader (lineRule .config)) .section entries := by
    unfold «section»
    rw [sectionHeader_eq]
  rw [hsection]
  refine ⟨.section header body hentry, errs ++ errs', ?_, fun hnil => ?_⟩
  · rw [List.flatMap_singleton, List.flatMap_singleton]
    exact hspans
  · obtain ⟨hfirst, hsecond⟩ := List.append_eq_nil_iff.mp hnil
    have hfront := hsound hfirst
    rw [← hrest, hbody.1.rest] at hfront
    refine ⟨?_, ?_⟩
    · simp [Outer.strips, Outer.tokens, Strip.tokens]
    · rw [List.flatMap_singleton]
      exact sound_cons.mpr ⟨hfront, hbody.2 hsecond⟩

/-- A package line. -/
theorem outers_package (hl : Lexed p.rest) (h : p.isAtKeyword .package = true) :
    ∃ o errs, p.Outers p.package [o] errs := by
  obtain ⟨parts, errs, hspans, hsound⟩ := strips_clause hl h
  rw [package_eq]
  refine ⟨.package parts, errs, ?_, fun hnil => ⟨?_, hsound hnil⟩⟩
  · rw [List.flatMap_singleton] at hspans ⊢
    rw [List.flatMap_singleton]
    exact hspans
  · simp [Outer.strips, Outer.tokens, Strip.tokens]

/-- A line that no rule is for is reported. -/
theorem outers_skipLine (p : Parser) (fault : Fault) :
    ∃ o errs, p.Outers (p.skipLine fault) [o] errs := by
  obtain ⟨err, herr⟩ := takes_error p fault
  obtain ⟨parts, hline⟩ := takes_errorLine (p.error fault)
  refine ⟨.skipped parts, [err], ?_, nofun⟩
  rw [List.flatMap_singleton, List.flatMap_singleton]
  exact herr.trans hline

/-- One token of trivia. -/
theorem outers_bump (hend : ¬p.atEnd = true) (h : p.current.isTrivia = true) :
    ∃ o errs, p.Outers p.bump [o] errs := by
  obtain ⟨t, rest, hrest⟩ := List.exists_cons_of_ne_nil fun hr => hend (List.isEmpty_iff.mpr hr)
  have ht : t.kind.isTrivia = true := current_of_rest hrest ▸ h
  exact ⟨.trivia t ht, [], (Reads.bump hrest).1, fun _ => ⟨rfl, trivial⟩⟩

/-- What stands right below the root is read one by one: a token of trivia, a section, a package
line or a line that is reported. -/
def item (p : Parser) : Parser :=
  if p.current.isTrivia then p.bump
  else if p.isAtKeyword .config then p.section
  else if p.isAtKeyword .package then p.package
  else if p.isAtKeyword .option || p.isAtKeyword .list then
    p.skipLine (.outsideSection p.currentText)
  else p.skipLine (.notAStatement p.currentText)

theorem length_item_lt (h : ¬p.atEnd = true) : p.item.rest.length < p.rest.length := by
  unfold item
  split
  · exact length_bump_lt h
  split
  · exact length_section_lt ‹_›
  split
  · exact length_package_lt ‹_›
  split
  · exact length_skipLine_lt h _
  · exact length_skipLine_lt h _

theorem items_of_atEnd (h : p.atEnd = true) : p.items = p := by rw [items, dif_pos h]

theorem items_of_not_atEnd (h : ¬p.atEnd = true) : p.items = p.item.items := by
  rw [items, dif_neg h]
  unfold item
  split
  · rfl
  split
  · rfl
  split
  · rfl
  split <;> rfl

/-- **A source is read item by item**, each of which leaves less of it. -/
@[elab_as_elim]
theorem item_induction {motive : Parser → Prop} (nil : ∀ p : Parser, p.atEnd = true → motive p)
    (item : ∀ p : Parser, ¬p.atEnd = true → motive p.item → motive p) (p : Parser) : motive p := by
  induction hlen : p.rest.length using Nat.strongRecOn generalizing p with
  | ind n ih =>
    by_cases hend : p.atEnd = true
    · exact nil p hend
    · exact item p hend (ih _ (hlen ▸ length_item_lt hend) _ rfl)

/-- One thing below the root, whatever it is. -/
theorem outers_item (hl : Lexed p.rest) (hend : ¬p.atEnd = true) :
    ∃ o errs, p.Outers p.item [o] errs := by
  unfold item
  split
  · exact outers_bump hend ‹_›
  split
  · exact outers_section hl ‹_›
  split
  · exact outers_package hl ‹_›
  split
  · exact outers_skipLine p _
  · exact outers_skipLine p _

/-- **Every source is read to its end.** -/
theorem spans_items (hl : Lexed p.rest) :
    p.items.rest = [] ∧ ∃ os errs, p.Outers p.items os errs := by
  induction p using item_induction with
  | nil p hend =>
    rw [items_of_atEnd hend]
    exact ⟨List.isEmpty_iff.mp hend, [], [], Reads.refl p, fun _ => ⟨rfl, trivial⟩⟩
  | item p hend ih =>
    obtain ⟨o, errs, hfirst⟩ := outers_item hl hend
    have hlexed : Lexed p.item.rest := by
      rw [hfirst.1.rest] at hl
      exact hl.of_append
    obtain ⟨hrest, os, errs', hmore⟩ := ih hlexed
    rw [items_of_not_atEnd hend]
    exact ⟨hrest, _, _, hfirst.trans hmore⟩

end Parser

/-- **What a text is read as**: things that stand below the root, and the errors in them.
Without an error these are sound lines. -/
theorem exists_parse (t : Text) :
    ∃ (os : List Outer) (errs : List SyntaxError), Token.ofText t = os.flatMap Outer.tokens ∧
      Tree.ofEvents? (Token.ofText t) (Parser.ofText t).root.events =
        some (.node .root (os.flatMap Outer.trees)) ∧
      parse t = ⟨.node .root (os.flatMap Outer.trees), errs⟩ ∧
      (errs = [] → Token.ofText t = (os.flatMap Outer.strips).flatMap Strip.tokens ∧
        Sound (os.flatMap Outer.strips) []) := by
  have hl : Lexed (Parser.ofText t).start.2.rest := lexed_ofText t
  obtain ⟨hend, os, errs, hspans, hsound⟩ := Parser.spans_items hl
  obtain ⟨htree, hparse⟩ := Parser.finish_of_spans rfl rfl hspans.node hend
  have htokens : Token.ofText t = os.flatMap Outer.tokens := by
    have hrest := hspans.rest
    rw [hend, List.append_nil] at hrest
    exact hrest
  refine ⟨os, errs, htokens, htree, hparse, fun hnil => ?_⟩
  obtain ⟨hstrips, hss⟩ := hsound hnil
  rw [hend] at hss
  exact ⟨htokens.trans hstrips.symm, hss⟩

end Syntax
end Uci
