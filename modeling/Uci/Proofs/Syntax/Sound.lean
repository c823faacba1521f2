import Uci.Proofs.Syntax.Shape
import Uci.Syntax.Statement

/-!
# Sources of sound lines

Strips that are sound are read as they stand.  What they say is found strip by strip: the entries
in front of the next header belong to the section above.  An entry that has no section above it is
reported and passed over; where there is none of these, nothing is found wrong.

## Main definitions

* `Nested` — strips in which every line of a section stands in one.
* `reading` — what strips say, with the places of their values.
* `strays` — what is found wrong with strips that are not nested.
* `Parser.Tells` — a stretch of a source is read, and says something.

## Main results

* `Parser.reads_entries`, `Parser.reads_section` — a section is read as it stands.
* `Parser.tells_strips` — **sound strips are read as they stand**, up to anything that does not
  belong to a section, and with one error for each entry outside of one.
* `parse_sound` — **what sound strips are read as**, and without an error if they are nested.
-/

namespace Uci
namespace Syntax

/-- **Strips in which every line of a section stands in one.**  The flag tells whether a
section is open in front of them. -/
def Nested : Bool → List Strip → Prop
  | _, [] => True
  | inside, .trivia _ _ :: ss => Nested inside ss
  | inside, .clause c :: ss =>
    match c.keyword with
    | .package => Nested false ss
    | .config => Nested true ss
    | .option | .list => inside = true ∧ Nested inside ss

/-- **What strips say** that begin at an offset: the entries of a section that is open in
front of them, and the items behind those. -/
def reading : Nat → List Strip → List Entry × List Item
  | _, [] => ([], [])
  | o, .trivia t _ :: ss => reading (o + t.text.size) ss
  | o, .clause c :: ss =>
    let behind := reading (o + sizeOf c.tokens) ss
    let values := Tree.values o c.trees
    match c.keyword with
    | .package => ([], .package values[0]? :: behind.2)
    | .config =>
      ([], .section ⟨values[0]?, values[1]?, c.tokens.flatMap Token.text, behind.1⟩ :: behind.2)
    | .option => (.option values[0]? values[1]? :: behind.1, behind.2)
    | .list => (.list values[0]? values[1]? :: behind.1, behind.2)

/-- **What is found wrong with sound strips** that begin at an offset: every line of a section that
stands in none.  The flag tells whether one is open in front of them. -/
def strays : Bool → Nat → List Strip → List SyntaxError
  | _, _, [] => []
  | inside, o, .trivia t _ :: ss => strays inside (o + t.text.size) ss
  | inside, o, .clause c :: ss =>
    match c.keyword with
    | .package => strays false (o + sizeOf c.tokens) ss
    | .config => strays true (o + sizeOf c.tokens) ss
    | .option | .list =>
      if inside then strays true (o + sizeOf c.tokens) ss
      else ⟨.outsideSection c.keyword.text, o, o + c.keyword.text.size⟩ ::
        strays false (o + sizeOf c.tokens) ss

/-- Nothing is wrong with strips that are nested, and only with those. -/
theorem strays_eq_nil_iff {inside : Bool} {o : Nat} {ss : List Strip} :
    strays inside o ss = [] ↔ Nested inside ss := by
  induction ss generalizing inside o with
  | nil => exact iff_of_true rfl trivial
  | cons s ss ih =>
    cases s with
    | trivia t ht => exact ih
    | clause c =>
      obtain ⟨k, parts⟩ := c
      cases k with
      | package | config => exact ih
      | option | list =>
        cases inside with
        | true => exact ih.trans (and_iff_right rfl).symm
        | false => exact iff_of_false (List.cons_ne_nil _ _) fun h => Bool.noConfusion h.1

/-- What is wrong with strips are lines of a section that stand in none. -/
theorem fault_of_mem_strays {inside : Bool} {o : Nat} {ss : List Strip} {e : SyntaxError}
    (h : e ∈ strays inside o ss) : ∃ k : Keyword, k.isEntry = true ∧
      e.fault = .outsideSection k.text := by
  induction ss generalizing inside o with
  | nil => cases h
  | cons s ss ih =>
    cases s with
    | trivia t ht => exact ih h
    | clause c =>
      obtain ⟨k, parts⟩ := c
      cases k with
      | package | config => exact ih h
      | option | list =>
        cases inside with
        | true => exact ih h
        | false =>
          rcases List.mem_cons.mp h with rfl | h
          · exact ⟨_, rfl, rfl⟩
          · exact ih h

/-- What stands in a section leaves it open. -/
private theorem nested_section {body : List Strip} (h : ∀ s ∈ body, s.isEntry = true)
    {ss : List Strip} (hss : Nested true ss) : Nested true (body ++ ss) := by
  induction body with
  | nil => exact hss
  | cons s body ih =>
    obtain ⟨hs, hbody⟩ := List.forall_mem_cons.mp h
    cases s with
    | trivia t ht => exact ih hbody
    | clause c =>
      obtain ⟨k, parts⟩ := c
      cases k with
      | option | list => exact ⟨rfl, ih hbody⟩
      | package | config => cases hs

/-- **The strips of every source are nested**, since lines outside of sections are passed
over. -/
theorem nested_outers (os : List Outer) (inside : Bool) :
    Nested inside (os.flatMap Outer.strips) := by
  induction os generalizing inside with
  | nil => trivial
  | cons o os ih =>
    rw [List.flatMap_cons]
    cases o with
    | trivia t ht => exact ih inside
    | package parts => exact ih false
    | «section» header body hbody => exact nested_section hbody (ih true)
    | skipped parts => exact ih inside

/-! ### The bytes of a tree -/

theorem Clause.text_tree (c : Clause) : c.tree.text = c.tokens.flatMap Token.text :=
  text_of_kept (kept_clause c)

/-- A line takes as many bytes as its tree. -/
theorem Clause.size_tree (c : Clause) : Text.size c.tree.text = sizeOf c.tokens :=
  congrArg Text.size c.text_tree

/-- So does a strip. -/
theorem Strip.size_tree (s : Strip) : Text.size s.tree.text = sizeOf s.tokens :=
  congrArg Text.size (text_of_kept (kept_strip s))

theorem sizeOf_trivia (t : Token) (ht : t.kind.isTrivia = true) :
    sizeOf (Strip.trivia t ht).tokens = t.text.size := by
  rw [Strip.tokens, sizeOf_cons, sizeOf_nil, Nat.add_zero]

theorem Token.text_leaf (t : Token) : t.leaf.text = t.text := by
  rw [Token.leaf, Tree.text, Tree.tokens_token, List.flatMap_singleton]

/-- A section takes as many bytes as its tree. -/
theorem size_section {header : List Part} {body : List Strip}
    (hbody : ∀ s ∈ body, s.isEntry = true) :
    Text.size (Tree.node .section ((⟨.config, header⟩ : Clause).tree ::
      body.map Strip.tree)).text =
      sizeOf ((⟨.config, header⟩ : Clause).tokens ++ body.flatMap Strip.tokens) := by
  have hkept := text_of_kept (kept_outer (.section header body hbody))
  rw [Outer.trees, List.flatMap_singleton] at hkept
  exact congrArg Text.size hkept

/-! ### What the trees of strips say -/

/-- Trees that follow others begin where those end. -/
theorem Tree.located_append (ts us : List Tree) (o : Nat) :
    located o (ts ++ us) =
      located o ts ++ located (o + Text.size (ts.flatMap Tree.text)) us := by
  induction ts generalizing o with
  | nil => rfl
  | cons t ts ih =>
    rw [List.cons_append, located, located, ih, List.flatMap_cons, Text.size_append,
      Nat.add_assoc]
    rfl

/-- The entries of a section come first in what its strips say. -/
theorem reading_append {ss : List Strip} (hentry : ∀ s ∈ ss, s.isEntry = true)
    (ss' : List Strip) (o : Nat) :
    reading o (ss ++ ss') =
      ((Tree.located o (ss.map Strip.tree)).filterMap Tree.entry? ++
          (reading (o + sizeOf (ss.flatMap Strip.tokens)) ss').1,
        (reading (o + sizeOf (ss.flatMap Strip.tokens)) ss').2) := by
  induction ss generalizing o with
  | nil => rfl
  | cons s ss ih =>
    obtain ⟨hfirst, hmore⟩ := List.forall_mem_cons.mp hentry
    rw [List.map_cons, Tree.located, Strip.size_tree, List.flatMap_cons, sizeOf_append,
      ← Nat.add_assoc]
    cases s with
    | trivia t ht =>
      rw [List.filterMap_cons_none rfl, sizeOf_trivia, ← ih hmore]
      rfl
    | clause c =>
      obtain ⟨k, parts⟩ := c
      cases k with
      | option | list =>
        rw [List.cons_append, reading, ih hmore]
        rfl
      | package | config => cases hfirst

/-- **No line of a section comes next**: nothing does, or a line that does not belong to it. -/
def EndsSection (ss : List Strip) : Prop :=
  ss = [] ∨ ∃ (c : Clause) (more : List Strip), ss = .clause c :: more ∧ c.keyword.isEntry = false

/-- A section that is open in front of strips ends somewhere. -/
theorem exists_section (ss : List Strip) :
    ∃ body back : List Strip, ss = body ++ back ∧ (∀ s ∈ body, s.isEntry = true) ∧
      EndsSection back := by
  refine ⟨ss.takeWhile Strip.isEntry, ss.dropWhile Strip.isEntry,
    List.takeWhile_append_dropWhile.symm, fun s => List.mem_takeWhile_imp, ?_⟩
  cases hback : ss.dropWhile Strip.isEntry with
  | nil => exact Or.inl rfl
  | cons s more =>
    have hstop := List.head?_dropWhile_not Strip.isEntry ss
    rw [hback] at hstop
    cases s with
    | trivia t ht => cases hstop
    | clause c => exact Or.inr ⟨c, more, rfl, hstop⟩

/-- Behind the end of a section no entry comes first. -/
theorem EndsSection.reading_fst {ss : List Strip} (h : EndsSection ss) (o : Nat) :
    (reading o ss).1 = [] := by
  rcases h with rfl | ⟨⟨k, parts⟩, more, rfl, hk⟩
  · rfl
  · cases k with
    | package | config => rfl
    | option | list => cases hk

/-- There it makes no difference whether a section is open. -/
theorem EndsSection.strays {ss : List Strip} (h : EndsSection ss) (inside : Bool) (o : Nat) :
    strays inside o ss = Syntax.strays false o ss := by
  rcases h with rfl | ⟨⟨k, parts⟩, more, rfl, hk⟩
  · rfl
  · cases k with
    | package | config => rfl
    | option | list => cases hk

/-- Nothing is wrong with what stands in a section. -/
theorem strays_section {body back : List Strip} (hbody : ∀ s ∈ body, s.isEntry = true)
    (hback : EndsSection back) (o : Nat) :
    strays true o (body ++ back) = strays false (o + sizeOf (body.flatMap Strip.tokens)) back := by
  induction body generalizing o with
  | nil => exact hback.strays true o
  | cons s body ih =>
    obtain ⟨hfirst, hmore⟩ := List.forall_mem_cons.mp hbody
    rw [List.flatMap_cons, sizeOf_append, ← Nat.add_assoc, ← ih hmore]
    cases s with
    | trivia t ht =>
      rw [sizeOf_trivia]
      rfl
    | clause c =>
      obtain ⟨k, parts⟩ := c
      cases k with
      | option | list => rfl
      | package | config => cases hfirst

/-- What a section says. -/
theorem reading_section {header : List Part} {body back : List Strip}
    (hbody : ∀ s ∈ body, s.isEntry = true) (hback : EndsSection back) (o : Nat) :
    reading o (.clause ⟨.config, header⟩ :: (body ++ back)) =
      ([], .section (Tree.sectionOf o ((⟨.config, header⟩ : Clause).tree ::
          body.map Strip.tree)) ::
        (reading (o + sizeOf ((⟨.config, header⟩ : Clause).tokens ++
          body.flatMap Strip.tokens)) back).2) := by
  have hsection : Tree.sectionOf o ((⟨.config, header⟩ : Clause).tree :: body.map Strip.tree) =
      ⟨(Tree.values o (⟨.config, header⟩ : Clause).trees)[0]?,
        (Tree.values o (⟨.config, header⟩ : Clause).trees)[1]?,
        (⟨.config, header⟩ : Clause).tree.text,
        (Tree.located (o + Text.size (⟨.config, header⟩ : Clause).tree.text)
          (body.map Strip.tree)).filterMap Tree.entry?⟩ := rfl
  rw [hsection, reading, reading_append hbody, hback.reading_fst, List.append_nil, sizeOf_append,
    ← Nat.add_assoc, Clause.text_tree]
  rfl

/-! ### What is read of sound strips -/

/-- **Tokens that a section does not go on with**: neither trivia nor a line of it come first. -/
structure Bars (ts : List Token) : Prop where
  trivia : Halts Kind.isTrivia ts
  entry : ∀ k : Keyword, k.isEntry = true → ∀ more, ts ≠ wordToken k.text :: more

theorem bars_nil : Bars [] := ⟨nofun, nofun⟩

/-- Strips that end a section are such tokens. -/
theorem EndsSection.bars {ss : List Strip} (h : EndsSection ss) {rest : List Token}
    (hrest : Bars rest) : Bars (ss.flatMap Strip.tokens ++ rest) := by
  rcases h with rfl | ⟨c, more, rfl, hc⟩
  · exact hrest
  · refine ⟨?_, ?_⟩
    · rintro t ⟨⟩
      rfl
    · intro k hk us hsplit
      have htext : c.keyword.text = k.text := congrArg Token.text (List.cons.inj hsplit).1
      rw [Keyword.eq_of_text htext, hk] at hc
      cases hc

namespace Parser

variable {p q : Parser} {t : Token} {rest : List Token} {ss : List Strip}

/-- The line of a statement, without an error. -/
theorem reads_clause {c : Clause} (hs : Sound [.clause c] rest)
    (h : p.rest = c.tokens ++ rest) :
    p.start.2.Reads (lineRule c.keyword p.start.2) c.tokens c.trees ∧
      (lineRule c.keyword p.start.2).rest = rest := by
  obtain ⟨⟨d, e, rfl, hclose⟩, -⟩ := hs
  exact reads_lineRule (p := p.start.2) h hclose

theorem skipTrivia_of_trivia (h : p.rest = t :: rest) (ht : t.kind.isTrivia = true) :
    p.skipTrivia = p.bump.skipTrivia := by
  have hbump : p.bump.rest = rest := by rw [rest_bump, h, List.tail_cons]
  unfold skipTrivia bumpWhile
  rw [hbump, h, List.takeWhile_cons_of_pos (p := fun t : Token => t.kind.isTrivia) ht,
    List.foldl_cons]

theorem skipTrivia_of_halts (h : Halts Kind.isTrivia p.rest) : p.skipTrivia = p := by
  have hnone : p.rest.takeWhile (fun t => t.kind.isTrivia) = [] := by
    cases hr : p.rest with
    | nil => rfl
    | cons t ts =>
      have ht : t.kind.isTrivia = false := h t (by rw [hr]; rfl)
      exact List.takeWhile_cons_of_neg (by simp [ht])
  unfold skipTrivia bumpWhile
  rw [hnone, List.foldl_nil]

/-- What is taken as the lines of a section depends on what comes behind the trivia. -/
theorem entries_congr (h : p.skipTrivia = q.skipTrivia) : p.entries = q.entries := by
  rw [entries.eq_def p, entries.eq_def q]
  simp only [h]

/-- A keyword is no trivia. -/
theorem skipTrivia_of_keyword {k : Keyword} (h : p.rest = wordToken k.text :: rest) :
    p.skipTrivia = p := by
  refine skipTrivia_of_halts ?_
  rw [h]
  rintro t ⟨⟩
  rfl

/-- The line of an entry is taken by its rule. -/
theorem entries_of_keyword {k : Keyword} (hk : k.isEntry = true)
    (h : p.rest = wordToken k.text :: rest) :
    p.entries = (p.node k.node (lineRule k)).2.entries := by
  have hskip := skipTrivia_of_keyword h
  have hat := isAtKeyword_of_rest h
  cases k with
  | option =>
    rw [entries_of_option (by rw [hskip, hat]; rfl), hskip, option_eq]
    rfl
  | list =>
    rw [entries_of_list (by rw [hskip, hat]; decide) (by rw [hskip, hat]; rfl), hskip, list_eq]
    rfl
  | package | config => cases hk

/-- **The strips of a section** are read as they stand. -/
theorem reads_entries (hentry : ∀ s ∈ ss, s.isEntry = true) (hs : Sound ss rest)
    (hrest : Bars rest) (h : p.rest = ss.flatMap Strip.tokens ++ rest) :
    p.Reads p.entries (ss.flatMap Strip.tokens) (ss.map Strip.tree) ∧ p.entries.rest = rest := by
  induction ss generalizing p with
  | nil =>
    have hp : p.rest = rest := h
    have hskip : p.skipTrivia = p := skipTrivia_of_halts (hp ▸ hrest.trivia)
    have hno : ∀ k : Keyword, k.isEntry = true → ¬p.skipTrivia.isAtKeyword k = true := by
      intro k hk hat
      rw [hskip] at hat
      obtain ⟨more, hmore⟩ := rest_of_isAtKeyword hat
      exact hrest.entry k hk more (hp.symm.trans hmore)
    rw [entries_of_other (hno .option rfl) (hno .list rfl), hskip]
    exact ⟨Reads.refl p, hp⟩
  | cons s ss ih =>
    obtain ⟨hfirst, hmore⟩ := List.forall_mem_cons.mp hentry
    obtain ⟨hone, hothers⟩ := sound_cons.mp hs
    rw [List.flatMap_cons, List.append_assoc] at h
    cases s with
    | trivia t ht =>
      obtain ⟨hbump, hnext⟩ := Reads.bump h
      obtain ⟨hreads, hend⟩ := ih hmore hothers hnext
      rw [entries_congr (skipTrivia_of_trivia h ht)]
      exact ⟨hbump.trans hreads, hend⟩
    | clause c =>
      obtain ⟨hline, hnext⟩ := reads_clause hone h
      obtain ⟨hreads, hend⟩ :=
        ih (p := (p.node c.keyword.node (lineRule c.keyword)).2) hmore hothers hnext
      rw [entries_of_keyword hfirst h]
      exact ⟨hline.node.trans hreads, hend⟩

/-- A section, with everything that stands in it. -/
theorem reads_section {header : List Part} {body : List Strip}
    (hentry : ∀ s ∈ body, s.isEntry = true) (hrest : Bars rest)
    (hs : Sound (.clause ⟨.config, header⟩ :: body) rest)
    (h : p.rest = (⟨.config, header⟩ : Clause).tokens ++ (body.flatMap Strip.tokens ++ rest)) :
    p.Reads p.section ((⟨.config, header⟩ : Clause).tokens ++ body.flatMap Strip.tokens)
        [.node .section ((⟨.config, header⟩ : Clause).tree :: body.map Strip.tree)] ∧
      p.section.rest = rest := by
  obtain ⟨hheader, hbody⟩ := sound_cons.mp hs
  obtain ⟨hline, hnext⟩ := reads_clause hheader h
  have hstart : (p.behindNode .sectionHeader (lineRule .config)).rest =
      body.flatMap Strip.tokens ++ rest := (rest_behindNode ..).trans hnext
  obtain ⟨hreads, hend⟩ := reads_entries hentry hbody hrest hstart
  unfold «section»
  rw [sectionHeader_eq]
  exact ⟨Reads.nodeAround hline hreads, hend⟩

/-! ### The next line of a source -/

theorem items_of_nil (h : p.rest = []) : p.items = p := items_of_atEnd (List.isEmpty_iff.mpr h)

theorem not_atEnd_of_rest (h : p.rest = t :: rest) : ¬p.atEnd = true := by
  rw [atEnd, h]
  exact Bool.false_ne_true

theorem items_of_trivia (h : p.rest = t :: rest) (ht : t.kind.isTrivia = true) :
    p.items = p.bump.items := by
  rw [items_of_not_atEnd (not_atEnd_of_rest h), item, current_of_rest h, if_pos ht]

theorem items_of_keyword {k : Keyword} (h : p.rest = wordToken k.text :: rest) :
    p.items = if k = .config then p.section.items else if k = .package then p.package.items
      else (p.skipLine (.outsideSection p.currentText)).items := by
  have htrivia : ¬p.current.isTrivia = true := by
    rw [current_of_rest h]
    exact Bool.false_ne_true
  rw [items_of_not_atEnd (not_atEnd_of_rest h), item, if_neg htrivia]
  simp only [isAtKeyword_of_rest h]
  cases k <;> rfl

/-- A line that is right goes to its line end. -/
theorem afterLine_of_sound {c : Clause} (hs : Sound [.clause c] rest)
    (h : p.rest = c.tokens ++ rest) : afterLine p.rest = rest := by
  have hline := (reads_clause hs h).2
  have hat : p.isAtKeyword c.keyword = true := by
    rw [isAtKeyword_of_rest (k := c.keyword) h, decide_eq_true rfl]
  revert hline hat
  cases c.keyword with
  | package =>
    intro hline hat
    rw [← rest_package hat, package_eq]
    exact hline
  | config =>
    intro hline hat
    rw [← rest_sectionHeader hat, sectionHeader_eq]
    exact hline
  | option =>
    intro hline hat
    rw [← rest_option hat, option_eq]
    exact hline
  | list =>
    intro hline hat
    rw [← rest_list hat, list_eq]
    exact hline

/-! ### Stretches of a source -/

/-- **A stretch of a source is read** from `p` to `q`: its tokens are taken into trees, which take
as many bytes, `errs` is found wrong, and what the trees say depends on where they stand. -/
structure Tells (p q : Parser) (toks : List Token) (errs : List SyntaxError)
    (told : Nat → List Item) : Prop where
  items : p.items = q.items
  trees : ∃ ts, p.Spans q toks ts errs ∧ Text.size (ts.flatMap Tree.text) = sizeOf toks ∧
    ∀ o, (Tree.located o ts).filterMap Tree.item? = told o

section

variable {q' : Parser} {toks toks' : List Token} {errs errs' : List SyntaxError}
  {told told' : Nat → List Item}

namespace Tells

theorem refl (p : Parser) : p.Tells p [] [] fun _ => [] :=
  ⟨rfl, [], Reads.refl p, rfl, fun _ => rfl⟩

/-- One stretch after the other. -/
theorem trans (h : p.Tells q toks errs told) (h' : q.Tells q' toks' errs' told') :
    p.Tells q' (toks ++ toks') (errs ++ errs') fun o => told o ++ told' (o + sizeOf toks) where
  items := h.items.trans h'.items
  trees := by
    obtain ⟨ts, hspans, hsize, hsaid⟩ := h.trees
    obtain ⟨ts', hspans', hsize', hsaid'⟩ := h'.trees
    refine ⟨ts ++ ts', hspans.trans hspans', ?_, fun o => ?_⟩
    · rw [List.flatMap_append, Text.size_append, sizeOf_append, hsize, hsize']
    · rw [Tree.located_append, List.filterMap_append, hsaid, hsaid', hsize]

theorem offset (h : p.Tells q toks errs told) : q.offset = p.offset + sizeOf toks := by
  obtain ⟨ts, hspans, -⟩ := h.trees
  exact hspans.offset

/-- A stretch that is one tree. -/
theorem of_tree {u : Tree} (hitems : p.items = q.items) (h : p.Reads q toks [u])
    (hsize : Text.size u.text = sizeOf toks) :
    p.Tells q toks [] fun o => (Tree.item? (o, u)).toList := by
  refine ⟨hitems, [u], h, by rwa [List.flatMap_singleton], fun o => ?_⟩
  cases hsaid : Tree.item? (o, u) <;> simp [Tree.located, hsaid]

/-- Some strips, and then the others. -/
theorem strips {front : List Strip} (h : p.Tells q toks errs told)
    (h' : q.Tells q' (ss.flatMap Strip.tokens) (strays false q.offset ss) fun o => (reading o ss).2)
    (htoks : front.flatMap Strip.tokens = toks)
    (herrs : strays false p.offset (front ++ ss) =
      errs ++ strays false (p.offset + sizeOf toks) ss)
    (htold : ∀ o, (reading o (front ++ ss)).2 = told o ++ (reading (o + sizeOf toks) ss).2) :
    p.Tells q' ((front ++ ss).flatMap Strip.tokens) (strays false p.offset (front ++ ss))
      fun o => (reading o (front ++ ss)).2 := by
  have hall := h.trans h'
  rwa [h.offset, ← herrs, ← funext htold, ← htoks, ← List.flatMap_append] at hall

end Tells

/-- What is taken as parts of a line says nothing below the root. -/
private theorem item?_parts (parts : List Part) (o : Nat) :
    (Tree.located o (parts.map Part.tree)).filterMap Tree.item? = [] := by
  induction parts generalizing o with
  | nil => rfl
  | cons q parts ih =>
    have hq : Tree.item? (o, q.tree) = none := by
      cases q <;> rfl
    rw [List.map_cons, Tree.located, List.filterMap_cons_none hq, ih]

/-- **A line that is reported** is passed over and says nothing. -/
theorem tells_skipLine {fault : Fault} (h : p.rest = toks ++ rest)
    (hline : afterLine p.rest = rest) (hitems : p.items = (p.skipLine fault).items) :
    p.Tells (p.skipLine fault) toks [⟨fault, p.offset, p.offset + p.currentText.size⟩]
        (fun _ => []) ∧
      (p.skipLine fault).rest = rest := by
  obtain ⟨parts, hparts⟩ := takes_errorLine (p.error fault)
  have hrest : (p.skipLine fault).rest = rest := by
    rw [skipLine, rest_errorLine, rest_error, hline]
  have htokens : parts.flatMap Part.tokens = toks := by
    have hsplit : p.rest = parts.flatMap Part.tokens ++ (p.skipLine fault).rest := hparts.rest
    rw [h, hrest] at hsplit
    exact (List.append_cancel_right hsplit).symm
  have hspans := (Spans.error p fault).trans hparts
  rw [htokens] at hspans
  have htext : (parts.map Part.tree).flatMap Tree.text = toks.flatMap Token.text := by
    rw [← htokens, ← tokens_parts, List.flatMap_assoc]
    rfl
  exact ⟨⟨hitems, _, hspans, congrArg Text.size htext, item?_parts parts⟩, hrest⟩

end

/-- Trivia say nothing. -/
private theorem tells_trivia (ht : t.kind.isTrivia = true) (h : p.rest = t :: rest) :
    p.Tells p.bump (Strip.trivia t ht).tokens [] (fun _ => []) ∧ p.bump.rest = rest := by
  obtain ⟨hbump, hnext⟩ := Reads.bump h
  exact ⟨Tells.of_tree (items_of_trivia h ht) hbump (Strip.size_tree (.trivia t ht)), hnext⟩

/-- An entry outside of a section is passed over. -/
private theorem tells_stray {c : Clause} (hc : c.keyword.isEntry = true)
    (hs : Sound [.clause c] rest) (h : p.rest = c.tokens ++ rest) :
    ∃ q, q.rest = rest ∧ p.Tells q c.tokens
      [⟨.outsideSection c.keyword.text, p.offset, p.offset + c.keyword.text.size⟩]
      fun _ => [] := by
  have htext : p.currentText = c.keyword.text := currentText_of_rest h
  have hne : ∀ k : Keyword, k.isEntry = false → c.keyword ≠ k := by
    rintro k hk rfl
    rw [hk] at hc
    cases hc
  have hitems : p.items = (p.skipLine (.outsideSection c.keyword.text)).items := by
    rw [items_of_keyword (k := c.keyword) h, htext, if_neg (hne .config rfl),
      if_neg (hne .package rfl)]
  obtain ⟨hline, hnext⟩ := tells_skipLine h (afterLine_of_sound hs h) hitems
  rw [htext] at hline
  exact ⟨_, hnext, hline⟩

/-- A package line says which package it is. -/
private theorem tells_package {parts : List Part} (hs : Sound [.clause ⟨.package, parts⟩] rest)
    (h : p.rest = (⟨.package, parts⟩ : Clause).tokens ++ rest) :
    p.Tells p.package (⟨.package, parts⟩ : Clause).tokens []
        (fun o => [.package (Tree.values o (⟨.package, parts⟩ : Clause).trees)[0]?]) ∧
      p.package.rest = rest := by
  obtain ⟨hline, hnext⟩ := reads_clause hs h
  have hitems : p.items = p.package.items := by
    rw [items_of_keyword (k := .package) h, if_neg (by decide), if_pos rfl]
  rw [package_eq] at hitems ⊢
  exact ⟨Tells.of_tree hitems hline.node (Clause.size_tree _), hnext⟩

/-- A section says what its header and its entries do. -/
private theorem tells_section {header : List Part} {body : List Strip}
    (hentry : ∀ s ∈ body, s.isEntry = true) (hrest : Bars rest)
    (hs : Sound (.clause ⟨.config, header⟩ :: body) rest)
    (h : p.rest = (⟨.config, header⟩ : Clause).tokens ++ (body.flatMap Strip.tokens ++ rest)) :
    p.Tells p.section ((⟨.config, header⟩ : Clause).tokens ++ body.flatMap Strip.tokens) []
        (fun o => [.section (Tree.sectionOf o
          ((⟨.config, header⟩ : Clause).tree :: body.map Strip.tree))]) ∧
      p.section.rest = rest := by
  obtain ⟨hline, hnext⟩ := reads_section hentry hrest hs h
  have hitems : p.items = p.section.items := by
    rw [items_of_keyword (k := .config) h, if_pos rfl]
  exact ⟨Tells.of_tree hitems hline (size_section hentry), hnext⟩

/-- **Sound strips are read as they stand**, and their trees say what they say.  An entry outside
of a section is reported. -/
theorem tells_strips (hs : Sound ss rest) (hrest : Bars rest)
    (h : p.rest = ss.flatMap Strip.tokens ++ rest) :
    ∃ q, q.rest = rest ∧ p.Tells q (ss.flatMap Strip.tokens) (strays false p.offset ss)
      fun o => (reading o ss).2 := by
  induction hlen : ss.length using Nat.strongRecOn generalizing ss p with
  | ind n ih =>
    cases ss with
    | nil => exact ⟨p, h, Tells.refl p⟩
    | cons s ss =>
      obtain ⟨hfirst, hmore⟩ := sound_cons.mp hs
      rw [List.length_cons] at hlen
      rw [List.flatMap_cons, List.append_assoc] at h
      have htoks : [s].flatMap Strip.tokens = s.tokens := List.flatMap_singleton ..
      cases s with
      | trivia t ht =>
        obtain ⟨hline, hnext⟩ := tells_trivia ht h
        obtain ⟨q, hend, hothers⟩ := ih ss.length (by omega) hmore hnext rfl
        refine ⟨q, hend, hline.strips hothers htoks ?_ fun o => ?_⟩
        all_goals
          rw [sizeOf_trivia]
          rfl
      | clause c =>
        obtain ⟨k, parts⟩ := c
        cases k with
        | option | list =>
          obtain ⟨p', hnext, hline⟩ := tells_stray rfl hfirst h
          obtain ⟨q, hend, hothers⟩ := ih ss.length (by omega) hmore hnext rfl
          exact ⟨q, hend, hline.strips hothers htoks rfl fun _ => rfl⟩
        | package =>
          obtain ⟨hline, hnext⟩ := tells_package hfirst h
          obtain ⟨q, hend, hothers⟩ := ih ss.length (by omega) hmore hnext rfl
          exact ⟨q, hend, hline.strips hothers htoks rfl fun _ => rfl⟩
        | config =>
          -- the lines of the section are taken with its header
          obtain ⟨body, back, rfl, hbody, hback⟩ := exists_section ss
          rw [List.flatMap_append, List.append_assoc] at h hfirst
          obtain ⟨hinside, hbehind⟩ := sound_append.mp hmore
          obtain ⟨hline, hnext⟩ := tells_section hbody (hback.bars hrest)
            (sound_cons.mpr ⟨hfirst, hinside⟩) h
          obtain ⟨q, hend, hothers⟩ := ih back.length
            (by rw [← hlen, List.length_append]; omega) hbehind hnext rfl
          rw [← List.cons_append]
          refine ⟨q, hend, hline.strips hothers List.flatMap_cons ?_ fun o => ?_⟩
          · rw [sizeOf_append, ← Nat.add_assoc, ← strays_section hbody hback]
            rfl
          · exact congrArg Prod.snd (reading_section hbody hback o)

end Parser

/-- A text of which everything has been read is what its trees and errors are. -/
theorem parse_of_tells {t : Text} {q : Parser} {toks : List Token} {errs : List SyntaxError}
    {told : Nat → List Item} (h : (Parser.ofText t).start.2.Tells q toks errs told)
    (hend : q.rest = []) : (parse t).errors = errs ∧ (parse t).items = told 0 := by
  obtain ⟨hitems, ts, hspans, -, hsaid⟩ := h
  rw [← Parser.items_of_nil hend, ← hitems] at hspans hend
  have hparse : parse t = ⟨.node .root ts, errs⟩ :=
    (Parser.finish_of_spans rfl rfl hspans.node hend).2
  rw [hparse]
  exact ⟨rfl, hsaid 0⟩

/-- **What sound strips are read as**: they say what they say one by one, and what is found wrong
are the lines of a section that stand in none. -/
theorem parse_sound {t : Text} {ss : List Strip}
    (h : Token.ofText t = ss.flatMap Strip.tokens) (hs : Sound ss []) :
    (parse t).errors = strays false 0 ss ∧ (parse t).items = (reading 0 ss).2 := by
  have hstart : (Parser.ofText t).start.2.rest = ss.flatMap Strip.tokens := h
  obtain ⟨q, hend, htells⟩ :=
    Parser.tells_strips hs bars_nil (hstart.trans (List.append_nil _).symm)
  exact parse_of_tells htells hend

/-- **Sound and nested strips are read without an error.** -/
theorem parse_strips {t : Text} {ss : List Strip}
    (h : Token.ofText t = ss.flatMap Strip.tokens) (hs : Sound ss []) (hn : Nested false ss) :
    (parse t).errors = [] ∧ (parse t).items = (reading 0 ss).2 := by
  obtain ⟨herrors, hitems⟩ := parse_sound h hs
  exact ⟨herrors.trans (strays_eq_nil_iff.mpr hn), hitems⟩

end Syntax
end Uci
