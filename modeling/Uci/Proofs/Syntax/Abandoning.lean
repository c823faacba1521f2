import Uci.Proofs.Syntax.Displacing
import Uci.Proofs.Syntax.Session

/-!
# Nodes that are opened and given back

A node that is opened around a completed one, and given back at once, frees the place that was
reserved for it.  The start of the completed node still refers to that place, which the next event
is written into.  So the two calls are harmless only if nothing is found there.

## Main definitions

* `Session.redirected` — a session in the log of which a start is redirected.
* `GivenBack` — what comes of a node that is opened and given back.

## Main results

* `Session.Sound.play?_redirected` — a session goes on as before, apart from the redirected start.
* `givenBack_of_calls` — **what comes of a node that is opened and given back.**
-/

namespace Uci
namespace Syntax

/-! ### Going on with a redirected start -/

section Log

variable {log : Array Event} {i n : Nat} {k : Kind}

/-- Writing behind a start that is redirected. -/
theorem redirect_push (h : i < log.size) (e : Event) :
    (redirect log i k n).push e = redirect (log.push e) i k n := by
  apply Array.ext_getElem?
  intro j
  rw [redirect, redirect, getElem?_write (by rw [Array.size_push]; omega), Array.getElem?_push,
    Array.getElem?_push, Array.size_setIfInBounds, getElem?_write h]
  by_cases hj : j = i
  · rw [if_pos hj, if_pos hj, if_neg (by omega)]
  · rw [if_neg hj, if_neg hj]

/-- Freeing the last place behind a start that is redirected. -/
theorem redirect_pop (h : i + 1 < log.size) :
    (redirect log i k n).pop = redirect log.pop i k n := by
  apply Array.ext_getElem?
  intro j
  rw [redirect, redirect, getElem?_write (by rw [Array.size_pop]; omega), Array.getElem?_pop,
    Array.getElem?_pop, Array.size_setIfInBounds, getElem?_write (by omega)]
  by_cases hj : j = i
  · rw [if_pos hj, if_pos hj, if_pos (by omega)]
  · rw [if_neg hj, if_neg hj]

/-- Writing at another place. -/
theorem redirect_write {j : Nat} (h : j ≠ i) (log : Array Event) (e : Event) :
    (redirect log i k n).setIfInBounds j e = redirect (log.setIfInBounds j e) i k n :=
  Array.setIfInBounds_comm _ _ h.symm

end Log

namespace Parser

/-- A parser in the log of which a start is redirected. -/
def redirected (p : Parser) (c : Completed) (k : Kind) (n : Nat) : Parser :=
  { p with events := redirect p.events c.index k n }

variable {p : Parser} {c c' : Completed} {m : Marker} {k k' : Kind} {n : Nat}

theorem start_redirected (h : c.index < p.events.size) :
    (p.redirected c k n).start = (p.start.1, p.start.2.redirected c k n) := by
  unfold start redirected
  rw [size_redirect, redirect_push h]

theorem bumpAs_redirected (h : c.index < p.events.size) (k' : Kind) :
    (p.redirected c k n).bumpAs k' = (p.bumpAs k').redirected c k n := by
  unfold bumpAs redirected
  dsimp only
  split
  · rfl
  · rw [redirect_push h]

theorem eat_redirected (h : c.index < p.events.size) (k' : Kind) :
    ((p.redirected c k n).eat k').2 = (p.eat k').2.redirected c k n := by
  have hat : (p.redirected c k n).isAt k' = p.isAt k' := rfl
  unfold eat
  rw [hat]
  split
  · exact bumpAs_redirected h _
  · rfl

theorem complete_redirected (h : c.index < p.events.size) (hm : m.index ≠ c.index) (k' : Kind) :
    (p.redirected c k n).complete m k' =
      ((p.complete m k').1, (p.complete m k').2.redirected c k n) := by
  unfold complete redirected
  dsimp only
  rw [redirect_write hm, redirect_push (by rwa [Array.size_setIfInBounds])]

theorem abandon_redirected (h : c.index < p.events.size) (hm : m.index ≠ c.index) :
    (p.redirected c k n).abandon m = (p.abandon m).redirected c k n := by
  unfold abandon redirected
  dsimp only
  rw [size_redirect]
  split
  · rw [redirect_pop (by omega)]
  · rfl

theorem precede_redirected (h : c.index < p.events.size) (hne : c'.index ≠ c.index)
    {outer : Option Nat} (hat : p.events[c'.index]? = some (.start k' outer)) :
    (p.redirected c k n).precede c' = ((p.precede c').1, (p.precede c').2.redirected c k n) := by
  have hat' : (p.redirected c k n).events[c'.index]? = some (.start k' outer) :=
    (getElem?_redirect_of_ne hne ..).trans hat
  rw [precede_eq hat, precede_eq hat']
  unfold redirected
  dsimp only
  rw [size_redirect, redirect_push h, redirect_write hne]

end Parser

namespace Session

variable {s s' : Session} {tokens : List Token} {call : Call} {calls : List Call} {c : Completed}
  {k : Kind} {n : Nat}

/-- **A session in the log of which a start is redirected.** -/
def redirected (s : Session) (c : Completed) (k : Kind) (n : Nat) : Session :=
  { s with parser := s.parser.redirected c k n }

theorem Sound.index_lt (hs : s.Sound) (hc : c ∈ s.completed) :
    c.index < s.parser.events.size := by
  obtain ⟨k, outer, hat⟩ := hs.completed c hc
  exact (Array.getElem?_eq_some_iff.mp hat).1

/-- A node that is not preceded is another one than those that are. -/
private theorem index_ne_of_ne {c' : Completed} (h : Call.precede c' ≠ .precede c) :
    c'.index ≠ c.index :=
  fun heq => h (congrArg (fun i => Call.precede ⟨i⟩) heq)

/-- **A call does the same with a start that is redirected**, unless it precedes the node. -/
theorem Sound.step?_redirected (hs : s.Sound) (hc : c ∈ s.completed) (hne : call ≠ .precede c)
    (h : s.step? call = some s') (k : Kind) (n : Nat) :
    (s.redirected c k n).step? call = some (s'.redirected c k n) := by
  have hlt := hs.index_lt hc
  have hparser : ∀ {p p' : Parser}, p = p' →
      some { s with parser := p } = some { s with parser := p' } :=
    congrArg fun p => some { s with parser := p }
  cases call with
  | bumpAs k' =>
    cases h
    exact hparser (Parser.bumpAs_redirected hlt k')
  | bump =>
    cases h
    exact hparser (Parser.bumpAs_redirected hlt _)
  | eat k' =>
    cases h
    exact hparser (Parser.eat_redirected hlt k')
  | error fault =>
    cases h
    rfl
  | start =>
    cases h
    show some { s.redirected c k n with
      parser := (s.parser.redirected c k n).start.2
      opened := (s.parser.redirected c k n).start.1 :: s.opened } = _
    rw [Parser.start_redirected hlt]
    rfl
  | complete m k' =>
    obtain ⟨hm, h⟩ := Option.ite_none_right_eq_some.mp h
    cases h
    show (if m ∈ s.opened then some (Session.mk ((s.parser.redirected c k n).complete m k').2 _
      (((s.parser.redirected c k n).complete m k').1 :: _)) else none) = _
    rw [if_pos hm, Parser.complete_redirected hlt (hs.index_ne hm hc)]
    rfl
  | abandon m =>
    obtain ⟨hm, h⟩ := Option.ite_none_right_eq_some.mp h
    cases h
    show (if m ∈ s.opened then some (Session.mk ((s.parser.redirected c k n).abandon m) _ _)
      else none) = _
    rw [if_pos hm, Parser.abandon_redirected hlt (hs.index_ne hm hc)]
    rfl
  | precede c' =>
    obtain ⟨hc', h⟩ := Option.ite_none_right_eq_some.mp h
    cases h
    obtain ⟨k', outer, hat⟩ := hs.completed c' hc'
    show (if c' ∈ s.completed then some (Session.mk ((s.parser.redirected c k n).precede c').2
      (((s.parser.redirected c k n).precede c').1 :: _) _) else none) = _
    rw [if_pos hc', Parser.precede_redirected hlt (index_ne_of_ne hne) hat]
    rfl

/-- A completed node stays completed, and its start stays as it is unless the node is preceded. -/
theorem Sound.kept_of_step? (hs : s.Sound) (hc : c ∈ s.completed) (hne : call ≠ .precede c)
    (h : s.step? call = some s') :
    c ∈ s'.completed ∧ s'.parser.events[c.index]? = s.parser.events[c.index]? := by
  have hlt := hs.index_lt hc
  cases call with
  | bumpAs k' =>
    cases h
    exact ⟨hc, getElem?_events_bumpAs s.parser k' hlt⟩
  | bump =>
    cases h
    exact ⟨hc, getElem?_events_bumpAs s.parser _ hlt⟩
  | eat k' =>
    cases h
    refine ⟨hc, ?_⟩
    unfold Parser.eat
    split
    · exact getElem?_events_bumpAs s.parser _ hlt
    · rfl
  | error fault =>
    cases h
    exact ⟨hc, rfl⟩
  | start =>
    cases h
    exact ⟨hc, getElem?_push_of_lt hlt _⟩
  | complete m k' =>
    obtain ⟨hm, h⟩ := Option.ite_none_right_eq_some.mp h
    cases h
    refine ⟨List.mem_cons_of_mem _ hc, ?_⟩
    have hm' : m.index < s.parser.events.size :=
      (Array.getElem?_eq_some_iff.mp (hs.opened m hm)).1
    rw [getElem?_events_complete hm' hlt, if_neg (hs.index_ne hm hc).symm]
  | abandon m =>
    obtain ⟨hm, h⟩ := Option.ite_none_right_eq_some.mp h
    cases h
    exact ⟨hc, getElem?_events_abandon _ (hs.index_ne hm hc).symm⟩
  | precede c' =>
    obtain ⟨hc', h⟩ := Option.ite_none_right_eq_some.mp h
    cases h
    obtain ⟨k', outer, hat⟩ := hs.completed c' hc'
    refine ⟨hc, ?_⟩
    rw [getElem?_events_precede hat, if_neg (index_ne_of_ne hne).symm]
    exact getElem?_push_of_lt hlt _

/-- The start of a node that has just been completed refers to no other place. -/
theorem Sound.completed_of_step? (hs : s.Sound) (h : s.step? call = some s')
    (hc : c ∈ s'.completed) :
    c ∈ s.completed ∨ ∃ k, s'.parser.events[c.index]? = some (.start k none) := by
  cases call with
  | complete m k' =>
    obtain ⟨hm, h⟩ := Option.ite_none_right_eq_some.mp h
    cases h
    have hm' : m.index < s.parser.events.size :=
      (Array.getElem?_eq_some_iff.mp (hs.opened m hm)).1
    rcases List.mem_cons.mp hc with rfl | hc
    · exact Or.inr ⟨k', (getElem?_events_complete hm' hm' k').trans (if_pos rfl)⟩
    · exact Or.inl hc
  | abandon m =>
    obtain ⟨-, h⟩ := Option.ite_none_right_eq_some.mp h
    cases h
    exact Or.inl hc
  | precede c' =>
    obtain ⟨-, h⟩ := Option.ite_none_right_eq_some.mp h
    cases h
    exact Or.inl hc
  | _ =>
    cases h
    exact Or.inl hc

/-- **A session goes on as before, apart from the redirected start**, unless the node is
preceded. -/
theorem Sound.play?_redirected (hs : s.Sound) (hc : c ∈ s.completed) (hne : .precede c ∉ calls)
    (h : s.play? calls = some s') (k : Kind) (n : Nat) :
    (s.redirected c k n).play? calls = some (s'.redirected c k n) := by
  induction calls generalizing s with
  | nil =>
    cases h
    rfl
  | cons call calls ih =>
    obtain ⟨s₁, hstep, hrest⟩ := play?_cons_eq_some_iff.mp h
    obtain ⟨hcall, hcalls⟩ := List.ne_and_not_mem_of_not_mem_cons hne
    have hc₁ := (hs.kept_of_step? hc hcall.symm hstep).1
    exact play?_cons_eq_some_iff.mpr
      ⟨_, hs.step?_redirected hc hcall.symm hstep k n, ih (hs.step hstep) hc₁ hcalls hrest⟩

theorem Sound.kept_of_play? (hs : s.Sound) (hc : c ∈ s.completed) (hne : .precede c ∉ calls)
    (h : s.play? calls = some s') :
    c ∈ s'.completed ∧ s'.parser.events[c.index]? = s.parser.events[c.index]? := by
  induction calls generalizing s with
  | nil =>
    cases h
    exact ⟨hc, rfl⟩
  | cons call calls ih =>
    obtain ⟨s₁, hstep, hrest⟩ := play?_cons_eq_some_iff.mp h
    obtain ⟨hcall, hcalls⟩ := List.ne_and_not_mem_of_not_mem_cons hne
    obtain ⟨hc₁, hkept⟩ := hs.kept_of_step? hc hcall.symm hstep
    obtain ⟨hc', hkept'⟩ := ih (hs.step hstep) hc₁ hcalls hrest
    exact ⟨hc', hkept'.trans hkept⟩

/-- The start of a node that was never preceded refers to no other place. -/
theorem Sound.completed_of_play? (hs : s.Sound) (hne : .precede c ∉ calls)
    (h : s.play? calls = some s') (hc : c ∈ s'.completed) :
    c ∈ s.completed ∨ ∃ k, s'.parser.events[c.index]? = some (.start k none) := by
  induction calls generalizing s with
  | nil =>
    cases h
    exact Or.inl hc
  | cons call calls ih =>
    obtain ⟨s₁, hstep, hrest⟩ := play?_cons_eq_some_iff.mp h
    obtain ⟨hcall, hcalls⟩ := List.ne_and_not_mem_of_not_mem_cons hne
    have hs₁ := hs.step hstep
    rcases ih hs₁ hcalls hrest with hc₁ | hfresh
    · rcases hs.completed_of_step? hstep hc₁ with hc₀ | ⟨k, hat⟩
      · exact Or.inl hc₀
      · exact Or.inr ⟨k, (hs₁.kept_of_play? hc₁ hcalls hrest).2.trans hat⟩
    · exact Or.inr hfresh

/-- **What a node that is opened around another one and given back leaves behind.** -/
theorem Sound.play?_precede_abandon (hs : s.Sound) (hc : c ∈ s.completed)
    (hat : s.parser.events[c.index]? = some (.start k none)) :
    s.play? [.precede c, .abandon ⟨s.parser.events.size⟩] =
      some (s.redirected c k s.parser.events.size) := by
  have hlt := hs.index_lt hc
  have hpop : (((s.parser.events.push .placeholder).setIfInBounds c.index
      (.start k (some s.parser.events.size))).pop) =
        redirect s.parser.events c.index k s.parser.events.size := by
    have hpush := redirect_push (k := k) (n := s.parser.events.size) hlt .placeholder
    unfold redirect at hpush ⊢
    rw [← hpush, Array.pop_push]
  have hprecede : s.step? (.precede c) = some { s with
      parser := (s.parser.precede c).2, opened := (s.parser.precede c).1 :: s.opened } :=
    if_pos hc
  refine play?_cons_eq_some_iff.mpr ⟨_, hprecede, play?_cons_eq_some_iff.mpr ⟨_, ?_, rfl⟩⟩
  rw [Parser.precede_eq hat]
  unfold step? redirected Parser.abandon Parser.redirected
  simp [hpop]

/-! ### What comes of it -/

/-- **The log of a session is regular.** -/
theorem regular_of_play? (h : (ofTokens tokens).play? calls = some s) :
    Regular tokens s.parser.events := by
  have hempty : ∀ m, places #[] m = ∅ := fun m =>
    Finset.eq_empty_of_forall_notMem fun i hi => Nat.not_lt_zero i (lt_size_of_mem_places hi)
  have hstart : ∃ f, Matched #[] f := by
    refine ⟨id, ?_, ?_⟩
    · rw [hempty, hempty, Finset.coe_empty]
      exact Set.bijOn_empty id
    · rw [hempty]
      nofun
  have hleaves : (places #[] .leaf).card + tokens.length = tokens.length := by
    rw [hempty, Finset.card_empty, Nat.zero_add]
  obtain ⟨hmatched, hcard⟩ := play_induction
    (P := fun ts log => (∃ f, Matched log f) ∧ (places log .leaf).card + ts.length = tokens.length)
    (fun _ _ _ _ hw hP => ⟨hw.matched hP.1, hw.leaves.trans hP.2⟩)
    (sound_ofTokens tokens) h ⟨hstart, hleaves⟩
  exact ⟨hmatched, by omega⟩

/-- A completed node ends behind its start. -/
theorem Sound.exists_closing (hs : s.Sound) (hmatched : ∃ f, Matched s.parser.events f)
    (hc : c ∈ s.completed) : ∃ q ∈ places s.parser.events .closing, c.index < q := by
  obtain ⟨f, hf⟩ := hmatched
  obtain ⟨k, outer, hat⟩ := hs.completed c hc
  obtain ⟨q, hq, heq⟩ := hf.bij.surjOn (mem_places_opening.mpr ⟨k, outer, hat⟩)
  exact ⟨q, hq, heq ▸ hf.lt q hq⟩

end Session

/-- **What comes of a node that is opened around a completed one and given back.**  The log is
the same but for the start of the completed node, which refers to the place that was freed. -/
structure GivenBack (tokens : List Token) (log log' : Array Event) (c : Completed) (n : Nat)
    (t : Tree) : Prop where
  /-- Nothing else is different. -/
  redirected : ∃ k, log[c.index]? = some (.start k none) ∧ log' = redirect log c.index k n
  /-- The tree is the same if at some time a replay finds the start of the node, and nothing at the
  place that was freed. -/
  unchanged : ∀ i k, (replayed tokens log i).log[c.index]? = some (.start k none) →
    (replayed tokens log i).log[n]? = some .placeholder → Tree.ofEvents? tokens log' = some t
  /-- The tree is the same only then, where no other start refers to the place and all nodes
  are closed in the end. -/
  unchanged_iff : n < log.size → (∀ (i : Nat) k, log[i]? ≠ some (Event.start k (some n))) →
    (replayed tokens log log.size).builder.frames = [] →
      (Tree.ofEvents? tokens log' = some t ↔ log[n]? = some .placeholder)

/-- **Opening a node around a completed one and giving it back**, at any time, and where the node is
not preceded otherwise.  The calls behind can go on, and leave the same markers; but the tree need
not be the same. -/
theorem givenBack_of_calls {tokens : List Token} {front back : List Call} {s₁ s : Session}
    {c : Completed} {t : Tree} (hfront : (Session.ofTokens tokens).play? front = some s₁)
    (hback : s₁.play? back = some s) (hopened : s.opened = [])
    (htree : Tree.ofEvents? tokens s.parser.events = some t) (hc : c ∈ s₁.completed)
    (hne : .precede c ∉ front ++ back) :
    ∃ s', (Session.ofTokens tokens).play?
        (front ++ .precede c :: .abandon ⟨s₁.parser.events.size⟩ :: back) = some s' ∧
      s'.opened = [] ∧
      GivenBack tokens s.parser.events s'.parser.events c s₁.parser.events.size t := by
  have hs₁ := (Session.sound_ofTokens tokens).play hfront
  rw [List.mem_append, not_or] at hne
  obtain ⟨hnefront, hneback⟩ := hne
  -- the node was never preceded, and stays as it is
  obtain ⟨k, hat₁⟩ : ∃ k, s₁.parser.events[c.index]? = some (.start k none) :=
    ((Session.sound_ofTokens tokens).completed_of_play? hnefront hfront hc).resolve_left nofun
  have hat : s.parser.events[c.index]? = some (.start k none) :=
    (hs₁.kept_of_play? hc hneback hback).2.trans hat₁
  have hrest : s₁.play? ([.precede c, .abandon ⟨s₁.parser.events.size⟩] ++ back) =
      some (s.redirected c k s₁.parser.events.size) :=
    Session.play?_append_eq_some_iff.mpr
      ⟨_, hs₁.play?_precede_abandon hc hat₁, hs₁.play?_redirected hc hneback hback k _⟩
  have hplay := Session.play?_append_eq_some_iff.mpr ⟨s₁, hfront, hrest⟩
  -- it ended in front of the place that was freed
  have hregular : Regular tokens s.parser.events :=
    Session.regular_of_play? (Session.play?_append_eq_some_iff.mpr ⟨s₁, hfront, hback⟩)
  obtain ⟨q, hq, hcq⟩ := hs₁.exists_closing (Session.regular_of_play? hfront).matched hc
  have hqn := lt_size_of_mem_places hq
  have hq' : q ∈ places s.parser.events .closing :=
    Session.play_induction (P := fun _ log => q ∈ places log .closing)
      (fun _ _ _ _ hw h => hw.closing h) hs₁ hback hq
  have hunchanged : ∀ i k', (replayed tokens s.parser.events i).log[c.index]? =
      some (.start k' none) →
        (replayed tokens s.parser.events i).log[s₁.parser.events.size]? = some .placeholder →
          Tree.ofEvents? tokens (redirect s.parser.events c.index k s₁.parser.events.size) =
            some t := by
    intro i k' hi hn
    have hkind : some (Event.start k' none) = some (.start k none) :=
      ((used_replayed tokens _ i).stripped.eq_of_some hi nofun).symm.trans hat
    cases hkind
    exact (ofEvents?_redirect_of_vacant hi (Or.inr hn)).trans htree
  refine ⟨_, hplay, hopened, ⟨k, hat, rfl⟩, hunchanged, fun hlt hfree hframes => ⟨?_, ?_⟩⟩
  · intro hsame
    have hvacant := vacant_of_ofEvents?_redirect hregular hat hq' hcq hqn hfree htree hframes hsame
    refine hvacant.resolve_left fun hnone => ?_
    exact absurd (Array.getElem?_eq_none_iff.mp hnone) (Nat.not_le_of_lt hlt)
  · exact hunchanged 0 k hat

/-- In front of a node that is opened next, and given back when a token stands in it, the two calls
are harmless. -/
theorem givenBack_of_idleNeighbour :
    let tokens : List Token := [⟨.word, "a".toList⟩]
    let back := [Call.start, .bump, .abandon ⟨3⟩, .complete ⟨0⟩ .root]
    ∃ s, (Session.ofTokens tokens).play?
        ([.start, .start, .complete ⟨1⟩ .value] ++ .precede ⟨1⟩ :: .abandon ⟨3⟩ :: back) = some s ∧
      s.opened = [] ∧ Tree.ofEvents? tokens s.parser.events =
        some (.node .root [.node .value [], .token .word "a".toList]) := by
  intro tokens back
  let log : Array Event :=
    #[.start .root none, .start .value none, .finish, .placeholder, .token .word, .finish]
  let s₁ : Session :=
    ⟨⟨tokens, 0, #[.placeholder, .start .value none, .finish], #[]⟩, [⟨0⟩], [⟨1⟩]⟩
  let s₂ : Session := ⟨⟨[], 1, log, #[]⟩, [], [⟨0⟩, ⟨1⟩]⟩
  have hfront :
      (Session.ofTokens tokens).play? [.start, .start, .complete ⟨1⟩ .value] = some s₁ := rfl
  have hback : s₁.play? back = some s₂ := rfl
  have htree : Tree.ofEvents? tokens log =
      some (.node .root [.node .value [], .token .word "a".toList]) := by
    simp [Tree.ofEvents?, Replay.step, takeOuter, Builder.start, Builder.add, Builder.finish,
      Builder.result?, List.range, List.range.loop, tokens, log]
  have hcompleted : (⟨1⟩ : Completed) ∈ s₁.completed := by decide
  obtain ⟨s, hplay, hopened, -, -, hiff⟩ :=
    givenBack_of_calls hfront hback rfl htree hcompleted (by decide)
  have hfree : ∀ (i : Nat) k, log[i]? ≠ some (Event.start k (some 3)) := by
    intro i k hi
    have hmem := Array.mem_of_getElem? hi
    simp [log] at hmem
  have hframes :
      (replayed tokens s₂.parser.events s₂.parser.events.size).builder.frames = [] := by
    simp [replayed, Replay.step, takeOuter, Builder.start, Builder.add, Builder.finish, List.range,
      List.range.loop, tokens, s₂, log]
  exact ⟨s, hplay, hopened, (hiff (by decide) hfree hframes).mpr rfl⟩

/-- In front of another node the two calls are not harmless: the other node is put around the
completed one, which it stood behind. -/
theorem not_unchanged_beforeNode :
    let front := [Call.start, .start, .complete ⟨1⟩ .value]
    let back := [Call.start, .complete ⟨3⟩ .error, .complete ⟨0⟩ .root]
    ∃ s s', (Session.ofTokens []).play? (front ++ back) = some s ∧ s.opened = [] ∧
      Tree.ofEvents? [] s.parser.events = some (.node .root [.node .value [], .node .error []]) ∧
      (Session.ofTokens []).play? (front ++ .precede ⟨1⟩ :: .abandon ⟨3⟩ :: back) = some s' ∧
      s'.opened = [] ∧
      Tree.ofEvents? [] s'.parser.events =
        some (.node .root [.node .error [.node .value []]]) := by
  intro front back
  let log := fun outer => #[Event.start .root none, .start .value outer, .finish,
    .start .error none, .finish, .finish]
  refine ⟨⟨⟨[], 0, log none, #[]⟩, [], [⟨0⟩, ⟨3⟩, ⟨1⟩]⟩,
    ⟨⟨[], 0, log (some 3), #[]⟩, [], [⟨0⟩, ⟨3⟩, ⟨1⟩]⟩, rfl, rfl, ?_, rfl, rfl, ?_⟩
  all_goals
    simp [Tree.ofEvents?, Replay.step, takeOuter, Builder.start, Builder.add, Builder.finish,
      Builder.result?, List.range, List.range.loop, log]

end Syntax
end Uci
