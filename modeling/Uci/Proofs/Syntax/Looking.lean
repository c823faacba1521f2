import Uci.Proofs.Syntax.Rounds

/-!
# A replay, one look at a time

A replay follows references that may lead anywhere in its log, backwards and in circles too.  To see
that it comes to an end, it is taken apart into looks.  A look finds the event at an index and puts
a placeholder there.  Nothing in a look says that there will be a last one; but each look ends a
round or takes a start out of the log, so that there are at most as many as the log has events and
starts.  A look breaks off where there is no index, which does not happen if all references are in
range.

## Main definitions

* `InRange` — every start refers to an index of the log.
* `Walker`, `Walker.look?` — a replay between two looks, and one look.
* `Walker.run?` — a run of so many looks at most.
* `UsedOnce` — **every event is used once**: what a replay does about each event of its log.

## Main results

* `looks_climb`, `looks_round` — the looks of a chain, and those of a round.
* `run?_ofEvents` — **a run comes to its end**, with the rounds of the replay.
* `usedOnce_of_inRange` — every event is used once, and the tokens are taken in their order.
-/

namespace Uci
namespace Syntax

/-- **All references of a log are in range**, wherever they point. -/
def InRange (log : Array Event) : Prop :=
  ∀ (i : Nat) (k : Kind) (j : Nat), log[i]? = some (.start k (some j)) → j < log.size

/-- **A replay between two looks.** -/
structure Walker where
  /-- What is left of the log. -/
  log : Array Event
  /-- The tokens that are left. -/
  tokens : List Token
  /-- What was done in the rounds that are over. -/
  past : List (List Act) := []
  /-- The starts of a chain that were taken so far, the outermost first, and the index that the
  chain leads to next. -/
  chain : Option (List Act × Nat) := none

namespace Walker

/-- A walker in front of a log. -/
def ofEvents (tokens : List Token) (log : Array Event) : Walker := { log, tokens }

/-- Leaves a placeholder at an index. -/
def clear (w : Walker) (i : Nat) : Walker := { w with log := w.log.setIfInBounds i .placeholder }

/-- Ends a round with what was done in it. -/
def close (w : Walker) (acts : List Act) : Walker :=
  { w with past := w.past ++ [acts], chain := none }

/-- Goes on to the outer start of the last one of a chain, and ends the round if there is none. -/
def climb (w : Walker) (acts : List Act) : Option Nat → Walker
  | some i => { w with chain := some (acts, i) }
  | none => w.close acts

/-- **One look.**  It breaks off outside of the log. -/
def look? (w : Walker) : Option Walker :=
  match w.chain with
  | some (acts, i) =>
    w.log[i]?.map fun
      | .start k outer => (w.clear i).climb (⟨i, .opens k⟩ :: acts) outer
      | _ => (w.clear i).close acts
  | none =>
    let i := w.past.length
    w.log[i]?.map fun
      | .start k outer => (w.clear i).climb [⟨i, .opens k⟩] outer
      | .token k =>
        { (w.clear i).close [⟨i, .takes k w.tokens.head?⟩] with tokens := w.tokens.tail }
      | .finish => (w.clear i).close [⟨i, .closes⟩]
      | .placeholder => (w.clear i).close []

/-- Is every round over? -/
def atRest (w : Walker) : Bool := w.chain.isNone && w.past.length == w.log.size

/-- **A run of at most so many looks.**  There is none if it breaks off, or is not over by then. -/
def run? : Nat → Walker → Option Walker
  | 0, w => if w.atRest then some w else none
  | n + 1, w => if w.atRest then some w else w.look?.bind (run? n)

/-- So many looks lead from one walker to another. -/
inductive Looks : Nat → Walker → Walker → Prop
  | refl (w : Walker) : Looks 0 w w
  | head {n : Nat} {w w₁ w' : Walker} (h : w.look? = some w₁) (h' : Looks n w₁ w') :
    Looks (n + 1) w w'

variable {w w' w'' : Walker} {log : Array Event} {tokens : List Token} {acts : List Act}
  {rs : List (List Act)} {o outer : Option Nat} {i k m n : Nat}

theorem Looks.trans (h : Looks m w w') (h' : Looks n w' w'') : Looks (m + n) w w'' := by
  induction h with
  | refl w => rwa [Nat.zero_add]
  | head hlook _ ih =>
    rw [Nat.add_right_comm]
    exact .head hlook (ih h')

/-- There is nothing to look at any more. -/
theorem look?_of_atRest (h : w.atRest = true) : w.look? = none := by
  obtain ⟨log, tokens, rs, chain⟩ := w
  simp only [atRest, Bool.and_eq_true, Option.isNone_iff_eq_none, beq_iff_eq] at h
  obtain ⟨rfl, hlength⟩ := h
  have hnone : log[rs.length]? = none := Array.getElem?_eq_none (Nat.le_of_eq hlength.symm)
  simp only [look?, hnone, Option.map_none]

/-- **A run is over** when no look is left and it was long enough. -/
theorem run?_of_looks (h : Looks n w w') (hrest : w'.atRest = true) (hn : n ≤ m) :
    w.run? m = some w' := by
  induction h generalizing m with
  | refl w =>
    cases m with
    | zero => rw [run?, if_pos hrest]
    | succ m => rw [run?, if_pos hrest]
  | @head n w w₁ w' hlook _ ih =>
    have hgoes : ¬w.atRest = true := by
      intro hw
      rw [look?_of_atRest hw] at hlook
      cases hlook
    cases m with
    | zero => exact absurd hn (Nat.not_succ_le_zero n)
    | succ m =>
      rw [run?, if_neg hgoes, hlook]
      exact ih hrest (Nat.le_of_succ_le_succ hn)

end Walker

/-! ### References in range -/

section Range

variable {log log' : Array Event} {o : Option Nat} {i : Nat}

theorem InRange.of_stripped (h : InRange log) (hlog : Stripped log log')
    (hsize : log'.size = log.size) : InRange log' := by
  intro i k j hi
  rw [hsize]
  exact h i k j (hlog.eq_of_some hi nofun)

theorem InRange.clear (h : InRange log) (i : Nat) : InRange (log.setIfInBounds i .placeholder) :=
  h.of_stripped (stripped_clear log i) Array.size_setIfInBounds

/-- Where a start that is taken leads to. -/
theorem InRange.outer_lt {k : Kind} {outer : Option Nat} (h : InRange log)
    (hi : log[i]? = some (.start k outer)) :
    ∀ j, outer = some j → j < (log.setIfInBounds i .placeholder).size := by
  rintro j rfl
  rw [Array.size_setIfInBounds]
  exact h i k j hi

theorem size_takeOuter (log : Array Event) (o : Option Nat) :
    (takeOuter log o).2.size = log.size := by
  induction log, o using takeOuter_induction with
  | none log => rw [takeOuter_none]
  | start log i k outer h ih =>
    rw [takeOuter_start h]
    exact ih.trans Array.size_setIfInBounds
  | stop log i h =>
    rw [takeOuter_stop h]
    exact Array.size_setIfInBounds

theorem size_replayed (tokens : List Token) (log : Array Event) (n : Nat) :
    (replayed tokens log n).log.size = log.size := by
  induction n with
  | zero => rfl
  | succ n ih => rw [replayed_succ, Replay.log_step, size_takeOuter, ih]

/-- Clearing a place brings no start into a log. -/
theorem countP_isStart_clear_le (log : Array Event) (i : Nat) :
    (log.setIfInBounds i .placeholder).countP Event.isStart ≤ log.countP Event.isStart := by
  by_cases h : ∃ k outer, log[i]? = some (.start k outer)
  · obtain ⟨k, outer, h⟩ := h
    exact Nat.le_of_lt (countP_isStart_lt h)
  · by_cases hi : i < log.size
    · rw [Array.setIfInBounds_def, dif_pos hi, Array.countP_set]
      simp [Event.isStart]
    · rw [Array.setIfInBounds_eq_of_size_le (Nat.le_of_not_lt hi)]

end Range

/-! ### The looks of a replay -/

/-- A walker in front of a round. -/
def Replay.walker (r : Replay) (rs : List (List Act)) : Walker := { r with past := rs }

namespace Walker

variable {w w' : Walker} {log : Array Event} {o : Option Nat} {i n : Nat}

/-- One look, which takes no start. -/
theorem looks_one (h : w.look? = some w') (hlog : w'.log = w.log.setIfInBounds i .placeholder) :
    ∃ n, Looks n w w' ∧
      n + w'.log.countP Event.isStart ≤ w.log.countP Event.isStart + 1 := by
  have hle := countP_isStart_clear_le w.log i
  exact ⟨1, .head h (.refl w'), by rw [hlog]; omega⟩

/-- **The looks of a chain**: it comes to its end, wherever its starts refer to. -/
theorem looks_climb (tokens : List Token) (rs : List (List Act)) (acts : List Act)
    (hlog : InRange log) (ho : ∀ i, o = some i → i < log.size) :
    ∃ n, Looks n (climb ⟨log, tokens, rs, none⟩ acts o)
        ⟨(takeOuter log o).2, tokens, rs ++ [climbed log o ++ acts], none⟩ ∧
      n + (takeOuter log o).2.countP Event.isStart ≤ log.countP Event.isStart + 1 := by
  induction log, o using takeOuter_induction generalizing acts with
  | none log =>
    rw [takeOuter_none, climbed_none]
    exact ⟨0, .refl _, by dsimp only; omega⟩
  | start log i k outer h ih =>
    obtain ⟨n, hlooks, hn⟩ := ih (⟨i, .opens k⟩ :: acts) (hlog.clear i) (hlog.outer_lt h)
    have hlook : (climb ⟨log, tokens, rs, none⟩ acts (some i)).look? =
        some (climb ⟨log.setIfInBounds i .placeholder, tokens, rs, none⟩
          (⟨i, .opens k⟩ :: acts) outer) := by
      simp only [look?, climb, h, Option.map_some]
      cases outer <;> rfl
    -- a start is gone from the log
    have hlt := countP_isStart_lt h
    rw [takeOuter_start h, climbed_start h, List.append_assoc]
    exact ⟨n + 1, .head hlook hlooks, by dsimp only; omega⟩
  | stop log i h =>
    have hi := ho i rfl
    have hlook : (climb ⟨log, tokens, rs, none⟩ acts (some i)).look? =
        some ⟨log.setIfInBounds i .placeholder, tokens, rs ++ [acts], none⟩ := by
      have hsome : log[i]? = some log[i] := Array.getElem?_eq_getElem hi
      simp only [look?, climb, hsome, Option.map_some]
      cases he : log[i] with
      | start k outer => exact absurd (hsome.trans (congrArg some he)) (h k outer)
      | _ => rfl
    rw [takeOuter_stop h, climbed_stop h]
    exact looks_one hlook rfl

/-- **The looks of a round.** -/
theorem looks_round (r : Replay) (rs : List (List Act)) (hlog : InRange r.log)
    (hi : rs.length < r.log.size) :
    ∃ n, Looks n (r.walker rs) ((r.step rs.length).walker (rs ++ [r.round rs.length])) ∧
      n + (r.step rs.length).log.countP Event.isStart ≤ r.log.countP Event.isStart + 1 := by
  have hstep := r.stepped_step rs.length
  generalize r.step rs.length = r' at hstep ⊢
  cases hstep with
  | @start k outer h =>
    obtain ⟨n, hlooks, hn⟩ :=
      looks_climb r.tokens rs [⟨rs.length, .opens k⟩] (hlog.clear rs.length) (hlog.outer_lt h)
    have hlook : (r.walker rs).look? =
        some (climb ⟨r.log.setIfInBounds rs.length .placeholder, r.tokens, rs, none⟩
          [⟨rs.length, .opens k⟩] outer) := by
      simp only [look?, Replay.walker, h, Option.map_some]
      cases outer <;> rfl
    have hlt := countP_isStart_lt h
    rw [Replay.round_start h, climbed_start h]
    exact ⟨n + 1, .head hlook hlooks, by dsimp only; omega⟩
  | token h ht =>
    rw [Replay.round_token h, ht]
    refine looks_one ?_ rfl
    simp only [look?, Replay.walker, h, ht, Option.map_some]
    rfl
  | spare h ht =>
    rw [Replay.round_token h, ht]
    refine looks_one ?_ rfl
    simp only [look?, Replay.walker, h, ht, Option.map_some]
    rfl
  | finish h =>
    rw [Replay.round_finish h]
    refine looks_one ?_ rfl
    simp only [look?, Replay.walker, h, Option.map_some]
    rfl
  | idle h =>
    have hplaceholder : r.log[rs.length]? = some .placeholder :=
      h.resolve_left fun hnone => Nat.not_le_of_lt hi (Array.getElem?_eq_none_iff.mp hnone)
    rw [Replay.round_vacant h]
    refine looks_one ?_ (clear_of_vacant h).symm
    simp only [look?, Replay.walker, hplaceholder, Option.map_some, clear, clear_of_vacant h]
    rfl

/-- **The looks of the first rounds**: not more than rounds, and starts that are gone. -/
theorem looks_rounds (tokens : List Token) (h : InRange log) (hn : n ≤ log.size) :
    ∃ m, Looks m (ofEvents tokens log)
        ((replayed tokens log n).walker (rounds tokens log n)) ∧
      m + (replayed tokens log n).log.countP Event.isStart ≤
        log.countP Event.isStart + n := by
  induction n with
  | zero => exact ⟨0, .refl _, by rw [Nat.zero_add]; rfl⟩
  | succ n ih =>
    obtain ⟨m, hlooks, hm⟩ := ih (Nat.le_of_succ_le hn)
    have hsize := size_replayed tokens log n
    have hlog := h.of_stripped (stripped_replayed tokens log (Nat.zero_le n)) hsize
    obtain ⟨m', hlooks', hm'⟩ := looks_round (replayed tokens log n) (rounds tokens log n) hlog
      (by rw [length_rounds, hsize]; exact hn)
    rw [length_rounds, ← replayed_succ, ← rounds_succ] at hlooks'
    rw [length_rounds, ← replayed_succ] at hm'
    exact ⟨m + m', hlooks.trans hlooks', by omega⟩

/-- **A run comes to its end**, with not more looks than there are events and starts. -/
theorem run?_ofEvents (tokens : List Token) (h : InRange log) :
    (ofEvents tokens log).run? (log.size + log.countP Event.isStart) =
      some ((replayed tokens log log.size).walker (rounds tokens log log.size)) := by
  obtain ⟨m, hlooks, hm⟩ := looks_rounds tokens h (Nat.le_refl log.size)
  refine run?_of_looks hlooks ?_ (by omega)
  simp [atRest, Replay.walker, size_replayed]

end Walker

/-! ### What comes of it -/

/-- **Every event of a log is used once.**  The rounds are what a replay does in the course of its
walk over the log. -/
structure UsedOnce (tokens : List Token) (log : Array Event) (rounds : List (List Act)) :
    Prop where
  /-- There is a round for every event. -/
  length : rounds.length = log.size
  /-- What is done about an event is what it says. -/
  deeds : ∀ a ∈ rounds.flatten, ∃ e, log[a.index]? = some e ∧ e.Says a.deed
  /-- **No event is acted on twice.** -/
  nodup : (rounds.flatten.map Act.index).Nodup
  /-- **Every start opens one node**, in the first round that reaches it: at its own place, or above
  the start whose chain has come to it. -/
  start : ∀ (i : Nat) (k : Kind) (outer : Option Nat), log[i]? = some (.start k outer) →
    (rounds.flatten.map Act.index).count i = 1 ∧
      ∃ (j : Nat) (acts : List Act), rounds[j]? = some acts ∧ ⟨i, .opens k⟩ ∈ acts ∧
        Opening log j acts ∧ Reached log (j + 1) i ∧ ¬Reached log j i
  /-- Another event is acted on in its own place, unless a start that was taken before refers to
  it. -/
  other : ∀ (i : Nat) (e : Event), log[i]? = some e → e.isStart = false → e ≠ .placeholder →
    (¬Reached log i i ∧ ∃ d, rounds[i]? = some [⟨i, d⟩]) ∨
      (Reached log i i ∧ i ∉ rounds.flatten.map Act.index)
  /-- **The tokens are taken in their order**, one for each token event that is acted on, until
  there are none left. -/
  taken : ∀ (n : Nat) (t : Option Token),
    (rounds.flatten.filterMap Act.taken?)[n]? = some t → t = tokens[n]?
  /-- The tree is what the acts make, one after the other. -/
  tree : Tree.ofEvents? tokens log = (Builder.performAll {} rounds.flatten).result?
  /-- **The leaves of the tree are the first tokens.** -/
  leaves : ∀ t, Tree.ofEvents? tokens log = some t →
    t.tokens = rounds.flatten.filterMap Act.leaf? ∧
      t.tokens.map Token.text <+: tokens.map Token.text

/-- **A replay of a log whose references are in range comes to its end**, with not more looks than
there are events and starts, and uses every event once. -/
theorem usedOnce_of_inRange (tokens : List Token) {log : Array Event} (h : InRange log) :
    ∃ w, (Walker.ofEvents tokens log).run? (log.size + log.countP Event.isStart) = some w ∧
      UsedOnce tokens log w.past := by
  refine ⟨_, Walker.run?_ofEvents tokens h, ?_⟩
  show UsedOnce tokens log (rounds tokens log log.size)
  have hnodup := nodup_rounds tokens log log.size
  refine ⟨length_rounds .., fun a ha => ?_, hnodup, fun i k outer hi => ?_,
    fun i e he hstart hne => ?_, fun n t ht => eq_of_taken_rounds ht,
    ofEvents?_eq_performAll tokens log,
    fun t ht => ⟨tokens_of_ofEvents? ht, texts_prefix_of_ofEvents? ht⟩⟩
  · obtain ⟨n, -, hmem⟩ := mem_flatten_rounds.mp ha
    exact (reached_of_mem_round hmem).2.2
  · have hlt := (Array.getElem?_eq_some_iff.mp hi).1
    obtain ⟨n, hn, hmem, hopening⟩ := exists_round_of_start tokens hi
    have hn' := Nat.lt_of_le_of_lt hn hlt
    have hflat : i ∈ (rounds tokens log log.size).flatten.map Act.index :=
      List.mem_map.mpr ⟨_, mem_flatten_rounds.mpr ⟨n, hn', hmem⟩, rfl⟩
    exact ⟨List.count_eq_one_of_mem hnodup hflat, n, _, getElem?_rounds hn', hmem, hopening⟩
  · by_cases hreached : Reached log i i
    · exact Or.inr ⟨hreached, notMem_rounds_of_reached he hstart hreached⟩
    · obtain ⟨d, hround⟩ := round_of_not_reached tokens he hstart hne hreached
      have hlt := (Array.getElem?_eq_some_iff.mp he).1
      exact Or.inl ⟨hreached, d, by rw [getElem?_rounds hlt, hround]⟩

/-- A start that refers to one behind it, which refers back; one that refers to itself; and one that
refers to an end, which is lost.  The second token event finds no token. -/
theorem usedOnce_of_cycle :
    let tokens : List Token := [⟨.word, "a".toList⟩]
    let log : Array Event := #[.start .root none, .start .value (some 3), .token .word,
      .start .section (some 1), .start .error (some 4), .finish, .token .word,
      .start .list (some 8), .finish, .finish, .finish, .finish, .finish]
    let past : List (List Act) := [[⟨0, .opens .root⟩],
      [⟨3, .opens .section⟩, ⟨1, .opens .value⟩],
      [⟨2, .takes .word (some ⟨.word, "a".toList⟩)⟩], [], [⟨4, .opens .error⟩], [⟨5, .closes⟩],
      [⟨6, .takes .word none⟩], [⟨7, .opens .list⟩], [], [⟨9, .closes⟩], [⟨10, .closes⟩],
      [⟨11, .closes⟩], [⟨12, .closes⟩]]
    InRange log ∧
      ((Walker.ofEvents tokens log).run? 18).map Walker.past = some past ∧
      UsedOnce tokens log past ∧
      Tree.ofEvents? tokens log = some (.node .root [.node .section [.node .value
        [.token .word "a".toList, .node .error [], .node .list []]]]) := by
  intro tokens log past
  have hrange : InRange log := by
    intro i k j hi
    have hmem := Array.mem_of_getElem? hi
    simp only [log, List.mem_toArray, List.mem_cons, Event.start.injEq, Option.some.injEq,
      reduceCtorEq, List.not_mem_nil, or_false, false_or, and_false] at hmem
    show j < 13
    omega
  have hpast : ((Walker.ofEvents tokens log).run? 18).map Walker.past = some past := by
    decide +kernel
  have hlooks : log.size + log.countP Event.isStart = 18 := by decide +kernel
  obtain ⟨w, hrun, hused⟩ := usedOnce_of_inRange tokens hrange
  have hw : some w.past = some past := by
    rw [← hpast, ← hlooks, hrun]
    rfl
  rw [Option.some.inj hw] at hused
  refine ⟨hrange, hpast, hused, ?_⟩
  rw [hused.tree]
  rfl

end Syntax
end Uci
