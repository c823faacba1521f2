import Mathlib.Data.Finset.Card
import Mathlib.Data.Set.Function
import Uci.Proofs.Syntax.Reading

/-!
# The marks of a tree

A tree without what its nodes are and what its tokens say is a word of marks: a node opens, a token
stands here, a node closes.  A replay writes this word from left to right, and each event writes
its own marks: a start opens its node and the nodes around that, a token or an end writes the one
mark that it stands for, unless no token is left or no node is open.  So trees can be told apart by
the events that were acted on.

## Main definitions

* `Mark`, `Tree.marks`, `Builder.marks` — the word of a tree, and that of a tree in the making.
* `places` — where the events with a mark stand in a log.
* `Matched` — every node that starts in a log ends behind its start.
* `replayed` — a replay after some of its steps.

## Main results

* `count_marks_of_result?` — what a builder has closed is in the tree that it made.
* `count_opening_step` — every start that leaves the log opens a node.
* `marks_step_of_acts`, `count_step_of_not_acts` — **the other marks are written by the events that
  stand for them.**
-/

namespace Uci
namespace Syntax

/-- **Mark** in the word of a tree. -/
inductive Mark where
  | opening
  | leaf
  | closing
  deriving DecidableEq, Repr

namespace Tree

mutual

/-- **The word of a tree.** -/
def marks : Tree → List Mark
  | token _ _ => [.leaf]
  | node _ ts => .opening :: (marksOfList ts ++ [.closing])

/-- The words of trees, one behind the other. -/
def marksOfList : List Tree → List Mark
  | [] => []
  | t :: ts => t.marks ++ marksOfList ts

end

@[simp] theorem marks_token (k : Kind) (t : Text) : (token k t).marks = [.leaf] := by
  rw [marks]

@[simp] theorem marks_node (k : Kind) (ts : List Tree) :
    (node k ts).marks = .opening :: (ts.flatMap marks ++ [.closing]) := by
  have hlist : marksOfList ts = ts.flatMap marks := by
    induction ts with
    | nil => rfl
    | cons t ts ih => rw [marksOfList, ih, List.flatMap_cons]
  rw [marks, hlist]

mutual

/-- Every node that opens closes. -/
theorem count_opening : ∀ t : Tree, t.marks.count .opening = t.marks.count .closing
  | token _ _ => by simp
  | node _ ts => by simp [count_opening_list ts]

theorem count_opening_list :
    ∀ ts : List Tree, (ts.flatMap marks).count .opening = (ts.flatMap marks).count .closing
  | [] => rfl
  | t :: ts => by
    rw [List.flatMap_cons, List.count_append, List.count_append, count_opening t,
      count_opening_list ts]

end

end Tree

namespace Builder

variable {b : Builder} {t : Tree}

/-- **The word of a tree in the making.** -/
def marks (b : Builder) : List Mark :=
  b.done.reverse.flatMap Tree.marks ++
    b.frames.reverse.flatMap fun f => .opening :: f.2.reverse.flatMap Tree.marks

theorem marks_start (b : Builder) (k : Kind) : (b.start k).marks = b.marks ++ [.opening] := by
  simp [marks, start]

theorem marks_add (b : Builder) (t : Tree) : (b.add t).marks = b.marks ++ t.marks := by
  obtain ⟨done, frames⟩ := b
  cases frames with
  | nil => simp [marks, add]
  | cons f frames => simp [marks, add]

theorem finish_of_nil (h : b.frames = []) : b.finish = b := by
  obtain ⟨done, frames⟩ := b
  obtain rfl : frames = [] := h
  rfl

theorem marks_finish (h : b.frames ≠ []) : b.finish.marks = b.marks ++ [.closing] := by
  obtain ⟨done, frames⟩ := b
  cases frames with
  | nil => exact absurd rfl h
  | cons f frames =>
    rw [finish, marks_add, Tree.marks_node]
    simp [marks]

/-- Closing a node, if one is open, writes no other mark. -/
theorem count_marks_finish (b : Builder) {m : Mark} (hm : m ≠ .closing) :
    b.finish.marks.count m = b.marks.count m := by
  by_cases hframes : b.frames = []
  · rw [finish_of_nil hframes]
  · rw [marks_finish hframes, List.count_append, List.count_singleton,
      if_neg (by simpa using hm.symm)]
    rfl

/-- A node that opened and did not close is open. -/
theorem count_marks_opening (b : Builder) :
    b.marks.count .opening = b.marks.count .closing + b.frames.length := by
  have hframes : ∀ fs : List (Kind × List Tree),
      (fs.flatMap fun f => Mark.opening :: f.2.reverse.flatMap Tree.marks).count .opening =
        (fs.flatMap fun f => Mark.opening :: f.2.reverse.flatMap Tree.marks).count .closing +
          fs.length := by
    intro fs
    induction fs with
    | nil => rfl
    | cons f fs ih =>
      rw [List.flatMap_cons, List.count_append, List.count_append, ih, List.count_cons_self,
        List.count_cons_of_ne (by decide), Tree.count_opening_list, List.length_cons]
      omega
  rw [marks, List.count_append, List.count_append, Tree.count_opening_list, hframes,
    List.length_reverse]
  omega

theorem eq_of_result? (h : b.result? = some t) : b.frames.flatMap Prod.snd ++ b.done = [t] := by
  unfold result? at h
  split at h
  · next k ts heq =>
    cases h
    exact heq
  · cases h

/-- A builder in which nothing is open has the word of the tree that it made. -/
theorem marks_of_result? (h : b.result? = some t) (hframes : b.frames = []) :
    b.marks = t.marks := by
  have hall := eq_of_result? h
  rw [hframes, List.flatMap_nil, List.nil_append] at hall
  rw [marks, hframes, hall]
  simp

/-- **What was closed is in the tree that was made**, and so are the tokens. -/
theorem count_marks_of_result? (h : b.result? = some t) {m : Mark} (hm : m ≠ .opening) :
    b.marks.count m = t.marks.count m := by
  have hall := eq_of_result? h
  have hperm : ∀ ts : List Tree,
      (ts.reverse.flatMap Tree.marks).count m = (ts.flatMap Tree.marks).count m := fun ts =>
    ((List.reverse_perm ts).flatMap_right _).count_eq m
  have hframes : ∀ fs : List (Kind × List Tree),
      (fs.flatMap fun f => Mark.opening :: f.2.reverse.flatMap Tree.marks).count m =
        ((fs.flatMap Prod.snd).flatMap Tree.marks).count m := by
    intro fs
    induction fs with
    | nil => rfl
    | cons f fs ih =>
      rw [List.flatMap_cons, List.count_append, ih, List.count_cons_of_ne hm.symm, hperm,
        List.flatMap_cons, List.flatMap_append, List.count_append]
  have hreverse : (b.frames.reverse.flatMap fun f =>
      Mark.opening :: f.2.reverse.flatMap Tree.marks).count m =
        (b.frames.flatMap fun f => Mark.opening :: f.2.reverse.flatMap Tree.marks).count m :=
    ((List.reverse_perm b.frames).flatMap_right _).count_eq m
  rw [marks, List.count_append, hperm, hreverse, hframes, Nat.add_comm, ← List.count_append,
    ← List.flatMap_append, hall]
  simp

end Builder

/-! ### Events and their marks -/

/-- The mark that an event stands for. -/
def Event.mark? : Event → Option Mark
  | .start _ _ => some .opening
  | .token _ => some .leaf
  | .finish => some .closing
  | .placeholder => none

/-- **The places of a log** at which events with a mark stand. -/
def places (log : Array Event) (m : Mark) : Finset Nat :=
  (Finset.range log.size).filter fun i => log[i]?.bind Event.mark? = some m

/-- **Every node that starts in a log ends behind its start**: the function tells where the node
starts that ends at a place. -/
structure Matched (log : Array Event) (f : Nat → Nat) : Prop where
  bij : Set.BijOn f (places log .closing) (places log .opening)
  lt : ∀ i ∈ places log .closing, f i < i

section Places

variable {log : Array Event} {e : Event} {i j : Nat} {m : Mark}

theorem mem_places : i ∈ places log m ↔ log[i]?.bind Event.mark? = some m := by
  rw [places, Finset.mem_filter, Finset.mem_range, and_iff_right_iff_imp]
  intro h
  obtain ⟨e, he, -⟩ := Option.bind_eq_some_iff.mp h
  exact (Array.getElem?_eq_some_iff.mp he).1

theorem mem_places_of (h : log[i]? = some e) : i ∈ places log m ↔ e.mark? = some m := by
  rw [mem_places, h]
  rfl

theorem mem_places_opening :
    i ∈ places log .opening ↔ ∃ k outer, log[i]? = some (.start k outer) := by
  rw [mem_places]
  constructor
  · intro h
    obtain ⟨e, he, hm⟩ := Option.bind_eq_some_iff.mp h
    cases e with
    | start k outer => exact ⟨k, outer, he⟩
    | token k => cases hm
    | finish => cases hm
    | placeholder => cases hm
  · rintro ⟨k, outer, h⟩
    rw [h]
    rfl

theorem lt_size_of_mem_places (h : i ∈ places log m) : i < log.size :=
  Finset.mem_range.mp (Finset.mem_filter.mp h).1

/-- What is added to a log is added behind. -/
theorem getElem?_push_of_lt (h : i < log.size) (e : Event) : (log.push e)[i]? = log[i]? := by
  rw [Array.getElem?_push, if_neg (Nat.ne_of_lt h)]

/-- What is written into a log is written at one place. -/
theorem getElem?_write (h : i < log.size) (e : Event) (j : Nat) :
    (log.setIfInBounds i e)[j]? = if j = i then some e else log[j]? := by
  by_cases hij : j = i
  · rw [if_pos hij, hij, Array.getElem?_setIfInBounds_self_of_lt h]
  · rw [if_neg hij, Array.getElem?_setIfInBounds_ne (Ne.symm hij)]

theorem places_push (log : Array Event) (e : Event) (m : Mark) : places (log.push e) m =
    if e.mark? = some m then insert log.size (places log m) else places log m := by
  ext i
  have hmem : i ∈ places (log.push e) m ↔
      if i = log.size then e.mark? = some m else i ∈ places log m := by
    rw [mem_places, Array.getElem?_push]
    split
    · rfl
    · exact mem_places.symm
  have hsize : log.size ∉ places log m := fun h => Nat.lt_irrefl _ (lt_size_of_mem_places h)
  rw [hmem]
  split
  · next heq =>
    subst heq
    split
    · next hm => simp [hm]
    · next hm => simp [hm, hsize]
  · next hne =>
    split
    · rw [Finset.mem_insert, or_iff_right hne]
    · rfl

theorem places_write (h : i < log.size) (e : Event) (m : Mark) : places (log.setIfInBounds i e) m =
    if e.mark? = some m then insert i (places log m) else (places log m).erase i := by
  ext j
  have hmem : j ∈ places (log.setIfInBounds i e) m ↔
      if j = i then e.mark? = some m else j ∈ places log m := by
    rw [mem_places, getElem?_write h]
    split
    · rfl
    · exact mem_places.symm
  rw [hmem]
  split
  · next heq =>
    subst heq
    split
    · next hm => simp [hm]
    · next hm => simp [hm]
  · next hne =>
    split
    · rw [Finset.mem_insert, or_iff_right hne]
    · rw [Finset.mem_erase, and_iff_right hne]

/-- A place that is emptied has no mark any more. -/
theorem places_clear (log : Array Event) (i : Nat) (m : Mark) :
    places (log.setIfInBounds i .placeholder) m = (places log m).erase i := by
  by_cases h : i < log.size
  · rw [places_write h, if_neg (by nofun)]
  · rw [Array.setIfInBounds_eq_of_size_le (by omega), Finset.erase_eq_of_notMem]
    exact fun hmem => h (lt_size_of_mem_places hmem)

end Places

/-! ### Chains of outer starts -/

section Chains

variable {log : Array Event} {k : Kind} {outer : Option Nat} {i : Nat}

theorem takeOuter_none (log : Array Event) : takeOuter log none = ([], log) := by
  rw [takeOuter]

theorem takeOuter_start (h : log[i]? = some (.start k outer)) :
    takeOuter log (some i) = (k :: (takeOuter (log.setIfInBounds i .placeholder) outer).1,
      (takeOuter (log.setIfInBounds i .placeholder) outer).2) := by
  rw [takeOuter]
  split
  · next heq =>
    rw [h] at heq
    cases heq
    rfl
  · next hno => exact absurd h (hno k outer)

/-- A chain ends where there is no start. -/
theorem takeOuter_stop (h : ∀ k outer, log[i]? ≠ some (.start k outer)) :
    takeOuter log (some i) = ([], log.setIfInBounds i .placeholder) := by
  rw [takeOuter]
  split
  · next heq => exact absurd heq (h _ _)
  · rfl

/-- **To prove something of a chain**, prove it of its end and of each of its links. -/
theorem takeOuter_induction {P : Array Event → Option Nat → Prop}
    (none : ∀ log, P log none)
    (start : ∀ log i k outer, log[i]? = some (.start k outer) →
      P (log.setIfInBounds i .placeholder) outer → P log (some i))
    (stop : ∀ log i, (∀ k outer, log[i]? ≠ some (.start k outer)) → P log (some i))
    (log : Array Event) (o : Option Nat) : P log o := by
  induction log, o using takeOuter.induct with
  | case1 log => exact none log
  | case2 log i k outer h _ _ _ _ ih => exact start log i k outer h ih
  | case3 log i h => exact stop log i fun k outer hlog => h k outer hlog

/-- **Every start that a chain takes opens a node.** -/
theorem length_takeOuter (log : Array Event) (o : Option Nat) :
    (takeOuter log o).1.length + (places (takeOuter log o).2 .opening).card =
      (places log .opening).card := by
  induction log, o using takeOuter_induction with
  | none log => simp [takeOuter_none]
  | start log i k outer h ih =>
    have hmem : i ∈ places log .opening := mem_places_opening.mpr ⟨k, outer, h⟩
    rw [places_clear, Finset.card_erase_of_mem hmem] at ih
    have hpos := Finset.card_pos.mpr ⟨i, hmem⟩
    rw [takeOuter_start h, List.length_cons]
    dsimp only
    omega
  | stop log i h =>
    have hno : i ∉ places log .opening := fun hmem => by
      obtain ⟨k, outer, heq⟩ := mem_places_opening.mp hmem
      exact h k outer heq
    rw [takeOuter_stop h, List.length_nil, Nat.zero_add, places_clear,
      Finset.erase_eq_of_notMem hno]

end Chains

/-! ### Steps of a replay -/

/-- A replay after its first steps. -/
def replayed (tokens : List Token) (log : Array Event) (n : Nat) : Replay :=
  (List.range n).foldl Replay.step { log, tokens }

theorem replayed_succ (tokens : List Token) (log : Array Event) (n : Nat) :
    replayed tokens log (n + 1) = (replayed tokens log n).step n := by
  unfold replayed
  rw [List.range_succ, List.foldl_append]
  rfl

theorem ofEvents?_eq (tokens : List Token) (log : Array Event) :
    Tree.ofEvents? tokens log = (replayed tokens log log.size).builder.result? := rfl

namespace Replay

variable {r r' : Replay} {i : Nat} {k : Kind} {outer : Option Nat} {m : Mark}

/-- **What a step can do.** -/
inductive Stepped (r : Replay) (i : Nat) : Replay → Prop
  | start {k : Kind} {outer : Option Nat} (h : r.log[i]? = some (.start k outer)) :
    Stepped r i ⟨(takeOuter (r.log.setIfInBounds i .placeholder) outer).2, r.tokens,
      (k :: (takeOuter (r.log.setIfInBounds i .placeholder) outer).1).foldr Builder.start r.builder⟩
  | token {k : Kind} {t : Token} {ts : List Token} (h : r.log[i]? = some (.token k))
    (ht : r.tokens = t :: ts) :
    Stepped r i ⟨r.log.setIfInBounds i .placeholder, ts, r.builder.add (.token k t.text)⟩
  /-- No token is left. -/
  | spare {k : Kind} (h : r.log[i]? = some (.token k)) (ht : r.tokens = []) :
    Stepped r i ⟨r.log.setIfInBounds i .placeholder, r.tokens, r.builder⟩
  | finish (h : r.log[i]? = some .finish) :
    Stepped r i ⟨r.log.setIfInBounds i .placeholder, r.tokens, r.builder.finish⟩
  | idle (h : r.log[i]? = none ∨ r.log[i]? = some .placeholder) : Stepped r i r

theorem stepped_step (r : Replay) (i : Nat) : Stepped r i (r.step i) := by
  cases h : r.log[i]? with
  | none =>
    have hstep : r.step i = r := by
      unfold step
      rw [h]
    rw [hstep]
    exact .idle (Or.inl h)
  | some e =>
    cases e with
    | start k outer =>
      have hstep : r.step i = ⟨(takeOuter (r.log.setIfInBounds i .placeholder) outer).2, r.tokens,
          (k :: (takeOuter (r.log.setIfInBounds i .placeholder) outer).1).foldr Builder.start
            r.builder⟩ := by
        unfold step
        rw [h]
      rw [hstep]
      exact .start h
    | token k =>
      cases ht : r.tokens with
      | nil =>
        have hstep : r.step i = ⟨r.log.setIfInBounds i .placeholder, r.tokens, r.builder⟩ := by
          unfold step
          rw [h, ht]
        rw [hstep]
        exact .spare h ht
      | cons t ts =>
        rw [step_token h ht]
        exact .token h ht
    | finish =>
      rw [step_finish h]
      exact .finish h
    | placeholder =>
      rw [step_placeholder h]
      exact .idle (Or.inr h)

private theorem marks_starts (b : Builder) (ks : List Kind) :
    (ks.foldr Builder.start b).marks = b.marks ++ List.replicate ks.length .opening := by
  induction ks with
  | nil => simp
  | cons k ks ih =>
    rw [List.foldr_cons, Builder.marks_start, ih, List.length_cons, List.replicate_succ',
      List.append_assoc]

private theorem count_starts (b : Builder) (ks : List Kind) (hm : m ≠ .opening) :
    (ks.foldr Builder.start b).marks.count m = b.marks.count m := by
  rw [marks_starts, List.count_append, List.count_replicate, if_neg (by simpa using hm.symm)]
  rfl

/-- **Every start that leaves the log opens a node.** -/
theorem count_opening_step (r : Replay) (i : Nat) :
    (r.step i).builder.marks.count .opening + (places (r.step i).log .opening).card =
      r.builder.marks.count .opening + (places r.log .opening).card := by
  have hstep := r.stepped_step i
  generalize r.step i = r' at hstep ⊢
  cases hstep with
  | @start k outer h =>
    have hmem := mem_places_opening.mpr ⟨k, outer, h⟩
    have hpos := Finset.card_pos.mpr ⟨i, hmem⟩
    have htake := length_takeOuter (r.log.setIfInBounds i .placeholder) outer
    rw [places_clear, Finset.card_erase_of_mem hmem] at htake
    rw [marks_starts, List.count_append, List.count_replicate_self, List.length_cons]
    dsimp only
    omega
  | @token k t ts h ht =>
    rw [Builder.marks_add, Tree.marks_token, List.count_append, places_clear,
      Finset.erase_eq_of_notMem ((mem_places_of h).not.mpr (by nofun))]
    rfl
  | spare h ht =>
    rw [places_clear, Finset.erase_eq_of_notMem ((mem_places_of h).not.mpr (by nofun))]
  | finish h =>
    rw [places_clear, Finset.erase_eq_of_notMem ((mem_places_of h).not.mpr (by nofun)),
      Builder.count_marks_finish _ (by decide)]
  | idle h => rfl

/-- **An event can be acted on** that stands for a mark: a token is left, or a node is open. -/
structure Acts (r : Replay) (i : Nat) (m : Mark) : Prop where
  place : i ∈ places r.log m
  leaf : m = .leaf → r.tokens ≠ []
  closing : m = .closing → r.builder.frames ≠ []

/-- **An event that can be acted on** writes its mark. -/
theorem marks_step_of_acts (h : r.Acts i m) (hm : m ≠ .opening) :
    (r.step i).builder.marks = r.builder.marks ++ [m] := by
  have hplace := h.place
  have hstep := r.stepped_step i
  generalize r.step i = r' at hstep ⊢
  cases hstep with
  | start hi => exact absurd (Option.some.inj ((mem_places_of hi).mp hplace)).symm hm
  | @token k t ts hi ht =>
    obtain rfl : Mark.leaf = m := Option.some.inj ((mem_places_of hi).mp hplace)
    rw [Builder.marks_add, Tree.marks_token]
  | spare hi ht =>
    obtain rfl : Mark.leaf = m := Option.some.inj ((mem_places_of hi).mp hplace)
    exact absurd ht (h.leaf rfl)
  | finish hi =>
    obtain rfl : Mark.closing = m := Option.some.inj ((mem_places_of hi).mp hplace)
    exact Builder.marks_finish (h.closing rfl)
  | idle hi =>
    rw [mem_places] at hplace
    rcases hi with hi | hi
    · rw [hi] at hplace
      cases hplace
    · rw [hi] at hplace
      cases hplace

/-- **Other events do not** write it. -/
theorem count_step_of_not_acts (h : ¬r.Acts i m) (hm : m ≠ .opening) :
    (r.step i).builder.marks.count m = r.builder.marks.count m := by
  have hstep := r.stepped_step i
  generalize r.step i = r' at hstep ⊢
  cases hstep with
  | start hi => exact count_starts _ _ hm
  | @token k t ts hi ht =>
    have hne : m ≠ .leaf := by
      rintro rfl
      exact h ⟨(mem_places_of hi).mpr rfl, fun _ => by simp [ht], nofun⟩
    rw [Builder.marks_add, Tree.marks_token, List.count_append, List.count_singleton,
      if_neg (by simpa using hne.symm)]
    rfl
  | spare hi ht => rfl
  | finish hi =>
    by_cases hframes : r.builder.frames = []
    · rw [Builder.finish_of_nil hframes]
    · have hne : m ≠ .closing := by
        rintro rfl
        exact h ⟨(mem_places_of hi).mpr rfl, nofun, fun _ => hframes⟩
      exact Builder.count_marks_finish _ hne
  | idle hi => rfl

/-- What was written stays. -/
theorem marks_prefix_step (r : Replay) (i : Nat) :
    r.builder.marks <+: (r.step i).builder.marks := by
  have hstep := r.stepped_step i
  generalize r.step i = r' at hstep ⊢
  cases hstep with
  | @start k outer h =>
    rw [marks_starts]
    exact List.prefix_append ..
  | @token k t ts h ht =>
    rw [Builder.marks_add]
    exact List.prefix_append ..
  | spare h ht => exact List.prefix_rfl
  | finish h =>
    by_cases hframes : r.builder.frames = []
    · rw [Builder.finish_of_nil hframes]
    · rw [Builder.marks_finish hframes]
      exact List.prefix_append ..
  | idle h => exact List.prefix_rfl

/-- Every token that is taken is a leaf. -/
theorem length_tokens_step (r : Replay) (i : Nat) :
    (r.step i).tokens.length + (r.step i).builder.marks.count .leaf =
      r.tokens.length + r.builder.marks.count .leaf := by
  have hstep := r.stepped_step i
  generalize r.step i = r' at hstep ⊢
  cases hstep with
  | start h => rw [count_starts _ _ (by decide)]
  | @token k t ts h ht =>
    rw [Builder.marks_add, Tree.marks_token, List.count_append, ht, List.length_cons,
      List.count_singleton_self]
    dsimp only
    omega
  | spare h ht => rfl
  | finish h => rw [Builder.count_marks_finish _ (by decide)]
  | idle h => rfl

end Replay
end Syntax
end Uci
