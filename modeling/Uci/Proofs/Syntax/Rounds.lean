import Mathlib.Data.List.Chain
import Mathlib.Data.List.Nodup
import Uci.Proofs.Syntax.Redirecting

/-!
# The rounds of a replay

A replay walks over its log once.  The round of an index is what it does when it comes there:
nothing, where the event has been used up before; what the event says; or, where a start is left,
the starts of its chain, the outermost first, and the start itself at last.  So a replay is a list
of acts, each about one event, and what it does can be told from the log alone: a start is acted on
in the first round that reaches it, and another event in its own round, unless it was reached
before.

## Main definitions

* `Act` — an event that is acted on, and what is done about it.
* `climbed` — the starts that a chain takes.
* `Replay.round`, `rounds` — the acts of one round, and the rounds up to an index.
* `Builder.leaves` — the tokens that a tree in the making holds.

## Main results

* `performAll_rounds` — **a replay does the acts of its rounds**, one after the other.
* `reached_of_mem_round` — an act is about an event that its round is the first to reach.
* `nodup_rounds` — **no event is acted on twice.**
* `exists_round_of_start` — **every start is acted on.**
* `taken_rounds` — the tokens are taken in their order.
* `texts_prefix_of_ofEvents?` — **the leaves of the tree are the first tokens.**
-/

namespace Uci
namespace Syntax

/-- **What is done about an event.** -/
inductive Deed where
  /-- A node opens. -/
  | opens (kind : Kind)
  /-- A token is put into the tree as `kind`, if one is left. -/
  | takes (kind : Kind) (token : Option Token)
  /-- The innermost open node closes. -/
  | closes
  deriving DecidableEq, Repr

/-- An event says what is to be done. -/
inductive Event.Says : Event → Deed → Prop
  | opens (k : Kind) (outer : Option Nat) : Says (.start k outer) (.opens k)
  | takes (k : Kind) (t : Option Token) : Says (.token k) (.takes k t)
  | closes : Says .finish .closes

/-- **An event that is acted on**, by its index, and what is done about it. -/
structure Act where
  index : Nat
  deed : Deed
  deriving DecidableEq, Repr

namespace Act

/-- What a token event took: nothing if no token was left. -/
def taken? : Act → Option (Option Token)
  | ⟨_, .takes _ t⟩ => some t
  | _ => none

/-- The leaf that an act puts into the tree. -/
def leaf? : Act → Option Token
  | ⟨_, .takes k (some t)⟩ => some ⟨k, t.text⟩
  | _ => none

theorem map_text_leaf? (a : Act) :
    a.leaf?.map Token.text = a.taken?.bind fun t => t.map Token.text := by
  obtain ⟨i, d⟩ := a
  cases d with
  | opens k => rfl
  | takes k t => cases t <;> rfl
  | closes => rfl

end Act

private theorem filterMap_cons_eq {α β : Type} (f : α → Option β) (x : α) (xs : List α) :
    (x :: xs).filterMap f = (f x).toList ++ xs.filterMap f := by
  cases h : f x with
  | none => rw [List.filterMap_cons_none h]; rfl
  | some y => rw [List.filterMap_cons_some h]; rfl

/-! ### What acts do to a tree in the making -/

namespace Builder

variable {b : Builder} {t : Tree}

/-- Does what is to be done about one event. -/
def perform (b : Builder) : Deed → Builder
  | .opens k => b.start k
  | .takes k (some t) => b.add (.token k t.text)
  | .takes _ none => b
  | .closes => b.finish

/-- Does what is to be done about events, one after the other. -/
def performAll (b : Builder) (acts : List Act) : Builder :=
  acts.foldl (fun b a => b.perform a.deed) b

theorem performAll_append (b : Builder) (acts acts' : List Act) :
    b.performAll (acts ++ acts') = (b.performAll acts).performAll acts' :=
  List.foldl_append

/-- **The tokens in a tree in the making**, from left to right. -/
def leaves (b : Builder) : List Token :=
  (b.frames.flatMap Prod.snd ++ b.done).reverse.flatMap Tree.tokens

theorem leaves_start (b : Builder) (k : Kind) : (b.start k).leaves = b.leaves := rfl

theorem leaves_add (b : Builder) (t : Tree) : (b.add t).leaves = b.leaves ++ t.tokens := by
  obtain ⟨done, frames⟩ := b
  cases frames with
  | nil => simp [leaves, add]
  | cons f frames => simp [leaves, add]

theorem leaves_finish (b : Builder) : b.finish.leaves = b.leaves := by
  obtain ⟨done, frames⟩ := b
  cases frames with
  | nil => rfl
  | cons f frames =>
    rw [finish, leaves_add, Tree.tokens_node]
    simp [leaves]

/-- No token is lost when the tree is made. -/
theorem leaves_of_result? (h : b.result? = some t) : b.leaves = t.tokens := by
  rw [leaves, eq_of_result? h]
  simp

theorem leaves_perform (b : Builder) (a : Act) :
    (b.perform a.deed).leaves = b.leaves ++ a.leaf?.toList := by
  obtain ⟨i, d⟩ := a
  cases d with
  | opens k => simp [perform, leaves_start, Act.leaf?]
  | takes k t =>
    cases t with
    | none => simp [perform, Act.leaf?]
    | some t => simp [perform, leaves_add, Act.leaf?]
  | closes => simp [perform, leaves_finish, Act.leaf?]

theorem leaves_performAll (b : Builder) (acts : List Act) :
    (b.performAll acts).leaves = b.leaves ++ acts.filterMap Act.leaf? := by
  induction acts generalizing b with
  | nil => simp [performAll]
  | cons a acts ih =>
    have hcons : b.performAll (a :: acts) = (b.perform a.deed).performAll acts := rfl
    rw [hcons, ih, leaves_perform, List.append_assoc, filterMap_cons_eq]

end Builder

/-! ### The starts of a chain -/

/-- **The starts that a chain takes**, the outermost first. -/
def climbed (log : Array Event) : Option Nat → List Act
  | none => []
  | some i =>
    match h : log[i]? with
    | some (.start k outer) =>
      have := countP_isStart_lt h
      climbed (log.setIfInBounds i .placeholder) outer ++ [⟨i, .opens k⟩]
    | _ => []
termination_by log.countP Event.isStart

/-- The node of the second event stands right in the node of the first one. -/
def Encloses (log : Array Event) (a b : Act) : Prop :=
  ∃ k, log[b.index]? = some (.start k (some a.index))

section Climbing

variable {log log₀ : Array Event} {o outer : Option Nat} {i : Nat} {k : Kind} {a : Act}

theorem climbed_none (log : Array Event) : climbed log none = [] := by
  rw [climbed]

theorem climbed_start (h : log[i]? = some (.start k outer)) :
    climbed log (some i) =
      climbed (log.setIfInBounds i .placeholder) outer ++ [⟨i, .opens k⟩] := by
  rw [climbed]
  split
  · next heq =>
    rw [h] at heq
    cases heq
    rfl
  · next hno => exact absurd h (hno k outer)

theorem climbed_stop (h : ∀ k outer, log[i]? ≠ some (.start k outer)) :
    climbed log (some i) = [] := by
  rw [climbed]
  split
  · next heq => exact absurd heq (h _ _)
  · rfl

/-- **A chain takes the starts that are gone behind it.** -/
theorem mem_climbed : a ∈ climbed log o ↔ Vacant (takeOuter log o).2 a.index ∧
    ∃ k outer, log[a.index]? = some (.start k outer) ∧ a.deed = .opens k := by
  induction log, o using takeOuter_induction with
  | none log =>
    rw [climbed_none, takeOuter_none]
    constructor
    · nofun
    · rintro ⟨hvacant, k, outer, h, -⟩
      exact absurd h hvacant.ne_start
  | start log i k outer h ih =>
    rw [climbed_start h, takeOuter_start h, List.mem_append, List.mem_singleton, ih]
    constructor
    · rintro (⟨hvacant, k', outer', h', hdeed⟩ | rfl)
      · have hne : a.index ≠ i := fun heq => (vacant_clear log i).ne_start (heq ▸ h')
        exact ⟨hvacant, k', outer', (Replay.getElem?_clear hne).symm.trans h', hdeed⟩
      · exact ⟨(stripped_takeOuter _ outer).vacant (vacant_clear log i), k, outer, h, rfl⟩
    · rintro ⟨hvacant, k', outer', h', hdeed⟩
      by_cases heq : a.index = i
      · right
        rw [heq, h] at h'
        cases h'
        obtain ⟨j, d⟩ := a
        obtain rfl : j = i := heq
        obtain rfl : d = .opens k := hdeed
        rfl
      · exact Or.inl ⟨hvacant, k', outer', (Replay.getElem?_clear heq).trans h', hdeed⟩
  | stop log i h =>
    rw [climbed_stop h, takeOuter_stop h]
    constructor
    · nofun
    · rintro ⟨hvacant, k, outer, h', -⟩
      have hne : a.index ≠ i := fun heq => h k outer (heq ▸ h')
      exact absurd ((Replay.getElem?_clear hne).trans h') hvacant.ne_start

theorem nodup_climbed (log : Array Event) (o : Option Nat) :
    ((climbed log o).map Act.index).Nodup := by
  induction log, o using takeOuter_induction with
  | none log =>
    rw [climbed_none]
    exact List.nodup_nil
  | start log i k outer h ih =>
    -- what was cleared is not taken again
    have hnew : i ∉ (climbed (log.setIfInBounds i .placeholder) outer).map Act.index := by
      intro hmem
      obtain ⟨a, ha, heq⟩ := List.mem_map.mp hmem
      obtain ⟨-, k', outer', h', -⟩ := mem_climbed.mp ha
      exact (vacant_clear log i).ne_start (heq ▸ h')
    rw [climbed_start h, List.map_append]
    exact List.nodup_append'.mpr ⟨ih, List.nodup_singleton i,
      List.disjoint_singleton.mpr hnew⟩
  | stop log i h =>
    rw [climbed_stop h]
    exact List.nodup_nil

theorem performAll_climbed (b : Builder) (log : Array Event) (o : Option Nat) :
    b.performAll (climbed log o) = (takeOuter log o).1.foldr Builder.start b := by
  induction log, o using takeOuter_induction with
  | none log =>
    rw [climbed_none, takeOuter_none]
    rfl
  | start log i k outer h ih =>
    rw [climbed_start h, takeOuter_start h, Builder.performAll_append, ih]
    rfl
  | stop log i h =>
    rw [climbed_stop h, takeOuter_stop h]
    rfl

/-- The last start of a chain is the one at which it begins. -/
theorem eq_of_getLast?_climbed (h : a ∈ (climbed log o).getLast?) : o = some a.index := by
  cases o with
  | none =>
    rw [climbed_none] at h
    cases h
  | some i =>
    by_cases hi : ∃ k outer, log[i]? = some (.start k outer)
    · obtain ⟨k, outer, hi⟩ := hi
      rw [climbed_start hi, List.getLast?_concat] at h
      cases h
      rfl
    · rw [climbed_stop fun k outer heq => hi ⟨k, outer, heq⟩] at h
      cases h

/-- **The starts of a chain, each opening its node**, the outermost first: each one is the outer
start of the next, and the last one is that at which the chain begins. -/
structure Opening (log : Array Event) (i : Nat) (acts : List Act) : Prop where
  opens : ∀ a ∈ acts, ∃ k, a.deed = .opens k
  encloses : acts.IsChain (Encloses log)
  last : acts.getLast?.map Act.index = some i

theorem isChain_climbed (h : Stripped log₀ log) : (climbed log o).IsChain (Encloses log₀) := by
  induction log, o using takeOuter_induction with
  | none log =>
    rw [climbed_none]
    exact List.isChain_nil
  | start log i k outer hi ih =>
    rw [climbed_start hi]
    refine (ih (h.trans (stripped_clear log i))).append (List.isChain_singleton _) ?_
    rintro a ha b hb
    cases hb
    exact ⟨k, eq_of_getLast?_climbed ha ▸ h.eq_of_some hi nofun⟩
  | stop log i hi =>
    rw [climbed_stop hi]
    exact List.isChain_nil

theorem opening_climbed (h : Stripped log₀ log) (ha : a ∈ climbed log (some i)) :
    Opening log₀ i (climbed log (some i)) := by
  refine ⟨fun b hb => ?_, isChain_climbed h, ?_⟩
  · obtain ⟨-, k, -, -, hdeed⟩ := mem_climbed.mp hb
    exact ⟨k, hdeed⟩
  · have hne : climbed log (some i) ≠ [] := List.ne_nil_of_mem ha
    have hlast := List.getLast?_eq_some_getLast hne
    rw [hlast, Option.map_some]
    exact (eq_of_getLast?_climbed hlast).symm

end Climbing

/-! ### Rounds -/

namespace Replay

variable {r : Replay} {i : Nat} {k : Kind} {outer : Option Nat} {a : Act}

/-- **What a replay does in the round of an index.** -/
def round (r : Replay) (i : Nat) : List Act :=
  match r.log[i]? with
  | some (.start _ _) => climbed r.log (some i)
  | some (.token k) => [⟨i, .takes k r.tokens.head?⟩]
  | some .finish => [⟨i, .closes⟩]
  | _ => []

theorem round_start (h : r.log[i]? = some (.start k outer)) :
    r.round i = climbed r.log (some i) := by
  unfold round
  rw [h]

theorem round_token (h : r.log[i]? = some (.token k)) :
    r.round i = [⟨i, .takes k r.tokens.head?⟩] := by
  unfold round
  rw [h]

theorem round_finish (h : r.log[i]? = some .finish) : r.round i = [⟨i, .closes⟩] := by
  unfold round
  rw [h]

theorem round_vacant (h : Vacant r.log i) : r.round i = [] := by
  unfold round
  rcases h with h | h <;> rw [h]

/-- **A step does the acts of its round.** -/
theorem performAll_round (r : Replay) (i : Nat) :
    r.builder.performAll (r.round i) = (r.step i).builder := by
  have hstep := r.stepped_step i
  generalize r.step i = r' at hstep ⊢
  cases hstep with
  | start h => rw [round_start h, performAll_climbed, takeOuter_start h]
  | token h ht =>
    rw [round_token h, ht]
    rfl
  | spare h ht =>
    rw [round_token h, ht]
    rfl
  | finish h =>
    rw [round_finish h]
    rfl
  | idle h =>
    rw [round_vacant h]
    rfl

/-- An act is about a start of the chain that begins there, or about the event itself. -/
theorem mem_round_cases (h : a ∈ r.round i) : a ∈ climbed r.log (some i) ∨
    a.index = i ∧ ∃ e, r.log[i]? = some e ∧ e.isStart = false ∧ e.Says a.deed := by
  unfold round at h
  split at h
  · exact Or.inl h
  · next k hi =>
    obtain rfl := List.mem_singleton.mp h
    exact Or.inr ⟨rfl, _, hi, rfl, .takes k _⟩
  · next hi =>
    obtain rfl := List.mem_singleton.mp h
    exact Or.inr ⟨rfl, _, hi, rfl, .closes⟩
  · cases h

/-- **An act is about an event that is left**, does what that says, and uses it up. -/
theorem mem_round (h : a ∈ r.round i) :
    Vacant (r.step i).log a.index ∧ ∃ e, r.log[a.index]? = some e ∧ e.Says a.deed := by
  rw [log_step]
  rcases mem_round_cases h with hclimbed | ⟨rfl, e, he, -, hdone⟩
  · obtain ⟨hvacant, k, outer, hstart, hdeed⟩ := mem_climbed.mp hclimbed
    exact ⟨hvacant, _, hstart, hdeed ▸ .opens k outer⟩
  · exact ⟨vacant_takeOuter r.log a.index, e, he, hdone⟩

/-- Only starts are acted on out of their own round. -/
theorem index_of_mem_round (h : a ∈ r.round i) (hdeed : ∀ k, a.deed ≠ .opens k) : a.index = i := by
  rcases mem_round_cases h with hclimbed | ⟨hindex, -⟩
  · obtain ⟨-, k, -, -, heq⟩ := mem_climbed.mp hclimbed
    exact absurd heq (hdeed k)
  · exact hindex

/-- A start that is used up in a round is acted on in it. -/
theorem mem_round_of_start (h : r.log[a.index]? = some (.start k outer)) (hdeed : a.deed = .opens k)
    (hvacant : Vacant (r.step i).log a.index) :
    a ∈ r.round i ∧ r.round i = climbed r.log (some i) := by
  rw [log_step] at hvacant
  have hmem : a ∈ climbed r.log (some i) := mem_climbed.mpr ⟨hvacant, k, outer, h, hdeed⟩
  -- the chain is not empty, so that it begins with a start
  have hround : r.round i = climbed r.log (some i) := by
    by_cases hi : ∃ k outer, r.log[i]? = some (.start k outer)
    · obtain ⟨k', outer', hi⟩ := hi
      exact round_start hi
    · rw [climbed_stop fun k outer heq => hi ⟨k, outer, heq⟩] at hmem
      cases hmem
  exact ⟨hround ▸ hmem, hround⟩

theorem nodup_round (r : Replay) (i : Nat) : ((r.round i).map Act.index).Nodup := by
  unfold round
  split
  · exact nodup_climbed r.log (some i)
  · exact List.nodup_singleton i
  · exact List.nodup_singleton i
  · exact List.nodup_nil

private theorem taken_climbed (log : Array Event) (o : Option Nat) :
    (climbed log o).filterMap Act.taken? = [] := by
  refine List.filterMap_eq_nil_iff.mpr fun a ha => ?_
  obtain ⟨-, k, outer, -, hdeed⟩ := mem_climbed.mp ha
  obtain ⟨i, d⟩ := a
  obtain rfl : d = .opens k := hdeed
  rfl

/-- **A round takes the next token**, or none at all. -/
theorem taken_round (r : Replay) (i : Nat) :
    ((r.round i).filterMap Act.taken? = [] ∧ (r.step i).tokens = r.tokens) ∨
      ((r.round i).filterMap Act.taken? = [r.tokens.head?] ∧
        (r.step i).tokens = r.tokens.tail) := by
  have hstep := r.stepped_step i
  generalize r.step i = r' at hstep ⊢
  cases hstep with
  | start h =>
    rw [round_start h]
    exact Or.inl ⟨taken_climbed r.log (some i), rfl⟩
  | token h ht =>
    rw [round_token h, ht]
    exact Or.inr ⟨rfl, rfl⟩
  | spare h ht =>
    rw [round_token h, ht]
    exact Or.inr ⟨rfl, rfl⟩
  | finish h =>
    rw [round_finish h]
    exact Or.inl ⟨rfl, rfl⟩
  | idle h =>
    rw [round_vacant h]
    exact Or.inl ⟨rfl, rfl⟩

end Replay

/-- **The rounds of a replay** up to an index. -/
def rounds (tokens : List Token) (log : Array Event) (n : Nat) : List (List Act) :=
  (List.range n).map fun i => (replayed tokens log i).round i

section Rounds

variable {tokens : List Token} {log : Array Event} {a : Act} {e : Event} {i j n : Nat} {k : Kind}
  {outer : Option Nat}

theorem rounds_succ (tokens : List Token) (log : Array Event) (n : Nat) :
    rounds tokens log (n + 1) = rounds tokens log n ++ [(replayed tokens log n).round n] := by
  unfold rounds
  rw [List.range_succ, List.map_append]
  rfl

@[simp] theorem length_rounds (tokens : List Token) (log : Array Event) (n : Nat) :
    (rounds tokens log n).length = n := by
  simp [rounds]

theorem getElem?_rounds (h : i < n) :
    (rounds tokens log n)[i]? = some ((replayed tokens log i).round i) := by
  simp [rounds, h]

theorem mem_flatten_rounds :
    a ∈ (rounds tokens log n).flatten ↔ ∃ i < n, a ∈ (replayed tokens log i).round i := by
  simp [rounds]

/-- **A replay does the acts of its rounds.** -/
theorem performAll_rounds (tokens : List Token) (log : Array Event) (n : Nat) :
    (replayed tokens log n).builder = Builder.performAll {} (rounds tokens log n).flatten := by
  induction n with
  | zero => rfl
  | succ n ih =>
    rw [replayed_succ, ← Replay.performAll_round, ih, rounds_succ, List.flatten_append,
      Builder.performAll_append]
    simp

/-- **The tokens are taken in their order**, each by one event. -/
theorem taken_rounds (tokens : List Token) (log : Array Event) (n : Nat) :
    ∃ m, (rounds tokens log n).flatten.filterMap Act.taken? =
        (List.range m).map (fun j => tokens[j]?) ∧
      (replayed tokens log n).tokens = tokens.drop m := by
  induction n with
  | zero => exact ⟨0, rfl, rfl⟩
  | succ n ih =>
    obtain ⟨m, htaken, hrest⟩ := ih
    rw [rounds_succ, List.flatten_append, List.filterMap_append, htaken, replayed_succ,
      List.flatten_singleton]
    rcases (replayed tokens log n).taken_round n with ⟨hround, htokens⟩ | ⟨hround, htokens⟩
    · exact ⟨m, by rw [hround, List.append_nil], htokens.trans hrest⟩
    · refine ⟨m + 1, ?_, ?_⟩
      · rw [hround, hrest, List.head?_drop, List.range_succ, List.map_append, List.map_singleton]
      · rw [htokens, hrest, List.tail_drop]

/-- The token event that is acted on as the `j`-th one takes the `j`-th token. -/
theorem eq_of_taken_rounds {t : Option Token}
    (h : ((rounds tokens log n).flatten.filterMap Act.taken?)[j]? = some t) : t = tokens[j]? := by
  obtain ⟨m, htaken, -⟩ := taken_rounds tokens log n
  rw [htaken, List.getElem?_map, Option.map_eq_some_iff] at h
  obtain ⟨j', hj, rfl⟩ := h
  obtain ⟨hlt, rfl⟩ := List.getElem?_eq_some_iff.mp hj
  rw [List.getElem_range]

theorem filterMap_range_getElem? (ts : List Token) (m : Nat) :
    (List.range m).filterMap (fun j => ts[j]?) = ts.take m := by
  induction m with
  | zero => rfl
  | succ m ih =>
    rw [List.range_succ, List.filterMap_append, ih, List.take_add_one, filterMap_cons_eq,
      List.filterMap_nil, List.append_nil]

/-- **The leaves have the texts of the first tokens**, in their order. -/
theorem exists_texts_rounds (tokens : List Token) (log : Array Event) (n : Nat) :
    ∃ m, ((rounds tokens log n).flatten.filterMap Act.leaf?).map Token.text =
      (tokens.take m).map Token.text := by
  obtain ⟨m, htaken, -⟩ := taken_rounds tokens log n
  refine ⟨m, ?_⟩
  generalize (rounds tokens log n).flatten = acts at htaken ⊢
  calc (acts.filterMap Act.leaf?).map Token.text
      = acts.filterMap fun a => a.taken?.bind fun t => t.map Token.text := by
        rw [List.map_filterMap]
        exact List.filterMap_congr fun a _ => a.map_text_leaf?
    _ = (acts.filterMap Act.taken?).filterMap fun t => t.map Token.text :=
        (List.filterMap_filterMap ..).symm
    _ = ((List.range m).filterMap fun j => tokens[j]?).map Token.text := by
        rw [htaken, List.filterMap_map, List.map_filterMap]
        rfl
    _ = (tokens.take m).map Token.text := by rw [filterMap_range_getElem?]

/-! ### The tree of a replay -/

theorem ofEvents?_eq_performAll (tokens : List Token) (log : Array Event) :
    Tree.ofEvents? tokens log =
      (Builder.performAll {} (rounds tokens log log.size).flatten).result? := by
  rw [ofEvents?_eq, performAll_rounds]

/-- **The leaves of the tree** are the tokens that were put into it. -/
theorem tokens_of_ofEvents? {t : Tree} (h : Tree.ofEvents? tokens log = some t) :
    t.tokens = (rounds tokens log log.size).flatten.filterMap Act.leaf? := by
  rw [ofEvents?_eq_performAll] at h
  rw [← Builder.leaves_of_result? h, Builder.leaves_performAll]
  rfl

/-- **The leaves of the tree are the first tokens**, up to what these are kept as. -/
theorem texts_prefix_of_ofEvents? {t : Tree} (h : Tree.ofEvents? tokens log = some t) :
    t.tokens.map Token.text <+: tokens.map Token.text := by
  obtain ⟨m, htexts⟩ := exists_texts_rounds tokens log log.size
  rw [tokens_of_ofEvents? h, htexts]
  exact (List.take_prefix m tokens).map Token.text

/-! ### Which round reaches an event -/

theorem not_reached_zero (log : Array Event) (i : Nat) : ¬Reached log 0 i := by
  intro h
  induction h with
  | walked h => exact Nat.not_lt_zero _ h
  | outer _ _ ih => exact ih

/-- What is reached is reached first in some round. -/
theorem exists_first_reached (h : Reached log n i) :
    ∃ m < n, Reached log (m + 1) i ∧ ¬Reached log m i := by
  induction n with
  | zero => exact absurd h (not_reached_zero log i)
  | succ n ih =>
    by_cases hn : Reached log n i
    · obtain ⟨m, hm, hfirst⟩ := ih hn
      exact ⟨m, Nat.lt_succ_of_lt hm, hfirst⟩
    · exact ⟨n, Nat.lt_succ_self n, h, hn⟩

/-- What is not reached is there as it was written. -/
theorem getElem?_replayed (tokens : List Token) (h : ¬Reached log n i) :
    (replayed tokens log n).log[i]? = log[i]? :=
  (used_replayed tokens log n).kept i h

/-- **An act is about an event that its round is the first to reach.** -/
theorem reached_of_mem_round (h : a ∈ (replayed tokens log n).round n) :
    Reached log (n + 1) a.index ∧ ¬Reached log n a.index ∧
      ∃ e, log[a.index]? = some e ∧ e.Says a.deed := by
  obtain ⟨hvacant, e, he, hdone⟩ := Replay.mem_round h
  have hne : e ≠ .placeholder := by
    rintro rfl
    cases hdone
  have hfresh : ¬Reached log n a.index := by
    intro hreached
    rcases (used_replayed tokens log n).vacant a.index hreached with hnone | hplaceholder
    · rw [he] at hnone
      cases hnone
    · rw [he] at hplaceholder
      exact hne (Option.some.inj hplaceholder)
  have hlog : log[a.index]? = some e := (getElem?_replayed tokens hfresh).symm.trans he
  refine ⟨?_, hfresh, e, hlog, hdone⟩
  -- what is not reached would still be there
  by_contra hreached
  rw [← replayed_succ] at hvacant
  have hkept := (getElem?_replayed tokens hreached).trans hlog
  rcases hvacant with hnone | hplaceholder
  · rw [hkept] at hnone
    cases hnone
  · rw [hkept] at hplaceholder
    exact hne (Option.some.inj hplaceholder)

/-- An event is acted on in one round only. -/
theorem eq_of_mem_rounds {a' : Act} (h : a ∈ (replayed tokens log i).round i)
    (h' : a' ∈ (replayed tokens log j).round j) (hindex : a.index = a'.index) : i = j := by
  obtain ⟨hi, hi', -⟩ := reached_of_mem_round h
  obtain ⟨hj, hj', -⟩ := reached_of_mem_round h'
  rw [hindex] at hi hi'
  rcases Nat.lt_trichotomy i j with hlt | heq | hgt
  · exact absurd (hi.mono hlt) hj'
  · exact heq
  · exact absurd (hj.mono hgt) hi'

/-- **No event is acted on twice.** -/
theorem nodup_rounds (tokens : List Token) (log : Array Event) (n : Nat) :
    ((rounds tokens log n).flatten.map Act.index).Nodup := by
  have hflat : (rounds tokens log n).flatten.map Act.index =
      (List.range n).flatMap fun i => ((replayed tokens log i).round i).map Act.index := by
    rw [rounds, ← List.flatMap_def, List.map_flatMap]
  rw [hflat, List.nodup_flatMap]
  refine ⟨fun i _ => Replay.nodup_round _ i, List.nodup_range.imp fun {i j} hne => ?_⟩
  intro index hi hj
  obtain ⟨a, ha, rfl⟩ := List.mem_map.mp hi
  obtain ⟨a', ha', heq⟩ := List.mem_map.mp hj
  exact hne (eq_of_mem_rounds ha ha' heq.symm)

/-- **Every start is acted on**, in the first round that reaches it, with the other starts of the
chain. -/
theorem exists_round_of_start (tokens : List Token) (h : log[i]? = some (.start k outer)) :
    ∃ n ≤ i, ⟨i, .opens k⟩ ∈ (replayed tokens log n).round n ∧
      Opening log n ((replayed tokens log n).round n) ∧
        Reached log (n + 1) i ∧ ¬Reached log n i := by
  obtain ⟨n, hn, hreached, hfresh⟩ := exists_first_reached (Reached.walked (Nat.lt_succ_self i))
  have hleft := (getElem?_replayed tokens hfresh).trans h
  have hvacant := (used_replayed tokens log (n + 1)).vacant i hreached
  rw [replayed_succ] at hvacant
  obtain ⟨hmem, hround⟩ := Replay.mem_round_of_start (a := ⟨i, .opens k⟩) hleft rfl hvacant
  refine ⟨n, Nat.le_of_lt_succ hn, hmem, ?_, hreached, hfresh⟩
  rw [hround] at hmem ⊢
  exact opening_climbed (stripped_replayed tokens log (Nat.zero_le n)) hmem

/-- **An event other than a start is acted on in its own round**, unless it was reached before. -/
theorem round_of_not_reached (tokens : List Token) (he : log[i]? = some e)
    (hstart : e.isStart = false) (hne : e ≠ .placeholder) (h : ¬Reached log i i) :
    ∃ d, (replayed tokens log i).round i = [⟨i, d⟩] := by
  have hi := (getElem?_replayed tokens h).trans he
  cases e with
  | start k outer => cases hstart
  | token k => exact ⟨_, Replay.round_token hi⟩
  | finish => exact ⟨_, Replay.round_finish hi⟩
  | placeholder => exact absurd rfl hne

/-- An event other than a start that is reached before its own round is lost. -/
theorem notMem_rounds_of_reached (he : log[i]? = some e) (hstart : e.isStart = false)
    (h : Reached log i i) : i ∉ (rounds tokens log n).flatten.map Act.index := by
  intro hflat
  obtain ⟨a, ha, rfl⟩ := List.mem_map.mp hflat
  obtain ⟨j, -, hmem⟩ := mem_flatten_rounds.mp ha
  obtain ⟨-, hfresh, e', he', hdone⟩ := reached_of_mem_round hmem
  rw [he] at he'
  cases he'
  have hdeed : ∀ k, a.deed ≠ .opens k := by
    intro k heq
    rw [heq] at hdone
    cases hdone
    cases hstart
  -- it could only be acted on in its own round
  rw [Replay.index_of_mem_round hmem hdeed] at hfresh h
  exact hfresh h

end Rounds
end Syntax
end Uci
