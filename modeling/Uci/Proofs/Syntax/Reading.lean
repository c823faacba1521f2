import Uci.Syntax.Grammar

/-!
# What the rules of the grammar read

A rule reads tokens and writes a stretch of the event log, and replaying that stretch
makes trees.  Both together are said by one relation between the parser before and the
parser behind a rule, without a word about the log: the tokens that were read and the
trees they became.  It composes like the rules themselves, so that a tree can be found by
following the grammar.

## Main definitions

* `Stands` — events that stand in a log from a place on.
* `Makes` — a stretch of a log makes trees, wherever it stands in a longer log.
* `Parser.Spans` — **a rule reads tokens and leaves trees and errors.**
* `Parser.Reads` — a rule that finds nothing wrong.

## Main results

* `Spans.trans`, `Reads.bumpAs`, `Spans.error`, `Spans.node`, `Spans.nodeAround` — the
  ways to build a rule.
* `finish_of_spans` — what a parser that has read everything answers.
-/

namespace Uci
namespace Syntax

/-! ### Builders -/

namespace Builder

/-- Puts trees into the innermost open node, one after the other. -/
def addAll (b : Builder) (ts : List Tree) : Builder := ts.foldl (fun b t => b.add t) b

@[simp] theorem addAll_nil (b : Builder) : b.addAll [] = b := rfl

@[simp] theorem addAll_cons (b : Builder) (t : Tree) (ts : List Tree) :
    b.addAll (t :: ts) = (b.add t).addAll ts := rfl

theorem addAll_append (b : Builder) (ts us : List Tree) :
    b.addAll (ts ++ us) = (b.addAll ts).addAll us := by
  unfold addAll
  rw [List.foldl_append]

private theorem addAll_frame (done : List Tree) (k : Kind) (us ts : List Tree)
    (frames : List (Kind × List Tree)) :
    addAll ⟨done, (k, us) :: frames⟩ ts = ⟨done, (k, ts.reverse ++ us) :: frames⟩ := by
  induction ts generalizing us with
  | nil => rfl
  | cons t ts ih =>
    -- an open node holds its trees in reverse
    have hadd : add t ⟨done, (k, us) :: frames⟩ = ⟨done, (k, t :: us) :: frames⟩ := rfl
    rw [addAll_cons, hadd, ih]
    simp

/-- A node that was opened and closed again is one more tree. -/
theorem finish_addAll_start (b : Builder) (k : Kind) (ts : List Tree) :
    ((b.start k).addAll ts).finish = b.add (.node k ts) := by
  have hstart : b.start k = ⟨b.done, (k, []) :: b.frames⟩ := rfl
  rw [hstart, addAll_frame]
  simp [finish]

end Builder

/-! ### Stretches of a log -/

/-- The events stand in the log from the place `i` on. -/
def Stands (log : Array Event) (i : Nat) (evs : List Event) : Prop :=
  ∀ k < evs.length, log[i + k]? = evs[k]?

namespace Stands

variable {log log' : Array Event} {i j : Nat} {e : Event} {evs evs' : List Event}

theorem append_iff :
    Stands log i (evs ++ evs') ↔ Stands log i evs ∧ Stands log (i + evs.length) evs' := by
  constructor
  · intro h
    constructor
    · intro k hk
      rw [h k (by rw [List.length_append]; omega), List.getElem?_append_left hk]
    · intro k hk
      rw [Nat.add_assoc, h _ (by rw [List.length_append]; omega),
        List.getElem?_append_right (by omega), Nat.add_sub_cancel_left]
  · rintro ⟨h, h'⟩ k hk
    rw [List.length_append] at hk
    by_cases hlt : k < evs.length
    · rw [h k hlt, List.getElem?_append_left hlt]
    · rw [List.getElem?_append_right (by omega), ← h' _ (by omega)]
      congr 1
      omega

theorem singleton_iff : Stands log i [e] ↔ log[i]? = some e := by
  constructor
  · intro h
    exact h 0 Nat.zero_lt_one
  · intro h k hk
    rw [Nat.lt_one_iff.mp hk]
    exact h

theorem cons_iff : Stands log i (e :: evs) ↔ log[i]? = some e ∧ Stands log (i + 1) evs := by
  have h : Stands log i ([e] ++ evs) ↔ Stands log i [e] ∧ Stands log (i + 1) evs := append_iff
  rwa [singleton_iff] at h

/-- Changes elsewhere do not matter. -/
theorem keep (h : Stands log i evs)
    (hkeep : ∀ k, i ≤ k → k < i + evs.length → log'[k]? = log[k]?) : Stands log' i evs := by
  intro k hk
  rw [hkeep (i + k) (Nat.le_add_right i k) (Nat.add_lt_add_left hk i)]
  exact h k hk

theorem clear (h : Stands log i evs) (hj : j < i ∨ i + evs.length ≤ j) :
    Stands (log.setIfInBounds j .placeholder) i evs := by
  refine h.keep fun k hk hk' => Array.getElem?_setIfInBounds_ne ?_
  omega

end Stands

/-- **A stretch of a log makes trees** out of tokens: wherever it stands in a log, acting on
its events takes the tokens, puts the trees into the innermost open node, and leaves what
stands behind it in the log alone. -/
def Makes (i : Nat) (evs : List Event) (toks : List Token) (ts : List Tree) : Prop :=
  ∀ r : Replay, Stands r.log i evs → ∀ rest, r.tokens = toks ++ rest →
    ∃ log : Array Event, (∀ k, i + evs.length ≤ k → log[k]? = r.log[k]?) ∧
      (List.range' i evs.length).foldl Replay.step r = ⟨log, rest, r.builder.addAll ts⟩

namespace Replay

variable {r : Replay} {i j : Nat} {k k' : Kind}

/-- Emptying a place changes the log nowhere else. -/
theorem getElem?_clear {log : Array Event} (h : j ≠ i) :
    (log.setIfInBounds i .placeholder)[j]? = log[j]? :=
  Array.getElem?_setIfInBounds_ne (Ne.symm h)

theorem step_start (h : r.log[i]? = some (.start k none)) :
    r.step i = ⟨r.log.setIfInBounds i .placeholder, r.tokens, r.builder.start k⟩ := by
  unfold step
  rw [h]
  simp only [takeOuter]
  rfl

/-- A start that has an outer one opens that first, and uses it up. -/
theorem step_start_outer (h : r.log[i]? = some (.start k (some j))) (hij : j ≠ i)
    (hj : r.log[j]? = some (.start k' none)) :
    r.step i = ⟨(r.log.setIfInBounds i .placeholder).setIfInBounds j .placeholder, r.tokens,
      (r.builder.start k').start k⟩ := by
  have hlog : (r.log.setIfInBounds i .placeholder)[j]? = some (.start k' none) := by
    rw [getElem?_clear hij, hj]
  have htake : takeOuter (r.log.setIfInBounds i .placeholder) (some j) =
      ([k'], (r.log.setIfInBounds i .placeholder).setIfInBounds j .placeholder) := by
    rw [takeOuter]
    split
    · next k'' outer heq =>
      rw [hlog] at heq
      cases heq
      rw [takeOuter]
    · next hno => exact absurd hlog (hno k' none)
  unfold step
  rw [h]
  simp only [htake]
  rfl

theorem step_token {t : Token} {rest : List Token} (h : r.log[i]? = some (.token k))
    (ht : r.tokens = t :: rest) :
    r.step i =
      ⟨r.log.setIfInBounds i .placeholder, rest, r.builder.add (.token k t.text)⟩ := by
  unfold step
  rw [h, ht]

theorem step_finish (h : r.log[i]? = some .finish) :
    r.step i = ⟨r.log.setIfInBounds i .placeholder, r.tokens, r.builder.finish⟩ := by
  unfold step
  rw [h]

theorem step_placeholder (h : r.log[i]? = some .placeholder) : r.step i = r := by
  unfold step
  rw [h]

end Replay

namespace Makes

variable {i : Nat} {evs evs' : List Event} {toks toks' : List Token} {ts ts' : List Tree}
  {k k' : Kind}

theorem nil (i : Nat) : Makes i [] [] [] := by
  intro r _ rest htoks
  refine ⟨r.log, fun _ _ => rfl, ?_⟩
  have hr : r = ⟨r.log, rest, r.builder⟩ := by rw [← List.nil_append rest, ← htoks]
  exact hr

/-- One stretch after the other. -/
theorem append (h : Makes i evs toks ts) (h' : Makes (i + evs.length) evs' toks' ts') :
    Makes i (evs ++ evs') (toks ++ toks') (ts ++ ts') := by
  intro r hlog rest htoks
  obtain ⟨hfront, hback⟩ := Stands.append_iff.mp hlog
  obtain ⟨log, hkeep, hrun⟩ := h r hfront (toks' ++ rest) (by rw [htoks, List.append_assoc])
  -- the first stretch left the log behind it alone, so the second one finds its events
  have hback' : Stands log (i + evs.length) evs' := hback.keep fun k hk _ => hkeep k hk
  obtain ⟨log', hkeep', hrun'⟩ := h' ⟨log, toks' ++ rest, r.builder.addAll ts⟩ hback' rest rfl
  refine ⟨log', ?_, ?_⟩
  · intro k hk
    rw [List.length_append] at hk
    rw [hkeep' k (by omega)]
    exact hkeep k (by omega)
  · rw [List.length_append, ← List.range'_append_1, List.foldl_append, hrun, hrun',
      Builder.addAll_append]

theorem token (i : Nat) (k : Kind) (t : Token) :
    Makes i [.token k] [t] [.token k t.text] := by
  intro r hlog rest htoks
  have h0 : r.log[i]? = some (.token k) := Stands.singleton_iff.mp hlog
  refine ⟨r.log.setIfInBounds i .placeholder, ?_, ?_⟩
  · intro j hj
    rw [List.length_singleton] at hj
    exact Replay.getElem?_clear (by omega)
  · exact Replay.step_token h0 htoks

/-- A stretch inside an open node that already holds some trees, and the end of the node. -/
private theorem closes (h : Makes i evs toks ts) {r : Replay} {b : Builder} (us : List Tree)
    {rest : List Token} (hlog : Stands r.log i (evs ++ [Event.finish]))
    (htoks : r.tokens = toks ++ rest) (hb : r.builder = (b.start k).addAll us) :
    ∃ log : Array Event, (∀ j, i + (evs.length + 1) ≤ j → log[j]? = r.log[j]?) ∧
      (List.range' i (evs.length + 1)).foldl Replay.step r =
        ⟨log, rest, b.add (.node k (us ++ ts))⟩ := by
  obtain ⟨hevs, hend⟩ := Stands.append_iff.mp hlog
  obtain ⟨log, hkeep, hrun⟩ := h r hevs rest htoks
  have hend' : log[i + evs.length]? = some .finish := by
    rw [hkeep _ (Nat.le_refl _)]
    exact Stands.singleton_iff.mp hend
  refine ⟨log.setIfInBounds (i + evs.length) .placeholder, ?_, ?_⟩
  · intro j hj
    rw [Replay.getElem?_clear (by omega), hkeep j (by omega)]
  · rw [← List.range'_append_1, List.foldl_append, hrun]
    show Replay.step _ (i + evs.length) = _
    rw [Replay.step_finish hend', hb, ← Builder.addAll_append, Builder.finish_addAll_start]

/-- A start, a stretch, and the end of the node. -/
theorem node (h : Makes (i + 1) evs toks ts) :
    Makes i (.start k none :: (evs ++ [Event.finish])) toks [.node k ts] := by
  intro r hlog rest htoks
  have hlen : (Event.start k none :: (evs ++ [Event.finish])).length = evs.length + 1 + 1 := by simp
  obtain ⟨h0, hbody⟩ := Stands.cons_iff.mp hlog
  -- the start opens the node, the stretch fills it, and the event behind it closes it
  obtain ⟨log, hkeep, hrun⟩ := h.closes []
    (r := ⟨r.log.setIfInBounds i .placeholder, r.tokens, r.builder.start k⟩)
    (hbody.clear (Or.inl (Nat.lt_succ_self i))) htoks rfl
  refine ⟨log, ?_, ?_⟩
  · intro j hj
    rw [hlen] at hj
    rw [hkeep j (by omega)]
    exact Replay.getElem?_clear (by omega)
  · rw [hlen, List.range'_succ, List.foldl_cons, Replay.step_start h0, hrun]
    rfl

/-- A node that is opened around another one when that is finished.  Its start stands behind
the other one in the log, and is used up by it. -/
theorem around (k k' : Kind) (h : Makes (i + 1) evs toks ts)
    (h' : Makes (i + evs.length + 3) evs' toks' ts') :
    Makes i
      (.start k (some (i + evs.length + 2)) ::
        (evs ++ [Event.finish] ++ .start k' none :: (evs' ++ [Event.finish])))
      (toks ++ toks') [.node k' (.node k ts :: ts')] := by
  intro r hlog rest htoks
  have hlen : (Event.start k (some (i + evs.length + 2)) :: (evs ++ [Event.finish] ++
      .start k' none :: (evs' ++ [Event.finish]))).length = evs.length + evs'.length + 4 := by
    simp
    omega
  obtain ⟨h0, hbody⟩ := Stands.cons_iff.mp hlog
  obtain ⟨hinner, houter⟩ := Stands.append_iff.mp hbody
  rw [List.length_append, List.length_singleton,
    show i + 1 + (evs.length + 1) = i + evs.length + 2 by omega] at houter
  obtain ⟨hstart, hback⟩ := Stands.cons_iff.mp houter
  -- both nodes are opened, the inner one is read and closed
  have hinner' := (hinner.clear (j := i) (Or.inl (by omega))).clear (j := i + evs.length + 2)
    (Or.inr (by simp; omega))
  obtain ⟨log, hkeep, hrun⟩ := h.closes [] (b := r.builder.start k')
    (r := ⟨(r.log.setIfInBounds i .placeholder).setIfInBounds (i + evs.length + 2) .placeholder,
      r.tokens, (r.builder.start k').start k⟩) hinner'
    (show r.tokens = toks ++ (toks' ++ rest) by rw [htoks, List.append_assoc]) rfl
  have hcleared : log[i + evs.length + 2]? = some .placeholder := by
    rw [hkeep _ (by omega)]
    apply Array.getElem?_setIfInBounds_self_of_lt
    rw [Array.size_setIfInBounds]
    exact (Array.getElem?_eq_some_iff.mp hstart).1
  have hback' : Stands log (i + evs.length + 3) (evs' ++ [Event.finish]) :=
    ((hback.clear (j := i) (Or.inl (by omega))).clear (j := i + evs.length + 2)
      (Or.inl (by omega))).keep fun j hj _ => hkeep j (by omega)
  -- then what is left of the outer one
  obtain ⟨log', hkeep', hrun'⟩ := h'.closes [.node k ts] (b := r.builder) (k := k')
    (r := ⟨log, toks' ++ rest, (r.builder.start k').add (.node k ts)⟩) hback' rfl rfl
  refine ⟨log', ?_, ?_⟩
  · intro j hj
    rw [hlen] at hj
    rw [hkeep' j (by omega), hkeep j (by omega), Replay.getElem?_clear (by omega),
      Replay.getElem?_clear (by omega)]
  · have hrange : List.range' i (evs.length + evs'.length + 4) =
        i :: (List.range' (i + 1) (evs.length + 1) ++
          (i + evs.length + 2) :: List.range' (i + evs.length + 3) (evs'.length + 1)) := by
      have hback : List.range' (i + 1 + (evs.length + 1)) (evs'.length + 1 + 1) =
          (i + evs.length + 2) :: List.range' (i + evs.length + 3) (evs'.length + 1) := by
        rw [show i + 1 + (evs.length + 1) = i + evs.length + 2 by omega, List.range'_succ]
      rw [← hback, List.range'_append_1, ← List.range'_succ]
      congr 1
      omega
    rw [hlen, hrange, List.foldl_cons, List.foldl_append, List.foldl_cons,
      Replay.step_start_outer h0 (by omega) hstart, hrun, Replay.step_placeholder hcleared]
    exact hrun'

end Makes

/-! ### Rules -/

/-- The number of bytes that tokens take. -/
def sizeOf (ts : List Token) : Nat := Text.size (ts.flatMap Token.text)

@[simp] theorem sizeOf_nil : sizeOf [] = 0 := rfl

@[simp] theorem sizeOf_cons (t : Token) (ts : List Token) :
    sizeOf (t :: ts) = t.text.size + sizeOf ts := by
  unfold sizeOf
  rw [List.flatMap_cons, Text.size_append]

@[simp] theorem sizeOf_append (ts us : List Token) :
    sizeOf (ts ++ us) = sizeOf ts + sizeOf us := by
  unfold sizeOf
  rw [List.flatMap_append, Text.size_append]

/-- The leaf of a token that is kept as it is. -/
def Token.leaf (t : Token) : Tree := .token t.kind t.text

/-- A run of tokens that pass a test goes no further: the token ahead does not pass it. -/
def Halts (f : Kind → Bool) (ts : List Token) : Prop := ∀ t ∈ ts.head?, f t.kind = false

namespace Parser

/-- Opening a node around another one reserves the next place of the log for it. -/
theorem precede_eq {p : Parser} {c : Completed} {k : Kind} {outer : Option Nat}
    (h : p.events[c.index]? = some (.start k outer)) :
    p.precede c = (⟨p.events.size⟩, { p with
      events := (p.events.push .placeholder).setIfInBounds c.index
        (.start k (some p.events.size)) }) := by
  have hlt : c.index < p.events.size := (Array.getElem?_eq_some_iff.mp h).1
  have hat : p.start.2.events[c.index]? = some (.start k outer) := by
    show (p.events.push .placeholder)[c.index]? = _
    rw [Array.getElem?_push_lt hlt, ← h, Array.getElem?_eq_getElem hlt]
  unfold precede
  rw [hat]
  rfl

/-- Closing a node fills the place that was reserved for its start. -/
theorem events_complete {p : Parser} {m : Marker} {k : Kind} {front evs : List Event}
    (h : p.events.toList = front ++ .placeholder :: evs) (hm : m.index = front.length) :
    (p.complete m k).2.events.toList = front ++ .start k none :: (evs ++ [Event.finish]) := by
  show ((p.events.setIfInBounds m.index (.start k none)).push .finish).toList = _
  rw [Array.toList_push, Array.toList_setIfInBounds, h, hm,
    List.set_append_right _ _ (Nat.le_refl _), Nat.sub_self, List.set_cons_zero,
    List.append_assoc]
  rfl

/-- The log behind a node of what a rule writes. -/
theorem events_node {p : Parser} {k : Kind} {rule : Parser → Parser} {evs : List Event}
    (h : (rule p.start.2).events.toList = p.start.2.events.toList ++ evs) :
    (p.node k rule).2.events.toList =
      p.events.toList ++ .start k none :: (evs ++ [Event.finish]) := by
  refine events_complete ?_ (Array.length_toList ..).symm
  rw [h]
  simp [start]

/-- The log behind the place of a node around another one, the start of which refers to it. -/
theorem events_precede {p : Parser} {c : Completed} {k : Kind} {front evs : List Event}
    (h : p.events.toList = front ++ .start k none :: evs) (hc : c.index = front.length) :
    p.precede c = (⟨p.events.size⟩, (p.precede c).2) ∧
      (p.precede c).2.errors = p.errors ∧
      (p.precede c).2.events.toList =
        front ++ .start k (some p.events.size) :: (evs ++ [.placeholder]) := by
  have hat : p.events[c.index]? = some (.start k none) := by
    rw [← Array.getElem?_toList, h, hc, List.getElem?_append_right (Nat.le_refl _), Nat.sub_self]
    rfl
  rw [precede_eq hat]
  refine ⟨rfl, rfl, ?_⟩
  show ((p.events.push .placeholder).setIfInBounds c.index _).toList = _
  rw [Array.toList_setIfInBounds, Array.toList_push, h, hc, List.append_assoc,
    List.set_append_right _ _ (Nat.le_refl _), Nat.sub_self]
  rfl

/-- **A rule reads tokens and leaves trees and errors**: `q` is the parser behind the rule, `p`
the one in front of it. -/
structure Spans (p q : Parser) (toks : List Token) (ts : List Tree) (errs : List SyntaxError) :
    Prop where
  rest : p.rest = toks ++ q.rest
  offset : q.offset = p.offset + sizeOf toks
  errors : q.errors.toList = p.errors.toList ++ errs
  events : ∃ evs, q.events.toList = p.events.toList ++ evs ∧ Makes p.events.size evs toks ts

/-- **A rule that finds nothing wrong.** -/
abbrev Reads (p q : Parser) (toks : List Token) (ts : List Tree) : Prop := p.Spans q toks ts []

variable {p q q' : Parser} {toks toks' : List Token} {ts ts' : List Tree} {k k' : Kind}
  {errs errs' : List SyntaxError} {rule rule' : Parser → Parser}

/-- The parser behind a node that is to stand in another one, where the rest of that begins. -/
def behindNode (p : Parser) (k : Kind) (rule : Parser → Parser) : Parser :=
  ((p.node k rule).2.precede (p.node k rule).1).2

theorem rest_behindNode (p : Parser) (k : Kind) (rule : Parser → Parser) :
    (p.behindNode k rule).rest = (rule p.start.2).rest := by
  rw [behindNode, rest_precede, rest_node]

theorem offset_behindNode (p : Parser) (k : Kind) (rule : Parser → Parser) :
    (p.behindNode k rule).offset = (rule p.start.2).offset := by
  unfold behindNode precede
  split <;> rfl

namespace Spans

theorem trans (h : p.Spans q toks ts errs) (h' : q.Spans q' toks' ts' errs') :
    p.Spans q' (toks ++ toks') (ts ++ ts') (errs ++ errs') where
  rest := by rw [h.rest, h'.rest, List.append_assoc]
  offset := by rw [h'.offset, h.offset, sizeOf_append, Nat.add_assoc]
  errors := by rw [h'.errors, h.errors, List.append_assoc]
  events := by
    obtain ⟨evs, hevs, hmakes⟩ := h.events
    obtain ⟨evs', hevs', hmakes'⟩ := h'.events
    have hsize : q.events.size = p.events.size + evs.length := by
      rw [← Array.length_toList, hevs, List.length_append, Array.length_toList]
    rw [hsize] at hmakes'
    exact ⟨evs ++ evs', by rw [hevs', hevs, List.append_assoc], hmakes.append hmakes'⟩

/-- Recording an error reads nothing. -/
theorem error (p : Parser) (fault : Fault) :
    p.Spans (p.error fault) [] [] [⟨fault, p.currentRange.1, p.currentRange.2⟩] where
  rest := rfl
  offset := rfl
  errors := Array.toList_push
  events := ⟨[], (List.append_nil _).symm, .nil _⟩

/-- A node of what a rule reads. -/
theorem node (h : p.start.2.Spans (rule p.start.2) toks ts errs) :
    p.Spans (p.node k rule).2 toks [.node k ts] errs where
  rest := h.rest
  offset := h.offset
  errors := h.errors
  events := by
    obtain ⟨evs, hevs, hmakes⟩ := h.events
    have hsize : p.start.2.events.size = p.events.size + 1 := Array.size_push ..
    rw [hsize] at hmakes
    exact ⟨_, events_node hevs, hmakes.node⟩

/-- A node around another one that has been read. -/
theorem nodeAround (h : p.start.2.Spans (rule p.start.2) toks ts errs)
    (h' : (p.behindNode k rule).Spans (rule' (p.behindNode k rule)) toks' ts' errs') :
    p.Spans (Parser.nodeAround (p.node k rule) k' rule') (toks ++ toks')
      [.node k' (.node k ts :: ts')] (errs ++ errs') := by
  obtain ⟨evs, hevs, hmakes⟩ := h.events
  have hsize : p.start.2.events.size = p.events.size + 1 := Array.size_push ..
  rw [hsize] at hmakes
  -- the log behind the inner node, and behind the reserved place of the outer one
  have hinner := events_node (k := k) hevs
  have hlen : (p.node k rule).2.events.size = p.events.size + evs.length + 2 := by
    rw [← Array.length_toList, hinner]
    simp
    omega
  obtain ⟨hmarker, herrors, hq⟩ :=
    events_precede (c := (p.node k rule).1) hinner (Array.length_toList ..).symm
  have hrest := rest_behindNode p k rule
  have hoffset := offset_behindNode p k rule
  unfold behindNode at h' hrest hoffset
  unfold Parser.nodeAround
  dsimp only
  rw [hmarker]
  rw [hlen] at hq ⊢
  generalize ((p.node k rule).2.precede (p.node k rule).1).2 = q at h' herrors hq hrest hoffset ⊢
  have hqsize : q.events.size = p.events.size + evs.length + 3 := by
    rw [← Array.length_toList, hq]
    simp
    omega
  have hqerrors : q.errors.toList = p.errors.toList ++ errs := by
    rw [herrors]
    exact h.errors
  obtain ⟨evs', hevs', hmakes'⟩ := h'.events
  rw [hqsize] at hmakes'
  refine ⟨?_, ?_, ?_, _, ?_, hmakes.around k k' hmakes'⟩
  · show p.rest = _ ++ (rule' q).rest
    rw [List.append_assoc, ← h'.rest, hrest]
    exact h.rest
  · show (rule' q).offset = _
    rw [h'.offset, hoffset, h.offset, sizeOf_append, Nat.add_assoc]
    rfl
  · show (rule' q).errors.toList = _
    rw [h'.errors, hqerrors, List.append_assoc]
  · have hfront : (rule' q).events.toList = (p.events.toList ++
        Event.start k (some (p.events.size + evs.length + 2)) :: (evs ++ [Event.finish])) ++
          .placeholder :: evs' := by
      rw [hevs', hq]
      simp
    rw [events_complete hfront (by simp; omega)]
    simp

end Spans

namespace Reads

theorem refl (p : Parser) : p.Reads p [] [] where
  rest := rfl
  offset := rfl
  errors := (List.append_nil _).symm
  events := ⟨[], (List.append_nil _).symm, .nil _⟩

theorem trans (h : p.Reads q toks ts) (h' : q.Reads q' toks' ts') :
    p.Reads q' (toks ++ toks') (ts ++ ts') := Spans.trans h h'

/-- Taking a token. -/
theorem bumpAs {t : Token} {rest : List Token} (h : p.rest = t :: rest) (k : Kind) :
    p.Reads (p.bumpAs k) [t] [.token k t.text] ∧ (p.bumpAs k).rest = rest := by
  have hbump : p.bumpAs k =
      { p with rest, offset := p.offset + t.text.size, events := p.events.push (.token k) } := by
    unfold Parser.bumpAs
    rw [h]
  rw [hbump]
  exact ⟨⟨h, by simp, (List.append_nil _).symm, [.token k], Array.toList_push, .token _ k t⟩, rfl⟩

theorem bump {t : Token} {rest : List Token} (h : p.rest = t :: rest) :
    p.Reads p.bump [t] [.token t.kind t.text] ∧ p.bump.rest = rest := by
  have hcurrent : p.current = t.kind := by
    rw [current_eq, h]
    rfl
  rw [Parser.bump, hcurrent]
  exact bumpAs h t.kind

theorem node (h : p.start.2.Reads (rule p.start.2) toks ts) :
    p.Reads (p.node k rule).2 toks [.node k ts] := Spans.node h

theorem nodeAround (h : p.start.2.Reads (rule p.start.2) toks ts)
    (h' : (p.behindNode k rule).Reads (rule' (p.behindNode k rule)) toks' ts') :
    p.Reads (Parser.nodeAround (p.node k rule) k' rule') (toks ++ toks')
      [.node k' (.node k ts :: ts')] := Spans.nodeAround h h'

end Reads

/-! ### Looking at the next token -/

section

variable {t : Token} {rest : List Token}

theorem current_of_rest (h : p.rest = t :: rest) : p.current = t.kind := by
  rw [current_eq, h]
  rfl

theorem currentText_of_rest (h : p.rest = t :: rest) : p.currentText = t.text := by
  unfold currentText
  rw [h]
  rfl

theorem eat_of_eq {k : Kind} (h : p.rest = t :: rest) (hk : t.kind = k) :
    p.eat k = (true, p.bump) := by
  unfold eat isAt
  rw [current_of_rest h, if_pos (by simpa using hk)]

/-- Taking tokens as long as they pass a test. -/
theorem reads_bumpWhile {f : Kind → Bool} (h : p.rest = toks ++ rest)
    (htoks : ∀ t ∈ toks, f t.kind = true) (hrest : Halts f rest) :
    p.Reads (p.bumpWhile f) toks (toks.map Token.leaf) ∧ (p.bumpWhile f).rest = rest := by
  have htake : p.rest.takeWhile (fun t => f t.kind) = toks := by
    rw [h, List.takeWhile_append_of_pos htoks]
    cases rest with
    | nil => simp
    | cons t rest =>
      have ht : f t.kind = false := hrest t rfl
      simp [ht]
  unfold bumpWhile
  rw [htake]
  -- the number of tokens is fixed before the first is taken
  clear htake htoks
  induction toks generalizing p with
  | nil => exact ⟨.refl p, h⟩
  | cons t toks ih =>
    obtain ⟨hbump, hnext⟩ := Reads.bump h
    obtain ⟨hreads, hend⟩ := ih hnext
    exact ⟨hbump.trans hreads, hend⟩

end

/-- **What a parser that reads everything answers.**  Its log makes exactly one tree. -/
theorem finish_of_spans {p : Parser} (hp : p.events = #[]) (herr : p.errors = #[])
    (h : p.Spans p.root toks [.node .root ts] errs) (hrest : p.root.rest = []) :
    Tree.ofEvents? p.rest p.root.events = some (.node .root ts) ∧
      p.finish = ⟨.node .root ts, errs⟩ := by
  obtain ⟨evs, hevs, hmakes⟩ := h.events
  have htoks : p.rest = toks ++ [] := by rw [h.rest, hrest]
  rw [hp] at hevs hmakes
  have hevs : p.root.events.toList = evs := hevs
  have hmakes : Makes 0 evs toks [.node .root ts] := hmakes
  -- the whole log is one stretch, with nothing behind it
  obtain ⟨log, -, hrun⟩ := hmakes { log := p.root.events, tokens := p.rest } (fun k _ => by
    rw [← hevs, Array.getElem?_toList]
    simp) [] htoks
  have htree : Tree.ofEvents? p.rest p.root.events = some (.node .root ts) := by
    unfold Tree.ofEvents?
    rw [List.range_eq_range', ← Array.length_toList, hevs, hrun]
    rfl
  refine ⟨htree, ?_⟩
  unfold Parser.finish
  rw [htree, h.errors, herr]
  rfl

end Parser
end Syntax
end Uci
