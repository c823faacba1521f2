import Uci.Proofs.Syntax.Marks

/-!
# Sessions of a parser

A grammar uses a parser by calls.  It opens nodes, and holds a marker for each of them until it
completes or abandons the node; of a node that it has completed it keeps the place, so that it can
open another one around it.  A session is what a grammar holds, and a call takes it to the next one,
unless the grammar does not have the marker that the call is made with.

## Main definitions

* `Call`, `Session.step?`, `Session.play?` — calls, and what they come to.
* `Writes` — **what a call does to a log.**
* `Session.Sound` — what a grammar holds stands in the log.

## Main results

* `writes_of_step?` — no call does anything else to a log.
* `Writes.matched`, `Writes.leaves` — **calls keep nodes matched, and lose no token.**
* `Session.Sound.play`, `Session.play_induction` — what all sessions are like.
-/

namespace Uci
namespace Syntax

/-- **Call** that a grammar makes of a parser, of a marker or of a completed node.  The calls that
only look ahead change nothing, and are left out. -/
inductive Call where
  | bumpAs (k : Kind)
  | bump
  | eat (k : Kind)
  | error (fault : Fault)
  | start
  | complete (m : Marker) (k : Kind)
  | abandon (m : Marker)
  | precede (c : Completed)
  deriving DecidableEq, Repr

/-- **Session**: a parser with the markers that are open and the nodes that were completed. -/
structure Session where
  parser : Parser
  opened : List Marker := []
  completed : List Completed := []

namespace Session

/-- The session in front of the first call. -/
def ofTokens (tokens : List Token) : Session where
  parser := { rest := tokens }

/-- **What a call comes to.**  A marker is used up by completing or abandoning its node; a completed
node can be preceded as often as one likes. -/
def step? (s : Session) : Call → Option Session
  | .bumpAs k => some { s with parser := s.parser.bumpAs k }
  | .bump => some { s with parser := s.parser.bump }
  | .eat k => some { s with parser := (s.parser.eat k).2 }
  | .error fault => some { s with parser := s.parser.error fault }
  | .start =>
    some { s with parser := s.parser.start.2, opened := s.parser.start.1 :: s.opened }
  | .complete m k =>
    if m ∈ s.opened then
      some { parser := (s.parser.complete m k).2, opened := s.opened.erase m,
             completed := (s.parser.complete m k).1 :: s.completed }
    else none
  | .abandon m =>
    if m ∈ s.opened then
      some { s with parser := s.parser.abandon m, opened := s.opened.erase m }
    else none
  | .precede c =>
    if c ∈ s.completed then
      some { s with parser := (s.parser.precede c).2,
                    opened := (s.parser.precede c).1 :: s.opened }
    else none

/-- The session behind calls. -/
def play? (s : Session) (calls : List Call) : Option Session := calls.foldlM step? s

@[simp] theorem play?_nil (s : Session) : s.play? [] = some s := rfl

theorem play?_cons_eq_some_iff {s s' : Session} {call : Call} {calls : List Call} :
    s.play? (call :: calls) = some s' ↔
      ∃ s₁, s.step? call = some s₁ ∧ s₁.play? calls = some s' := by
  unfold play?
  rw [List.foldlM_cons]
  exact Option.bind_eq_some_iff

theorem play?_append_eq_some_iff {s s' : Session} {calls calls' : List Call} :
    s.play? (calls ++ calls') = some s' ↔
      ∃ s₁, s.play? calls = some s₁ ∧ s₁.play? calls' = some s' := by
  unfold play?
  rw [List.foldlM_append]
  exact Option.bind_eq_some_iff

/-- **What a grammar holds stands in the log**: an open place for every marker, and a start for
every completed node. -/
structure Sound (s : Session) : Prop where
  opened : ∀ m ∈ s.opened, s.parser.events[m.index]? = some .placeholder
  nodup : s.opened.Nodup
  completed : ∀ c ∈ s.completed, ∃ k outer, s.parser.events[c.index]? = some (.start k outer)

end Session

/-! ### What calls write -/

/-- **What a call does to a log**, and to the tokens that are left. -/
inductive Writes : List Token → Array Event → List Token → Array Event → Prop
  | nothing {ts : List Token} {log : Array Event} : Writes ts log ts log
  /-- A token is taken. -/
  | token {t : Token} {ts : List Token} {log : Array Event} (k : Kind) :
    Writes (t :: ts) log ts (log.push (.token k))
  /-- A place is reserved. -/
  | reserve {ts : List Token} {log : Array Event} : Writes ts log ts (log.push .placeholder)
  /-- The last place, which nothing was written into, is freed. -/
  | free {ts : List Token} {log : Array Event} : Writes ts (log.push .placeholder) ts log
  /-- A start is written into a place that was reserved for it, and the end of the node behind. -/
  | close {ts : List Token} {log : Array Event} {i : Nat} (k : Kind)
    (h : log[i]? = some .placeholder) :
    Writes ts log ts ((log.setIfInBounds i (.start k none)).push .finish)
  /-- A place is reserved, and a start refers to it. -/
  | refer {ts : List Token} {log : Array Event} {i : Nat} {k : Kind} {outer : Option Nat}
    (h : log[i]? = some (.start k outer)) :
    Writes ts log ts ((log.push .placeholder).setIfInBounds i (.start k (some log.size)))

theorem writes_bumpAs (p : Parser) (k : Kind) :
    Writes p.rest p.events (p.bumpAs k).rest (p.bumpAs k).events := by
  unfold Parser.bumpAs
  split
  · exact .nothing
  · next t ts heq =>
    rw [heq]
    exact .token k

theorem writes_abandon {p : Parser} {m : Marker} (h : p.events[m.index]? = some .placeholder) :
    Writes p.rest p.events (p.abandon m).rest (p.abandon m).events := by
  unfold Parser.abandon
  split
  · next hlast =>
    have hlog : p.events.pop.push .placeholder = p.events := by
      apply Array.ext_getElem?
      intro i
      rw [Array.getElem?_push, Array.size_pop, Array.getElem?_pop]
      split
      · next hi =>
        rw [← h]
        congr 1
        omega
      · next hi =>
        split
        · rfl
        · exact (Array.getElem?_eq_none (by omega)).symm
    conv => arg 2; rw [← hlog]
    exact .free
  · exact .nothing

/-- **No call does anything else to a log.** -/
theorem writes_of_step? {s s' : Session} {call : Call} (hs : s.Sound)
    (h : s.step? call = some s') :
    Writes s.parser.rest s.parser.events s'.parser.rest s'.parser.events := by
  cases call with
  | bumpAs k =>
    cases h
    exact writes_bumpAs s.parser k
  | bump =>
    cases h
    exact writes_bumpAs s.parser _
  | eat k =>
    cases h
    unfold Parser.eat
    dsimp only
    split
    · exact writes_bumpAs s.parser _
    · exact .nothing
  | error fault =>
    cases h
    exact .nothing
  | start =>
    cases h
    exact .reserve
  | complete m k =>
    obtain ⟨hm, h⟩ := Option.ite_none_right_eq_some.mp h
    cases h
    exact .close k (hs.opened m hm)
  | abandon m =>
    obtain ⟨hm, h⟩ := Option.ite_none_right_eq_some.mp h
    cases h
    exact writes_abandon (hs.opened m hm)
  | precede c =>
    obtain ⟨hc, h⟩ := Option.ite_none_right_eq_some.mp h
    cases h
    obtain ⟨k, outer, hstart⟩ := hs.completed c hc
    rw [Parser.precede_eq hstart]
    exact .refer hstart

/-! ### What stays the same -/

section Writing

variable {log log' : Array Event} {ts ts' : List Token} {f : Nat → Nat} {i : Nat} {k : Kind}
  {outer : Option Nat}

/-- A reserved place has no mark. -/
theorem places_reserve (log : Array Event) (m : Mark) :
    places (log.push .placeholder) m = places log m := by
  rw [places_push, if_neg (by nofun)]

/-- Closing a node marks the place of its start and the last place. -/
theorem places_close (h : log[i]? = some .placeholder) (k : Kind) (m : Mark) :
    places ((log.setIfInBounds i (.start k none)).push .finish) m =
      match m with
      | .opening => insert i (places log .opening)
      | .leaf => places log .leaf
      | .closing => insert log.size (places log .closing) := by
  have hlt : i < log.size := (Array.getElem?_eq_some_iff.mp h).1
  have hno : i ∉ places log m := (mem_places_of h).not.mpr nofun
  rw [places_push, places_write hlt, Array.size_setIfInBounds, Finset.erase_eq_of_notMem hno]
  cases m <;> rfl

/-- That a start refers to another place does not change what it stands for. -/
theorem places_refer (h : log[i]? = some (.start k outer)) (m : Mark) :
    places ((log.push .placeholder).setIfInBounds i (.start k (some log.size))) m =
      places log m := by
  have hlt : i < log.size := (Array.getElem?_eq_some_iff.mp h).1
  rw [places_write (by rw [Array.size_push]; omega), places_reserve]
  split
  · next hm => exact Finset.insert_eq_of_mem ((mem_places_of h).mpr hm)
  · next hm => exact Finset.erase_eq_of_notMem ((mem_places_of h).not.mpr hm)

/-- A node that is closed is matched with the place that was reserved for its start. -/
private theorem Matched.close (hf : Matched log f) (h : log[i]? = some .placeholder) (k : Kind) :
    Matched ((log.setIfInBounds i (.start k none)).push .finish)
      (Function.update f log.size i) := by
  have hlt : i < log.size := (Array.getElem?_eq_some_iff.mp h).1
  have hold : Set.EqOn f (Function.update f log.size i) (places log .closing) := fun j hj =>
    (Function.update_of_ne (Nat.ne_of_lt (lt_size_of_mem_places hj)) _ _).symm
  have hnew : Function.update f log.size i log.size = i := Function.update_self ..
  have hfree : i ∉ places log .opening := (mem_places_of h).not.mpr nofun
  constructor
  · rw [places_close h, places_close h, Finset.coe_insert, Finset.coe_insert]
    have hbij := (hf.bij.congr hold).insert (a := log.size) (by rwa [hnew])
    rwa [hnew] at hbij
  · intro j hj
    rw [places_close h] at hj
    rcases Finset.mem_insert.mp hj with rfl | hj
    · rwa [hnew]
    · rw [← hold hj]
      exact hf.lt j hj

/-- **Calls keep the nodes of a log matched.** -/
theorem Writes.matched (hw : Writes ts log ts' log') (h : ∃ f, Matched log f) :
    ∃ f, Matched log' f := by
  obtain ⟨f, hf⟩ := h
  have hsame : (∀ m, m ≠ .leaf → places log' m = places log m) → ∃ f, Matched log' f := by
    intro hplaces
    refine ⟨f, ?_, ?_⟩
    · rw [hplaces .closing (by decide), hplaces .opening (by decide)]
      exact hf.bij
    · rw [hplaces .closing (by decide)]
      exact hf.lt
  cases hw with
  | nothing => exact ⟨f, hf⟩
  | token k =>
    refine hsame fun m hm => ?_
    rw [places_push, if_neg]
    rintro ⟨⟩
    exact hm rfl
  | reserve => exact hsame fun m _ => places_reserve log m
  | free => exact hsame fun m _ => (places_reserve log' m).symm
  | close k h => exact ⟨_, hf.close h k⟩
  | refer h => exact hsame fun m _ => places_refer h m

/-- Every token that was taken stands in the log. -/
theorem Writes.leaves (hw : Writes ts log ts' log') :
    (places log' .leaf).card + ts'.length = (places log .leaf).card + ts.length := by
  cases hw with
  | nothing => rfl
  | token k =>
    have hsize : log.size ∉ places log .leaf := fun h =>
      Nat.lt_irrefl _ (lt_size_of_mem_places h)
    have hmark : (Event.token k).mark? = some .leaf := rfl
    rw [places_push, if_pos hmark, Finset.card_insert_of_notMem hsize, List.length_cons]
    omega
  | reserve => rw [places_reserve]
  | free => rw [places_reserve]
  | close k h => rw [places_close h]
  | refer h => rw [places_refer h]

/-- An end that was written stays where it is. -/
theorem Writes.closing (hw : Writes ts log ts' log') (h : i ∈ places log .closing) :
    i ∈ places log' .closing := by
  cases hw with
  | nothing => exact h
  | token k => rwa [places_push, if_neg (by nofun)]
  | reserve => rwa [places_reserve]
  | free => rwa [places_reserve] at h
  | close k hi =>
    rw [places_close hi]
    exact Finset.mem_insert_of_mem h
  | refer hi => rwa [places_refer hi]

end Writing

/-! ### What all sessions are like -/

namespace Session

variable {s s' : Session} {call : Call} {calls : List Call} {tokens : List Token}

theorem sound_ofTokens (tokens : List Token) : (ofTokens tokens).Sound :=
  ⟨nofun, List.nodup_nil, nofun⟩

/-- A log to which something may have been added. -/
private theorem Sound.grow {p : Parser} (hs : s.Sound)
    (h : ∀ i < s.parser.events.size, p.events[i]? = s.parser.events[i]?) :
    Sound { s with parser := p } where
  opened m hm := by
    have hat := hs.opened m hm
    rw [← hat]
    exact h _ (Array.getElem?_eq_some_iff.mp hat).1
  nodup := hs.nodup
  completed c hc := by
    obtain ⟨k, outer, hat⟩ := hs.completed c hc
    refine ⟨k, outer, ?_⟩
    rw [← hat]
    exact h _ (Array.getElem?_eq_some_iff.mp hat).1

/-- Taking a token leaves the places as they are. -/
theorem getElem?_events_bumpAs (p : Parser) (k : Kind) {i : Nat} (hi : i < p.events.size) :
    (p.bumpAs k).events[i]? = p.events[i]? := by
  unfold Parser.bumpAs
  split
  · rfl
  · exact getElem?_push_of_lt hi _

private theorem Sound.bumpAs (hs : s.Sound) (k : Kind) :
    Sound { s with parser := s.parser.bumpAs k } :=
  hs.grow fun _ hi => getElem?_events_bumpAs s.parser k hi

/-- The place that is reserved next is not that of a marker that is open. -/
theorem Sound.notMem_opened (hs : s.Sound) : ⟨s.parser.events.size⟩ ∉ s.opened := by
  intro hm
  exact absurd (Array.getElem?_eq_some_iff.mp (hs.opened _ hm)).1 (Nat.lt_irrefl _)

/-- No marker is that of a node that was completed. -/
theorem Sound.index_ne (hs : s.Sound) {m : Marker} {c : Completed} (hm : m ∈ s.opened)
    (hc : c ∈ s.completed) : m.index ≠ c.index := by
  intro heq
  obtain ⟨k, outer, hat⟩ := hs.completed c hc
  have hopened := hs.opened m hm
  rw [heq, hat] at hopened
  cases hopened

theorem Sound.start (hs : s.Sound) :
    Sound { s with parser := s.parser.start.2, opened := s.parser.start.1 :: s.opened } := by
  have hgrown : Sound { s with parser := s.parser.start.2 } :=
    hs.grow fun i hi => getElem?_push_of_lt hi _
  refine ⟨fun m hm => ?_, List.nodup_cons.mpr ⟨hs.notMem_opened, hs.nodup⟩, hgrown.completed⟩
  rcases List.mem_cons.mp hm with rfl | hm
  · exact Array.getElem?_push_size
  · exact hgrown.opened m hm

/-- Completing a node writes its start. -/
theorem getElem?_events_complete {p : Parser} {m : Marker} {i : Nat} (hm : m.index < p.events.size)
    (hi : i < p.events.size) (k : Kind) : (p.complete m k).2.events[i]? =
      if i = m.index then some (.start k none) else p.events[i]? := by
  show ((p.events.setIfInBounds m.index (.start k none)).push .finish)[i]? = _
  rw [getElem?_push_of_lt (by rwa [Array.size_setIfInBounds]) _, getElem?_write hm]

theorem Sound.complete {m : Marker} (hs : s.Sound) (hm : m ∈ s.opened) (k : Kind) :
    Sound { parser := (s.parser.complete m k).2, opened := s.opened.erase m,
            completed := (s.parser.complete m k).1 :: s.completed } := by
  have hlt : m.index < s.parser.events.size := (Array.getElem?_eq_some_iff.mp (hs.opened m hm)).1
  refine ⟨fun m' hm' => ?_, hs.nodup.erase m, fun c hc => ?_⟩
  · obtain ⟨hne, hm'⟩ := (List.Nodup.mem_erase_iff hs.nodup).mp hm'
    have hat := hs.opened m' hm'
    rw [getElem?_events_complete hlt (Array.getElem?_eq_some_iff.mp hat).1, if_neg, hat]
    exact fun heq => hne (congrArg Marker.mk heq)
  · rcases List.mem_cons.mp hc with rfl | hc
    · exact ⟨k, none, (getElem?_events_complete hlt hlt k).trans (if_pos rfl)⟩
    · obtain ⟨k', outer, hat⟩ := hs.completed c hc
      refine ⟨k', outer, ?_⟩
      rw [getElem?_events_complete hlt (Array.getElem?_eq_some_iff.mp hat).1, if_neg, hat]
      exact (hs.index_ne hm hc).symm

/-- Giving a marker back leaves the other places as they are. -/
theorem getElem?_events_abandon (p : Parser) {m : Marker} {i : Nat} (hi : i ≠ m.index) :
    (p.abandon m).events[i]? = p.events[i]? := by
  unfold Parser.abandon
  split
  · next hlast =>
    show p.events.pop[i]? = _
    rw [Array.getElem?_pop]
    split
    · rfl
    · exact (Array.getElem?_eq_none (by omega)).symm
  · rfl

theorem Sound.abandon {m : Marker} (hs : s.Sound) (hm : m ∈ s.opened) :
    Sound { s with parser := s.parser.abandon m, opened := s.opened.erase m } := by
  refine ⟨fun m' hm' => ?_, hs.nodup.erase m, fun c hc => ?_⟩
  · obtain ⟨hne, hm'⟩ := (List.Nodup.mem_erase_iff hs.nodup).mp hm'
    rw [getElem?_events_abandon _ fun heq => hne (congrArg Marker.mk heq)]
    exact hs.opened m' hm'
  · rw [getElem?_events_abandon _ (hs.index_ne hm hc).symm]
    exact hs.completed c hc

/-- Opening a node around a completed one makes the start of the one refer to the other. -/
theorem getElem?_events_precede {p : Parser} {c : Completed} {k : Kind} {outer : Option Nat}
    (hc : p.events[c.index]? = some (.start k outer)) (i : Nat) :
    (p.precede c).2.events[i]? =
      if i = c.index then some (.start k (some p.events.size)) else p.start.2.events[i]? := by
  have hlt : c.index < p.events.size := (Array.getElem?_eq_some_iff.mp hc).1
  rw [Parser.precede_eq hc]
  exact getElem?_write (by rw [Array.size_push]; omega) ..

theorem Sound.precede {c : Completed} (hs : s.Sound) (hc : c ∈ s.completed) :
    Sound { s with parser := (s.parser.precede c).2,
                   opened := (s.parser.precede c).1 :: s.opened } := by
  obtain ⟨k, outer, hstart⟩ := hs.completed c hc
  have hlog := getElem?_events_precede hstart
  have hmarker : (s.parser.precede c).1 = s.parser.start.1 := by
    rw [Parser.precede_eq hstart]
    rfl
  rw [hmarker]
  refine ⟨fun m hm => ?_, hs.start.nodup, fun c' hc' => ?_⟩
  · rw [hlog, if_neg]
    · exact hs.start.opened m hm
    · exact hs.start.index_ne hm hc
  · by_cases heq : c'.index = c.index
    · exact ⟨k, _, (hlog c'.index).trans (if_pos heq)⟩
    · rw [hlog, if_neg heq]
      exact hs.start.completed c' hc'

/-- **A session stays sound.** -/
theorem Sound.step (hs : s.Sound) (h : s.step? call = some s') : s'.Sound := by
  cases call with
  | bumpAs k =>
    cases h
    exact hs.bumpAs k
  | bump =>
    cases h
    exact hs.bumpAs _
  | eat k =>
    cases h
    unfold Parser.eat
    split
    · exact hs.bumpAs _
    · exact hs
  | error fault =>
    cases h
    exact hs.grow fun i _ => rfl
  | start =>
    cases h
    exact hs.start
  | complete m k =>
    obtain ⟨hm, h⟩ := Option.ite_none_right_eq_some.mp h
    cases h
    exact hs.complete hm k
  | abandon m =>
    obtain ⟨hm, h⟩ := Option.ite_none_right_eq_some.mp h
    cases h
    exact hs.abandon hm
  | precede c =>
    obtain ⟨hc, h⟩ := Option.ite_none_right_eq_some.mp h
    cases h
    exact hs.precede hc

theorem Sound.play (hs : s.Sound) (h : s.play? calls = some s') : s'.Sound := by
  induction calls generalizing s with
  | nil =>
    cases h
    exact hs
  | cons call calls ih =>
    obtain ⟨s₁, hstep, hrest⟩ := play?_cons_eq_some_iff.mp h
    exact ih (hs.step hstep) hrest

/-- What every step of writing preserves, a session preserves. -/
theorem play_induction {P : List Token → Array Event → Prop}
    (hP : ∀ ts log ts' log', Writes ts log ts' log' → P ts log → P ts' log')
    (hs : s.Sound) (h : s.play? calls = some s') (h₀ : P s.parser.rest s.parser.events) :
    P s'.parser.rest s'.parser.events := by
  induction calls generalizing s with
  | nil =>
    cases h
    exact h₀
  | cons call calls ih =>
    obtain ⟨s₁, hstep, hrest⟩ := play?_cons_eq_some_iff.mp h
    exact ih (hs.step hstep) hrest (hP _ _ _ _ (writes_of_step? hs hstep) h₀)

end Session
end Syntax
end Uci
