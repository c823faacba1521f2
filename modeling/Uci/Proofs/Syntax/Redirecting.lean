import Uci.Proofs.Syntax.Marks

/-!
# Starts that are redirected

What a replay finds at a place depends on what it has used up before.  A place is reached when the
replay has walked over it, or when a start that was reached refers to it, and what was reached is
vacant, while the rest of the log is as it was written.  So when a start comes to refer to another
place, what matters is what stands at that place by the time of the start.

## Main definitions

* `Vacant`, `Reached` — places with nothing at them, and places that a replay has used up.
* `redirect` — a log of which one start refers to another place.

## Main results

* `used_replayed` — **what is reached is vacant, and nothing else changes.**
* `ofEvents?_redirect_of_vacant` — a start may refer to a place that is vacant.
-/

namespace Uci
namespace Syntax

/-- There is nothing at a place of a log. -/
def Vacant (log : Array Event) (i : Nat) : Prop := log[i]? = none ∨ log[i]? = some .placeholder

/-- **Places that are reached** by the first steps of a replay: it walks over them, or a start that
is reached refers to them. -/
inductive Reached (log : Array Event) (n : Nat) : Nat → Prop
  | walked {i : Nat} (h : i < n) : Reached log n i
  | outer {i j : Nat} {k : Kind} (h : Reached log n i)
    (hi : log[i]? = some (.start k (some j))) : Reached log n j

section Using

variable {log log' : Array Event} {e : Event} {i j n : Nat} {k : Kind} {outer : Option Nat}

theorem Vacant.ne_start (h : Vacant log i) : log[i]? ≠ some (.start k outer) := by
  rcases h with h | h <;> simp [h]

theorem Vacant.notMem_places (h : Vacant log i) (m : Mark) : i ∉ places log m := by
  rw [mem_places]
  rcases h with h | h <;> simp [h, Event.mark?]

theorem vacant_clear (log : Array Event) (i : Nat) :
    Vacant (log.setIfInBounds i .placeholder) i := by
  by_cases h : i < log.size
  · exact Or.inr (Array.getElem?_setIfInBounds_self_of_lt h)
  · refine Or.inl (Array.getElem?_eq_none ?_)
    rw [Array.size_setIfInBounds]
    omega

/-- Nothing is cleared at a vacant place. -/
theorem clear_of_vacant (h : Vacant log i) : log.setIfInBounds i .placeholder = log := by
  rcases h with h | h
  · exact Array.setIfInBounds_eq_of_size_le (Array.getElem?_eq_none_iff.mp h)
  · apply Array.ext_getElem?
    intro j
    rw [getElem?_write (Array.getElem?_eq_some_iff.mp h).1]
    split
    · next hj => rw [hj, h]
    · rfl

/-- **A log that is partly used up**: places are as they were or vacant. -/
def Stripped (log log' : Array Event) : Prop := ∀ i, log'[i]? = log[i]? ∨ Vacant log' i

theorem Stripped.refl (log : Array Event) : Stripped log log := fun _ => Or.inl rfl

theorem Stripped.vacant (h : Stripped log log') (hi : Vacant log i) : Vacant log' i := by
  rcases h i with heq | hvacant
  · unfold Vacant
    rwa [heq]
  · exact hvacant

theorem Stripped.trans {log'' : Array Event} (h : Stripped log log') (h' : Stripped log' log'') :
    Stripped log log'' := by
  intro i
  rcases h' i with heq' | hvacant'
  · rcases h i with heq | hvacant
    · exact Or.inl (heq'.trans heq)
    · exact Or.inr (h'.vacant hvacant)
  · exact Or.inr hvacant'

theorem stripped_clear (log : Array Event) (i : Nat) :
    Stripped log (log.setIfInBounds i .placeholder) := by
  intro j
  by_cases h : j = i
  · rw [h]
    exact Or.inr (vacant_clear log i)
  · exact Or.inl (Replay.getElem?_clear h)

/-- What is still there was there before. -/
theorem Stripped.eq_of_some (h : Stripped log log') (hi : log'[i]? = some e)
    (he : e ≠ .placeholder) : log[i]? = some e := by
  rcases h i with heq | hvacant
  · rwa [← heq]
  · rcases hvacant with hnone | hplaceholder
    · rw [hi] at hnone
      cases hnone
    · rw [hi] at hplaceholder
      cases hplaceholder
      exact absurd rfl he

theorem stripped_takeOuter (log : Array Event) (o : Option Nat) :
    Stripped log (takeOuter log o).2 := by
  induction log, o using takeOuter_induction with
  | none log =>
    rw [takeOuter_none]
    exact .refl log
  | start log i k outer h ih =>
    rw [takeOuter_start h]
    exact (stripped_clear log i).trans ih
  | stop log i h =>
    rw [takeOuter_stop h]
    exact stripped_clear log i

/-- The place at which a chain begins is vacant behind it. -/
theorem vacant_takeOuter (log : Array Event) (i : Nat) : Vacant (takeOuter log (some i)).2 i := by
  by_cases h : ∃ k outer, log[i]? = some (.start k outer)
  · obtain ⟨k, outer, h⟩ := h
    rw [takeOuter_start h]
    exact (stripped_takeOuter _ outer).vacant (vacant_clear log i)
  · rw [takeOuter_stop fun k outer heq => h ⟨k, outer, heq⟩]
    exact vacant_clear log i

/-- A chain takes only what can be reached from where it begins. -/
theorem getElem?_takeOuter {P : Nat → Prop} {log₀ : Array Event}
    (hP : ∀ i j k, P i → log₀[i]? = some (.start k (some j)) → P j) (hlog : Stripped log₀ log)
    {o : Option Nat} (ho : ∀ i, o = some i → P i) (hj : ¬P j) :
    (takeOuter log o).2[j]? = log[j]? := by
  induction log, o using takeOuter_induction with
  | none log => rw [takeOuter_none]
  | start log i k outer h ih =>
    have hi : P i := ho i rfl
    have hstart := hlog.eq_of_some h nofun
    have hne : j ≠ i := fun heq => hj (heq ▸ hi)
    have hrest := ih (hlog.trans (stripped_clear log i)) fun i' hi' =>
      hP i i' k hi (hi' ▸ hstart)
    rw [takeOuter_start h]
    exact hrest.trans (Replay.getElem?_clear hne)
  | stop log i h =>
    rw [takeOuter_stop h]
    exact Replay.getElem?_clear fun heq => hj (heq ▸ ho i rfl)

/-- A start that is used up was used up with what it refers to, except perhaps for one place. -/
def Closed (log₀ log : Array Event) (o : Option Nat) : Prop :=
  ∀ i j k, log₀[i]? = some (.start k (some j)) → Vacant log i → Vacant log j ∨ o = some j

/-- **A chain takes all** that can be reached from where it begins. -/
theorem Closed.takeOuter {log₀ : Array Event} {o : Option Nat} (h : Closed log₀ log o)
    (hlog : Stripped log₀ log) : Closed log₀ (takeOuter log o).2 none := by
  -- clearing the first place of the chain settles it
  have hclear : ∀ (log : Array Event) i, Closed log₀ log (some i) →
      ∀ i' j k, i' ≠ i → log₀[i']? = some (.start k (some j)) →
        Vacant (log.setIfInBounds i .placeholder) i' →
          Vacant (log.setIfInBounds i .placeholder) j := by
    intro log i h i' j k hne hstart hvacant
    have hold : Vacant log i' := by
      unfold Vacant at hvacant ⊢
      rwa [Replay.getElem?_clear hne] at hvacant
    rcases h i' j k hstart hold with hj | hj
    · exact (stripped_clear log i).vacant hj
    · cases hj
      exact vacant_clear log i
  induction log, o using takeOuter_induction with
  | none log =>
    rw [takeOuter_none]
    exact h
  | start log i k outer hi ih =>
    rw [takeOuter_start hi]
    refine ih ?_ (hlog.trans (stripped_clear log i))
    intro i' j k' hstart hvacant
    by_cases heq : i' = i
    · have hfirst := hlog.eq_of_some hi nofun
      rw [← heq, hstart] at hfirst
      cases hfirst
      exact Or.inr rfl
    · exact Or.inl (hclear log i h i' j k' heq hstart hvacant)
  | stop log i hi =>
    rw [takeOuter_stop hi]
    intro i' j k' hstart hvacant
    left
    by_cases heq : i' = i
    · -- there was nothing to take, so that this place had been used up before
      have hold : Vacant log i' := by
        rcases hlog i' with hsame | hvacant'
        · rw [heq] at hsame hstart
          exact absurd (hsame.trans hstart) (hi k' (some j))
        · exact hvacant'
      rcases h i' j k' hstart hold with hj | hj
      · exact (stripped_clear log i).vacant hj
      · cases hj
        exact vacant_clear log i
    · exact hclear log i h i' j k' heq hstart hvacant

/-- A step takes the chain that begins with its event. -/
theorem Replay.log_step (r : Replay) (i : Nat) : (r.step i).log = (takeOuter r.log (some i)).2 := by
  have hstep := r.stepped_step i
  generalize r.step i = r' at hstep ⊢
  cases hstep with
  | start h => rw [takeOuter_start h]
  | token h ht => rw [takeOuter_stop (by simp [h])]
  | spare h ht => rw [takeOuter_stop (by simp [h])]
  | finish h => rw [takeOuter_stop (by simp [h])]
  | idle h =>
    rw [takeOuter_stop fun k outer => Vacant.ne_start h, clear_of_vacant h]

theorem Reached.mono (h : Reached log n i) {n' : Nat} (hn : n ≤ n') : Reached log n' i := by
  induction h with
  | walked h => exact .walked (Nat.lt_of_lt_of_le h hn)
  | outer _ hi ih => exact .outer ih hi

theorem stripped_replayed (tokens : List Token) (log : Array Event) {m n : Nat} (h : m ≤ n) :
    Stripped (replayed tokens log m).log (replayed tokens log n).log := by
  induction n, h using Nat.le_induction with
  | base => exact .refl _
  | succ n _ ih =>
    rw [replayed_succ, Replay.log_step]
    exact ih.trans (stripped_takeOuter _ _)

/-- **What the first steps of a replay leave of a log.** -/
structure Used (log : Array Event) (n : Nat) (log' : Array Event) : Prop where
  stripped : Stripped log log'
  vacant : ∀ i, Reached log n i → Vacant log' i
  kept : ∀ i, ¬Reached log n i → log'[i]? = log[i]?

/-- What a replay has walked over is vacant. -/
theorem vacant_replayed (tokens : List Token) (log : Array Event) (hi : i < n) :
    Vacant (replayed tokens log n).log i := by
  induction n with
  | zero => cases hi
  | succ n ih =>
    rw [replayed_succ, Replay.log_step]
    rcases Nat.lt_succ_iff_lt_or_eq.mp hi with hlt | rfl
    · exact (stripped_takeOuter _ _).vacant (ih hlt)
    · exact vacant_takeOuter _ _

/-- What a replay has used up is used up with all that it refers to. -/
theorem closed_replayed (tokens : List Token) (log : Array Event) (n : Nat) :
    Closed log (replayed tokens log n).log none := by
  induction n with
  | zero =>
    intro i j k hstart hvacant
    exact absurd hstart hvacant.ne_start
  | succ n ih =>
    rw [replayed_succ, Replay.log_step]
    refine Closed.takeOuter (fun i j k hstart hvacant => ?_)
      (stripped_replayed tokens log (Nat.zero_le n))
    exact Or.inl ((ih i j k hstart hvacant).resolve_right nofun)

/-- **What is reached is vacant, and nothing else changes.** -/
theorem used_replayed (tokens : List Token) (log : Array Event) (n : Nat) :
    Used log n (replayed tokens log n).log := by
  have hstripped : ∀ n, Stripped log (replayed tokens log n).log := fun n =>
    stripped_replayed tokens log (Nat.zero_le n)
  refine ⟨hstripped n, fun i hi => ?_, fun i hi => ?_⟩
  · induction hi with
    | walked h => exact vacant_replayed tokens log h
    | outer _ hi ih => exact (closed_replayed tokens log n _ _ _ hi ih).resolve_right nofun
  · induction n with
    | zero => rfl
    | succ n ih =>
      rw [replayed_succ, Replay.log_step]
      have hchain := getElem?_takeOuter (P := Reached log (n + 1)) (o := some n)
        (fun i j k h hi => .outer h hi) (hstripped n)
        (fun i hi => .walked (by cases hi; exact Nat.lt_succ_self n)) hi
      rw [hchain]
      exact ih fun h => hi (h.mono (Nat.le_succ n))

end Using

/-! ### A start that refers to a vacant place -/

/-- **A log of which a start is redirected**: the node opens inside of those that start at another
place. -/
def redirect (log : Array Event) (i : Nat) (k : Kind) (n : Nat) : Array Event :=
  log.setIfInBounds i (.start k (some n))

section Redirecting

variable {log : Array Event} {r : Replay} {tokens : List Token} {o outer : Option Nat}
  {c i j n : Nat} {k : Kind}

@[simp] theorem size_redirect (log : Array Event) (i : Nat) (k : Kind) (n : Nat) :
    (redirect log i k n).size = log.size :=
  Array.size_setIfInBounds

theorem getElem?_redirect_self (h : i < log.size) (k : Kind) (n : Nat) :
    (redirect log i k n)[i]? = some (.start k (some n)) :=
  Array.getElem?_setIfInBounds_self_of_lt h

theorem getElem?_redirect_of_ne (h : j ≠ i) (log : Array Event) (k : Kind) (n : Nat) :
    (redirect log i k n)[j]? = log[j]? :=
  Array.getElem?_setIfInBounds_ne h.symm

/-- Clearing one place and writing at another one. -/
private theorem clear_write (log : Array Event) (e : Event) (h : i ≠ c) :
    (log.setIfInBounds c e).setIfInBounds i .placeholder =
      (log.setIfInBounds i .placeholder).setIfInBounds c e :=
  Array.setIfInBounds_comm _ _ (Ne.symm h)

/-- **A chain that does not come to a start** does not depend on what that refers to. -/
theorem takeOuter_write_of_kept (e : Event)
    (hkept : (takeOuter log o).2[c]? = some (.start k outer)) :
    takeOuter (log.setIfInBounds c e) o =
      ((takeOuter log o).1, (takeOuter log o).2.setIfInBounds c e) := by
  have hne : ∀ (log : Array Event) i, (takeOuter log (some i)).2[c]? = some (.start k outer) →
      i ≠ c := by
    rintro log i hkept rfl
    exact (vacant_takeOuter log i).ne_start hkept
  induction log, o using takeOuter_induction with
  | none log => rw [takeOuter_none, takeOuter_none]
  | start log i k' outer' h ih =>
    have hic := hne log i hkept
    have h' : (log.setIfInBounds c e)[i]? = some (.start k' outer') := by
      rw [Array.getElem?_setIfInBounds_ne hic.symm, h]
    rw [takeOuter_start h] at hkept ⊢
    rw [takeOuter_start h', clear_write log e hic, ih hkept]
  | stop log i h =>
    have hic := hne log i hkept
    rw [takeOuter_stop h, takeOuter_stop, clear_write log e hic]
    rwa [Array.getElem?_setIfInBounds_ne hic.symm]

/-- **A chain that comes to a start** finds nothing at a vacant place. -/
theorem takeOuter_redirect_of_vacant (hc : log[c]? = some (.start k none)) (hn : Vacant log n)
    (htaken : (takeOuter log o).2[c]? ≠ some (.start k none)) :
    takeOuter (redirect log c k n) o = takeOuter log o := by
  induction log, o using takeOuter_induction with
  | none log =>
    rw [takeOuter_none] at htaken
    exact absurd hc htaken
  | start log i k' outer' h ih =>
    by_cases hic : i = c
    · -- the start itself: its chain goes on to the vacant place, and ends there
      subst hic
      cases hc.symm.trans h
      have hlt : i < log.size := (Array.getElem?_eq_some_iff.mp hc).1
      have h' : (redirect log i k n)[i]? = some (.start k (some n)) :=
        getElem?_redirect_self hlt k n
      have hclear : (redirect log i k n).setIfInBounds i .placeholder =
          log.setIfInBounds i .placeholder := Array.setIfInBounds_setIfInBounds ..
      have hvacant := (stripped_clear log i).vacant hn
      have hend : takeOuter (log.setIfInBounds i .placeholder) (some n) =
          ([], log.setIfInBounds i .placeholder) := by
        rw [takeOuter_stop fun k outer => hvacant.ne_start, clear_of_vacant hvacant]
      rw [takeOuter_start h', takeOuter_start hc, hclear, hend, takeOuter_none]
    · have h' : (redirect log c k n)[i]? = some (.start k' outer') := by
        rw [getElem?_redirect_of_ne hic, h]
      have hrest := ih (by rwa [Replay.getElem?_clear (Ne.symm hic)])
        ((stripped_clear log i).vacant hn) (by rwa [takeOuter_start h] at htaken)
      rw [takeOuter_start h', takeOuter_start h, redirect, clear_write log _ hic]
      rw [redirect] at hrest
      rw [hrest]
  | stop log i h =>
    by_cases hic : i = c
    · exact absurd (hic ▸ hc) (h k none)
    · rw [takeOuter_stop h, Replay.getElem?_clear (Ne.symm hic)] at htaken
      exact absurd hc htaken

/-- A step with a start opens the nodes of the chain that begins there. -/
theorem Replay.step_of_start (h : r.log[i]? = some (.start k outer)) :
    r.step i = ⟨(takeOuter r.log (some i)).2, r.tokens,
      (takeOuter r.log (some i)).1.foldr Builder.start r.builder⟩ := by
  rw [takeOuter_start h]
  unfold step
  rw [h]

/-- **What a step does**, the log apart, is told by its event and by the chain that begins there. -/
theorem Replay.step_congr {log : Array Event}
    (hkinds : (takeOuter log (some i)).1 = (takeOuter r.log (some i)).1)
    (hevent : log[i]? = r.log[i]? ∨ i ∈ places log .opening ∧ i ∈ places r.log .opening) :
    ({ r with log } : Replay).step i = { r.step i with log := (takeOuter log (some i)).2 } := by
  by_cases hstart : i ∈ places log .opening ∧ i ∈ places r.log .opening
  · obtain ⟨k, outer, h⟩ := mem_places_opening.mp hstart.1
    obtain ⟨k', outer', h'⟩ := mem_places_opening.mp hstart.2
    rw [step_of_start h', step_of_start (r := { r with log }) h, hkinds]
  · have heq : log[i]? = r.log[i]? := hevent.resolve_right hstart
    have hstop : ∀ k outer, log[i]? ≠ some (.start k outer) := fun k outer h =>
      hstart ⟨mem_places_opening.mpr ⟨k, outer, h⟩,
        mem_places_opening.mpr ⟨k, outer, heq.symm.trans h⟩⟩
    rw [takeOuter_stop hstop]
    have hidle : Vacant r.log i →
        ({ r with log } : Replay).step i =
          { r.step i with log := log.setIfInBounds i .placeholder } := by
      intro hvacant
      have hvacant' : Vacant log i := by
        unfold Vacant
        rwa [heq]
      rw [clear_of_vacant hvacant']
      unfold step
      dsimp only
      rw [heq]
      rcases hvacant with h | h <;> rw [h]
    cases hi : r.log[i]? with
    | none => exact hidle (Or.inl hi)
    | some e =>
      cases e with
      | start k outer => exact absurd (heq.trans hi) (hstop k outer)
      | token k =>
        unfold step
        dsimp only
        rw [heq, hi]
        cases r.tokens <;> rfl
      | finish => rw [step_finish hi, step_finish (r := { r with log }) (heq.trans hi)]
      | placeholder => exact hidle (Or.inr hi)

/-- A step that does not come to a start does not depend on what that refers to. -/
private theorem step_write_of_kept (e : Event)
    (hkept : (r.step i).log[c]? = some (.start k outer)) :
    ({ r with log := r.log.setIfInBounds c e } : Replay).step i =
      { r.step i with log := (r.step i).log.setIfInBounds c e } := by
  rw [Replay.log_step] at hkept
  have hchain := takeOuter_write_of_kept e hkept
  have hic : i ≠ c := by
    rintro rfl
    exact (vacant_takeOuter r.log i).ne_start hkept
  rw [Replay.step_congr (by rw [hchain])
    (Or.inl (Array.getElem?_setIfInBounds_ne hic.symm)), hchain, Replay.log_step]

/-- A step that comes to a start finds nothing at a vacant place. -/
private theorem step_redirect_of_vacant (hc : r.log[c]? = some (.start k none))
    (hn : Vacant r.log n) (htaken : (r.step i).log[c]? ≠ some (.start k none)) :
    ({ r with log := redirect r.log c k n } : Replay).step i = r.step i := by
  rw [Replay.log_step] at htaken
  have hchain := takeOuter_redirect_of_vacant hc hn htaken
  have hlt : c < r.log.size := (Array.getElem?_eq_some_iff.mp hc).1
  have hevent : (redirect r.log c k n)[i]? = r.log[i]? ∨
      i ∈ places (redirect r.log c k n) .opening ∧ i ∈ places r.log .opening := by
    by_cases hic : i = c
    · subst hic
      exact Or.inr ⟨mem_places_opening.mpr ⟨k, some n, getElem?_redirect_self hlt k n⟩,
        mem_places_opening.mpr ⟨k, none, hc⟩⟩
    · exact Or.inl (getElem?_redirect_of_ne hic ..)
  rw [Replay.step_congr (by rw [hchain]) hevent, hchain, ← Replay.log_step]

/-- **As long as a start is in the log**, it does not matter what it refers to. -/
theorem replayed_redirect_of_kept (n : Nat)
    (hi : (replayed tokens log i).log[c]? = some (.start k none)) :
    replayed tokens (redirect log c k n) i =
      { replayed tokens log i with log := redirect (replayed tokens log i).log c k n } := by
  induction i with
  | zero => rfl
  | succ i ih =>
    have hkept := (stripped_replayed tokens log (Nat.le_succ i)).eq_of_some hi nofun
    rw [replayed_succ] at hi
    rw [replayed_succ, ih hkept, redirect, step_write_of_kept _ hi, replayed_succ]
    rfl

/-- **A start may be redirected to a vacant place**: nothing comes of it. -/
theorem ofEvents?_redirect_of_vacant (hi : (replayed tokens log i).log[c]? = some (.start k none))
    (hn : Vacant (replayed tokens log i).log n) :
    Tree.ofEvents? tokens (redirect log c k n) = Tree.ofEvents? tokens log := by
  -- both replays do the same until the start is taken, and agree from then on
  have hback : ∀ j, i ≤ j → replayed tokens (redirect log c k n) j = replayed tokens log j ∨
      (replayed tokens log j).log[c]? = some (.start k none) ∧
        replayed tokens (redirect log c k n) j =
          { replayed tokens log j with log := redirect (replayed tokens log j).log c k n } := by
    intro j hj
    induction j, hj using Nat.le_induction with
    | base => exact Or.inr ⟨hi, replayed_redirect_of_kept n hi⟩
    | succ j hj ih =>
      rw [replayed_succ, replayed_succ]
      rcases ih with hsame | ⟨hc, hredirected⟩
      · exact Or.inl (by rw [hsame])
      · rw [hredirected]
        by_cases hkept : ((replayed tokens log j).step j).log[c]? = some (.start k none)
        · exact Or.inr ⟨hkept, step_write_of_kept _ hkept⟩
        · exact Or.inl (step_redirect_of_vacant hc
            ((stripped_replayed tokens log hj).vacant hn) hkept)
  have hlt : i < log.size := by
    have hc := (stripped_replayed tokens log (Nat.zero_le i)).eq_of_some hi nofun
    by_contra hge
    have hreached : Reached log i c :=
      .walked (Nat.lt_of_lt_of_le (Array.getElem?_eq_some_iff.mp hc).1 (Nat.not_lt.mp hge))
    exact ((used_replayed tokens log i).vacant c hreached).ne_start hi
  rw [ofEvents?_eq, ofEvents?_eq, size_redirect]
  rcases hback log.size (Nat.le_of_lt hlt) with hsame | ⟨-, hredirected⟩
  · rw [hsame]
  · rw [hredirected]

end Redirecting
end Syntax
end Uci
