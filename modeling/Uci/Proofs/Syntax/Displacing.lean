import Uci.Proofs.Syntax.Redirecting

/-!
# Events that are displaced

A start that is redirected to a place in use takes what stands there out of its turn.  A token or an
end is lost that way, and the tree has a leaf or a node less.  A start is not lost, but its node
opens too early: in front of the end of a node which it stood behind.  All of this shows in the word
of the tree, which has the same ends in the same turns only if nothing was displaced.

## Main definitions

* `placesBefore` — the places of a mark that a replay has walked over.

## Main results

* `Regular.acts` — in a regular log, every event that a replay finds can be acted on.
* `vacant_of_ofEvents?_redirect` — **what stands at a place cannot be displaced without a trace.**
-/

namespace Uci
namespace Syntax

/-! ### Counting the events that were acted on -/

/-- The places of a mark in front of a place. -/
def placesBefore (log : Array Event) (m : Mark) (i : Nat) : Finset Nat :=
  (places log m).filter (· < i)

section Counting

variable {log log' : Array Event} {tokens : List Token} {m : Mark} {f : Nat → Nat} {i j n : Nat}

theorem mem_placesBefore : j ∈ placesBefore log m i ↔ j ∈ places log m ∧ j < i :=
  Finset.mem_filter

theorem card_placesBefore_of_mem (h : i ∈ places log m) :
    (placesBefore log m (i + 1)).card = (placesBefore log m i).card + 1 := by
  have hinsert : placesBefore log m (i + 1) = insert i (placesBefore log m i) := by
    ext j
    rw [mem_placesBefore, Finset.mem_insert, mem_placesBefore, Nat.lt_succ_iff_lt_or_eq]
    constructor
    · rintro ⟨hj, hlt | rfl⟩
      · exact Or.inr ⟨hj, hlt⟩
      · exact Or.inl rfl
    · rintro (rfl | ⟨hj, hlt⟩)
      · exact ⟨h, Or.inr rfl⟩
      · exact ⟨hj, Or.inl hlt⟩
  rw [hinsert, Finset.card_insert_of_notMem]
  exact fun hmem => Nat.lt_irrefl i (mem_placesBefore.mp hmem).2

theorem card_placesBefore_le_succ (log : Array Event) (m : Mark) (i : Nat) :
    (placesBefore log m i).card ≤ (placesBefore log m (i + 1)).card := by
  refine Finset.card_le_card fun j hj => ?_
  obtain ⟨hmem, hlt⟩ := mem_placesBefore.mp hj
  exact mem_placesBefore.mpr ⟨hmem, Nat.lt_succ_of_lt hlt⟩

theorem placesBefore_zero (log : Array Event) (m : Mark) : placesBefore log m 0 = ∅ :=
  Finset.filter_false_of_mem fun i _ => Nat.not_lt_zero i

theorem placesBefore_size (log : Array Event) (m : Mark) :
    placesBefore log m log.size = places log m :=
  Finset.filter_true_of_mem fun _ h => lt_size_of_mem_places h

/-- What is left of a log has no marks that the log had not. -/
theorem Stripped.places_subset (h : Stripped log log') (m : Mark) :
    places log' m ⊆ places log m := by
  intro i hi
  rcases h i with heq | hvacant
  · rw [mem_places] at hi ⊢
    rwa [← heq]
  · exact absurd hi (hvacant.notMem_places m)

/-- How often a mark was written by the first steps of a replay. -/
def countMark (tokens : List Token) (log : Array Event) (m : Mark) (n : Nat) : Nat :=
  (replayed tokens log n).builder.marks.count m

theorem countMark_of_acts (h : (replayed tokens log n).Acts n m) (hm : m ≠ .opening) :
    countMark tokens log m (n + 1) = countMark tokens log m n + 1 := by
  rw [countMark, replayed_succ, Replay.marks_step_of_acts h hm, List.count_append,
    List.count_singleton_self]
  rfl

theorem countMark_of_not_acts (h : ¬(replayed tokens log n).Acts n m) (hm : m ≠ .opening) :
    countMark tokens log m (n + 1) = countMark tokens log m n := by
  rw [countMark, replayed_succ, Replay.count_step_of_not_acts h hm]
  rfl

/-- No mark is written that stands nowhere. -/
theorem countMark_le (tokens : List Token) (log : Array Event) (hm : m ≠ .opening) (n : Nat) :
    countMark tokens log m n ≤ (placesBefore log m n).card := by
  induction n with
  | zero => exact Nat.zero_le _
  | succ n ih =>
    by_cases hacts : (replayed tokens log n).Acts n m
    · have hmem := (used_replayed tokens log n).stripped.places_subset m hacts.place
      rw [countMark_of_acts hacts hm, card_placesBefore_of_mem hmem]
      exact Nat.succ_le_succ ih
    · rw [countMark_of_not_acts hacts hm]
      exact Nat.le_trans ih (card_placesBefore_le_succ log m n)

/-- Nodes open as starts leave the log. -/
theorem countMark_opening (tokens : List Token) (log : Array Event) (n : Nat) :
    countMark tokens log .opening n + (places (replayed tokens log n).log .opening).card =
      (places log .opening).card := by
  induction n with
  | zero => exact Nat.zero_add _
  | succ n ih =>
    rw [← ih, countMark, replayed_succ]
    exact Replay.count_opening_step ..

/-- Leaves stand for the tokens that were taken. -/
theorem countMark_leaf (tokens : List Token) (log : Array Event) (n : Nat) :
    (replayed tokens log n).tokens.length + countMark tokens log .leaf n = tokens.length := by
  induction n with
  | zero => rfl
  | succ n ih =>
    rw [← ih, countMark, replayed_succ]
    exact Replay.length_tokens_step ..

/-- All starts in front of a place have left the log when the replay comes to it. -/
theorem card_placesBefore_le_countMark (tokens : List Token) (log : Array Event) (n : Nat) :
    (placesBefore log .opening n).card ≤ countMark tokens log .opening n := by
  have hused := used_replayed tokens log n
  have hdisjoint : Disjoint (placesBefore log .opening n)
      (places (replayed tokens log n).log .opening) := by
    rw [Finset.disjoint_left]
    intro i hi hleft
    have hreached : Reached log n i := .walked (mem_placesBefore.mp hi).2
    exact (hused.vacant i hreached).notMem_places _ hleft
  have hsubset : placesBefore log .opening n ∪ places (replayed tokens log n).log .opening ⊆
      places log .opening :=
    Finset.union_subset (Finset.filter_subset ..) (hused.stripped.places_subset _)
  have hcard := Finset.card_le_card hsubset
  rw [Finset.card_union_of_disjoint hdisjoint] at hcard
  have hopening := countMark_opening tokens log n
  omega

/-- **A log of which every event can be acted on**: its nodes are matched, and there is a token for
each of its leaves. -/
structure Regular (tokens : List Token) (log : Array Event) : Prop where
  matched : ∃ f, Matched log f
  leaves : (places log .leaf).card ≤ tokens.length

/-- More nodes start in front of the end of a node than end there. -/
theorem Matched.card_lt (hf : Matched log f) (hi : i ∈ places log .closing) :
    (placesBefore log .closing i).card < (placesBefore log .opening i).card := by
  have hmaps : Set.MapsTo f (placesBefore log .closing (i + 1)) (placesBefore log .opening i) := by
    intro j hj
    obtain ⟨hmem, hlt⟩ := mem_placesBefore.mp hj
    have hlt' := hf.lt j hmem
    exact mem_placesBefore.mpr ⟨hf.bij.mapsTo hmem, by omega⟩
  have hinj : Set.InjOn f (placesBefore log .closing (i + 1)) :=
    hf.bij.injOn.mono fun j hj => (mem_placesBefore.mp hj).1
  have hcard := Finset.card_le_card_of_injOn f hmaps hinj
  rwa [card_placesBefore_of_mem hi] at hcard

/-- **In a regular log, every event that a replay finds can be acted on.** -/
theorem Regular.acts (hs : Regular tokens log) (hn : n ∈ places (replayed tokens log n).log m) :
    (replayed tokens log n).Acts n m := by
  have hmem := (used_replayed tokens log n).stripped.places_subset m hn
  refine ⟨hn, ?_, ?_⟩
  · rintro rfl hnil
    have hcount := countMark_leaf tokens log n
    have hle := countMark_le tokens log (m := .leaf) nofun n
    have hlt : (placesBefore log .leaf n).card < (places log .leaf).card :=
      Finset.card_lt_card ⟨Finset.filter_subset .., fun hsub =>
        Nat.lt_irrefl n (mem_placesBefore.mp (hsub hmem)).2⟩
    have hleaves := hs.leaves
    rw [hnil, List.length_nil] at hcount
    omega
  · rintro rfl hnil
    obtain ⟨f, hf⟩ := hs.matched
    have hcount := Builder.count_marks_opening (replayed tokens log n).builder
    have hle := countMark_le tokens log (m := .closing) nofun n
    have hopen := card_placesBefore_le_countMark tokens log n
    have hlt := hf.card_lt hmem
    rw [hnil, List.length_nil] at hcount
    unfold countMark at hle hopen
    omega

end Counting

/-! ### What is displaced -/

/-- Two counts that begin and end alike, and of which one never grows more than the other, are alike
throughout. -/
private theorem eq_of_steps {a b : Nat → Nat} {n : Nat} (hzero : a 0 = b 0) (hn : a n = b n)
    (hstep : ∀ i < n, a (i + 1) + b i ≤ b (i + 1) + a i) : ∀ i ≤ n, a i = b i := by
  have hbetween : ∀ i j, i ≤ j → j ≤ n → a j + b i ≤ b j + a i := by
    intro i j hij
    induction j, hij using Nat.le_induction with
    | base => exact fun _ => (Nat.add_comm ..).le
    | succ j _ ih =>
      intro hj
      have h₁ := ih (Nat.le_of_succ_le hj)
      have h₂ := hstep j hj
      omega
  intro i hi
  have hfront := hbetween 0 i (Nat.zero_le i) hi
  have hback := hbetween i n hi (Nat.le_refl n)
  omega

/-- Where a word goes on with a mark is told by how often the mark was there before. -/
private theorem eq_of_append_cons {m : Mark} {xs ys xs' ys' : List Mark}
    (h : xs ++ m :: xs' = ys ++ m :: ys') (hcount : xs.count m = ys.count m) : xs = ys := by
  have key : ∀ xs ys zs xs' ys' : List Mark, ys = xs ++ zs → m :: xs' = zs ++ m :: ys' →
      xs.count m = ys.count m → xs = ys := by
    rintro xs ys zs xs' ys' rfl hrest hcount
    cases zs with
    | nil => rw [List.append_nil]
    | cons z zs =>
      obtain ⟨rfl, -⟩ := List.cons.inj hrest
      rw [List.count_append, List.count_cons_self] at hcount
      omega
  rcases List.append_eq_append_iff.mp h with ⟨zs, hys, hrest⟩ | ⟨zs, hxs, hrest⟩
  · exact key xs ys zs xs' ys' hys hrest hcount
  · exact (key ys xs zs ys' xs' hxs hrest hcount.symm).symm

section Displacing

variable {log : Array Event} {tokens : List Token} {t : Tree} {m : Mark} {c i j n q : Nat}
  {k : Kind}

theorem places_redirect (hc : log[c]? = some (.start k none)) (n : Nat) (m : Mark) :
    places (redirect log c k n) m = places log m := by
  rw [redirect, places_write (Array.getElem?_eq_some_iff.mp hc).1]
  split
  · next hm => exact Finset.insert_eq_of_mem ((mem_places_of hc).mpr hm)
  · next hm => exact Finset.erase_eq_of_notMem ((mem_places_of hc).not.mpr hm)

/-- What was reached before is reached when a start is redirected. -/
theorem Reached.redirect (h : Reached log i j) (hc : log[c]? = some (.start k none)) (n : Nat) :
    Reached (redirect log c k n) i j := by
  induction h with
  | walked h => exact .walked h
  | @outer i' j' k' _ hi ih =>
    refine ih.outer (k := k') ?_
    have hne : c ≠ i' := by
      rintro rfl
      cases hc.symm.trans hi
    rw [getElem?_redirect_of_ne hne.symm, hi]

/-- The place that a start is redirected to is reached with the start. -/
theorem reached_redirect (hc : log[c]? = some (.start k none)) (h : c < i) :
    Reached (redirect log c k n) i n :=
  .outer (.walked h) (getElem?_redirect_self (Array.getElem?_eq_some_iff.mp hc).1 k n)

/-- What is found where a start was redirected is found without that. -/
theorem mem_places_of_redirect (hc : log[c]? = some (.start k none))
    (h : j ∈ places (replayed tokens (redirect log c k n) i).log m) :
    j ∈ places (replayed tokens log i).log m := by
  have hused := used_replayed tokens (redirect log c k n) i
  have hmem := hused.stripped.places_subset m h
  rw [places_redirect hc] at hmem
  have hreached : ¬Reached log i j := fun hreached =>
    (hused.vacant j (hreached.redirect hc n)).notMem_places m h
  rw [mem_places, (used_replayed tokens log i).kept j hreached]
  exact mem_places.mp hmem

/-- **What is acted on** where a start was redirected is acted on without that. -/
theorem Regular.acts_of_redirect (hs : Regular tokens log) (hc : log[c]? = some (.start k none))
    (h : (replayed tokens (redirect log c k n) i).Acts i m) : (replayed tokens log i).Acts i m :=
  hs.acts (mem_places_of_redirect hc h.place)

/-- Nothing is left of a log in the end. -/
theorem places_replayed_size (tokens : List Token) (log : Array Event) (m : Mark) :
    places (replayed tokens log log.size).log m = ∅ := by
  have hused := used_replayed tokens log log.size
  refine Finset.eq_empty_of_forall_notMem fun i hi => ?_
  have hlt := lt_size_of_mem_places (hused.stripped.places_subset m hi)
  exact (hused.vacant i (.walked hlt)).notMem_places m hi

theorem countMark_opening_size (tokens : List Token) (log : Array Event) :
    countMark tokens log .opening log.size = (places log .opening).card := by
  have hopening := countMark_opening tokens log log.size
  rwa [places_replayed_size, Finset.card_empty, Nat.add_zero] at hopening

theorem marks_prefix_replayed (tokens : List Token) (log : Array Event) (h : i ≤ j) :
    (replayed tokens log i).builder.marks <+: (replayed tokens log j).builder.marks := by
  induction j, h using Nat.le_induction with
  | base => exact List.prefix_rfl
  | succ j _ ih =>
    rw [replayed_succ]
    exact ih.trans (Replay.marks_prefix_step ..)

/-- A mark that is written as often in the end is written in the same turns. -/
theorem Regular.acts_redirect_iff (hs : Regular tokens log) (hc : log[c]? = some (.start k none))
    (hm : m ≠ .opening)
    (hend : countMark tokens (redirect log c k n) m log.size = countMark tokens log m log.size) :
    (∀ i ≤ log.size, countMark tokens (redirect log c k n) m i = countMark tokens log m i) ∧
      ∀ i < log.size, (replayed tokens (redirect log c k n) i).Acts i m ↔
        (replayed tokens log i).Acts i m := by
  have hstep : ∀ i < log.size,
      countMark tokens (redirect log c k n) m (i + 1) + countMark tokens log m i ≤
        countMark tokens log m (i + 1) + countMark tokens (redirect log c k n) m i := by
    intro i _
    by_cases hacts : (replayed tokens (redirect log c k n) i).Acts i m
    · rw [countMark_of_acts hacts hm, countMark_of_acts (hs.acts_of_redirect hc hacts) hm]
      omega
    · rw [countMark_of_not_acts hacts hm]
      by_cases hacts' : (replayed tokens log i).Acts i m
      · rw [countMark_of_acts hacts' hm]
        omega
      · rw [countMark_of_not_acts hacts' hm]
        omega
  have hsame := eq_of_steps (a := countMark tokens (redirect log c k n) m)
    (b := countMark tokens log m) rfl hend hstep
  refine ⟨hsame, fun i hi => ⟨hs.acts_of_redirect hc, fun hacts => ?_⟩⟩
  by_contra hnot
  have hi₀ := hsame i (Nat.le_of_lt hi)
  have hi₁ := hsame (i + 1) hi
  rw [countMark_of_acts hacts hm, countMark_of_not_acts hnot hm] at hi₁
  omega

/-- **In a log that leaves no node open**, every end is acted on. -/
theorem Regular.acts_closing (hs : Regular tokens log)
    (hframes : (replayed tokens log log.size).builder.frames = [])
    (hq : q ∈ places log .closing) : (replayed tokens log q).Acts q .closing := by
  obtain ⟨f, hf⟩ := hs.matched
  -- as many nodes end as start, and all of these are closed
  have hend : countMark tokens log .closing log.size =
      (placesBefore log .closing log.size).card := by
    have hcount := Builder.count_marks_opening (replayed tokens log log.size).builder
    have hopening := countMark_opening_size tokens log
    have hbij := Finset.card_nbij f hf.bij.mapsTo hf.bij.injOn hf.bij.surjOn
    rw [hframes, List.length_nil] at hcount
    rw [placesBefore_size, hbij, ← hopening]
    exact hcount.symm
  have hstep : ∀ i < log.size, countMark tokens log .closing (i + 1) +
      (placesBefore log .closing i).card ≤
        (placesBefore log .closing (i + 1)).card + countMark tokens log .closing i := by
    intro i _
    by_cases hacts : (replayed tokens log i).Acts i .closing
    · have hmem := (used_replayed tokens log i).stripped.places_subset _ hacts.place
      rw [countMark_of_acts hacts nofun, card_placesBefore_of_mem hmem]
      omega
    · have hle := card_placesBefore_le_succ log .closing i
      rw [countMark_of_not_acts hacts nofun]
      omega
  have hsame := eq_of_steps (a := countMark tokens log .closing)
    (b := fun i => (placesBefore log .closing i).card)
    (congrArg Finset.card (placesBefore_zero log .closing)).symm hend hstep
  have hlt := lt_size_of_mem_places hq
  by_contra hnot
  have hq₀ := hsame q (Nat.le_of_lt hlt)
  have hq₁ := hsame (q + 1) hlt
  rw [countMark_of_not_acts hnot nofun] at hq₁
  rw [card_placesBefore_of_mem hq] at hq₁
  omega

/-- What stands at a place that no start refers to is there until the replay comes to it. -/
theorem mem_places_replayed (hfree : ∀ (i : Nat) k', log[i]? ≠ some (Event.start k' (some n)))
    (hn : n ∈ places log m) (hi : i ≤ n) : n ∈ places (replayed tokens log i).log m := by
  have hreached : ¬Reached log i n := by
    intro hreached
    cases hreached with
    | walked h => omega
    | outer _ h => exact hfree _ _ h
  rw [mem_places, (used_replayed tokens log i).kept n hreached]
  exact mem_places.mp hn

/-- What stands where a start was redirected to is gone with the start. -/
theorem notMem_places_redirect (hc : log[c]? = some (.start k none)) (hi : c < i) (m : Mark) :
    n ∉ places (replayed tokens (redirect log c k n) i).log m :=
  ((used_replayed tokens _ i).vacant n (reached_redirect hc hi)).notMem_places m

/-- **A token or an end that is displaced** is missing from the tree. -/
theorem Regular.notMem_places (hs : Regular tokens log) (hc : log[c]? = some (.start k none))
    (hcn : c < n) (hfree : ∀ (i : Nat) k', log[i]? ≠ some (Event.start k' (some n)))
    (hm : m ≠ .opening)
    (hend : countMark tokens (redirect log c k n) m log.size = countMark tokens log m log.size) :
    n ∉ places log m := by
  intro hn
  have hacts := hs.acts (mem_places_replayed hfree hn (Nat.le_refl n))
  have hturns := (hs.acts_redirect_iff hc hm hend).2
  exact notMem_places_redirect hc hcn m
    ((hturns n (lt_size_of_mem_places hn)).mpr hacts).place

/-- **The same tree is written in the same turns**: with nothing left open, the words are the same
in front of every end. -/
theorem Regular.marks_redirect (hs : Regular tokens log) (hc : log[c]? = some (.start k none))
    (hq : q ∈ places log .closing) (htree : Tree.ofEvents? tokens log = some t)
    (hframes : (replayed tokens log log.size).builder.frames = [])
    (hsame : Tree.ofEvents? tokens (redirect log c k n) = some t) :
    (replayed tokens (redirect log c k n) q).builder.marks =
      (replayed tokens log q).builder.marks := by
  rw [ofEvents?_eq] at htree
  rw [ofEvents?_eq, size_redirect] at hsame
  have hne : Mark.closing ≠ .opening := nofun
  have hend : countMark tokens (redirect log c k n) .closing log.size =
      countMark tokens log .closing log.size :=
    (Builder.count_marks_of_result? hsame hne).trans
      (Builder.count_marks_of_result? htree hne).symm
  -- as many nodes are opened and closed, so that nothing is left open with the redirected start
  have hwritten : countMark tokens (redirect log c k n) .opening log.size =
      countMark tokens log .opening log.size := by
    have hall := countMark_opening_size tokens (redirect log c k n)
    rw [size_redirect, places_redirect hc] at hall
    rw [hall, countMark_opening_size]
  have hframes' : (replayed tokens (redirect log c k n) log.size).builder.frames = [] := by
    have hcount := Builder.count_marks_opening (replayed tokens log log.size).builder
    have hcount' :=
      Builder.count_marks_opening (replayed tokens (redirect log c k n) log.size).builder
    unfold countMark at hwritten hend
    rw [hframes, List.length_nil] at hcount
    exact List.length_eq_zero_iff.mp (by omega)
  have hword := Builder.marks_of_result? htree hframes
  have hword' := Builder.marks_of_result? hsame hframes'
  -- the end is written by both, and as many ends in front of it
  have hlt := lt_size_of_mem_places hq
  have hacts := hs.acts_closing hframes hq
  obtain ⟨hbefore, hturns⟩ := hs.acts_redirect_iff hc hne hend
  have hacts' := (hturns q hlt).mpr hacts
  obtain ⟨xs, hxs⟩ := marks_prefix_replayed tokens log (Nat.succ_le_of_lt hlt)
  obtain ⟨ys, hys⟩ := marks_prefix_replayed tokens (redirect log c k n) (Nat.succ_le_of_lt hlt)
  rw [replayed_succ, Replay.marks_step_of_acts hacts hne, hword, List.append_assoc] at hxs
  rw [replayed_succ, Replay.marks_step_of_acts hacts' hne, hword', List.append_assoc] at hys
  exact eq_of_append_cons (hys.trans hxs.symm) (hbefore q (Nat.le_of_lt hlt))

/-- **A start that is displaced** opens its node too early. -/
theorem notMem_places_opening (hc : log[c]? = some (.start k none)) (hcq : c < q) (hqn : q ≤ n)
    (hfree : ∀ (i : Nat) k', log[i]? ≠ some (Event.start k' (some n)))
    (hmarks : (replayed tokens (redirect log c k n) q).builder.marks =
      (replayed tokens log q).builder.marks) : n ∉ places log .opening := by
  intro hn
  have hopened : countMark tokens (redirect log c k n) .opening q =
      countMark tokens log .opening q := congrArg (List.count Mark.opening) hmarks
  have hleft := countMark_opening tokens log q
  have hleft' := countMark_opening tokens (redirect log c k n) q
  rw [places_redirect hc, hopened] at hleft'
  -- the start has left the one log, and stands in the other
  have hfewer : (places (replayed tokens (redirect log c k n) q).log .opening).card <
      (places (replayed tokens log q).log .opening).card :=
    Finset.card_lt_card ⟨fun i => mem_places_of_redirect hc, fun hsubset =>
      notMem_places_redirect hc hcq _ (hsubset (mem_places_replayed hfree hn hqn))⟩
  omega

/-- **What stands at a place cannot be displaced without a trace**: if a start is redirected to a
place behind the end of a node, and no other start refers to that place, the tree stays the same
only if there is nothing. -/
theorem vacant_of_ofEvents?_redirect (hs : Regular tokens log)
    (hc : log[c]? = some (.start k none)) (hq : q ∈ places log .closing) (hcq : c < q) (hqn : q < n)
    (hfree : ∀ (i : Nat) k', log[i]? ≠ some (Event.start k' (some n)))
    (htree : Tree.ofEvents? tokens log = some t)
    (hframes : (replayed tokens log log.size).builder.frames = [])
    (hsame : Tree.ofEvents? tokens (redirect log c k n) = some t) : Vacant log n := by
  have hopening : n ∉ places log .opening := notMem_places_opening hc hcq (Nat.le_of_lt hqn) hfree
    (hs.marks_redirect hc hq htree hframes hsame)
  have hother : ∀ m, m ≠ .opening → n ∉ places log m := by
    intro m hm
    rw [ofEvents?_eq] at htree
    rw [ofEvents?_eq, size_redirect] at hsame
    exact hs.notMem_places hc (Nat.lt_trans hcq hqn) hfree hm
      ((Builder.count_marks_of_result? hsame hm).trans
        (Builder.count_marks_of_result? htree hm).symm)
  cases hn : log[n]? with
  | none => exact Or.inl hn
  | some e =>
    cases e with
    | start k' outer => exact absurd ((mem_places_of hn).mpr rfl) hopening
    | token k' => exact absurd ((mem_places_of hn).mpr rfl) (hother .leaf nofun)
    | finish => exact absurd ((mem_places_of hn).mpr rfl) (hother .closing nofun)
    | placeholder => exact Or.inr hn

end Displacing
end Syntax
end Uci
