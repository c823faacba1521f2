import Uci.Proofs.Arena.WellFormed

/-!
# What the checks find out

Every edit makes its checks before its first write.  This module says of each check
when it passes, in terms of the arena, so that no proof about an edit has to open a
check again.  The documents are those whose arena is well formed, where the root is
the node `0` and the configuration the node `1`.

## Main definitions

* `IsGivenName` — a name that a section may be given.
* `Arena.Unused` — a name that no live child of a node has.

## Main results

* `live_eq_ok_iff`, `liveOf_eq_ok_iff`, `parentOf_eq_ok_iff` — reading a live node.
* `configuration_eq`, `sectionParent_eq_ok_iff` — where sections are added.
* `checkWord_eq_ok_iff`, `checkSectionName_eq_ok_iff`, `checkUnused_eq_ok_iff`,
  `checkHolds_eq_ok_iff`, `checkMerge_eq_ok_iff` — the checks proper.
-/

namespace Uci

/-- **A name that a section may be given**: any text but the empty one and those that
begin as generated names do. -/
def IsGivenName (t : Text) : Prop := t ≠ [] ∧ t.head? ≠ some '@'

instance (t : Text) : Decidable (IsGivenName t) := inferInstanceAs (Decidable (_ ∧ _))

/-- **Unused name**: no live child of `p`, apart from `self`, has it. -/
def Arena.Unused (a : Arena) (p : Handle) (n : Text) (self : Option Handle) : Prop :=
  ∀ x ∈ a.liveChildren p, some x ≠ self → a.name? x ≠ some n

/-- A computation in two steps ends well if both do. -/
theorem bind_eq_ok_iff {ε α β : Type} {x : Except ε α} {f : α → Except ε β} {b : β} :
    (x >>= f) = .ok b ↔ ∃ a, x = .ok a ∧ f a = .ok b := by
  cases x with
  | error e => simp [bind, Except.bind]
  | ok a => simp [bind, Except.bind]

theorem map_eq_ok_iff {ε α β : Type} {x : Except ε α} {f : α → β} {b : β} :
    x.map f = .ok b ↔ ∃ a, x = .ok a ∧ f a = b := by
  cases x with
  | error e => simp [Except.map]
  | ok a => simp [Except.map]

/-- It ends badly if one of them does, the second one only behind the first. -/
theorem bind_eq_error_iff {ε α β : Type} {x : Except ε α} {f : α → Except ε β} {e : ε} :
    (x >>= f) = .error e ↔ x = .error e ∨ ∃ a, x = .ok a ∧ f a = .error e := by
  cases x with
  | error e => simp [bind, Except.bind]
  | ok a => simp [bind, Except.bind]

/-- The same where the first one finds nothing out but that it passes. -/
theorem check_bind_eq_error_iff {ε β : Type} {x : Except ε Unit} {f : Unit → Except ε β} {e : ε} :
    (x >>= f) = .error e ↔ x = .error e ∨ x = .ok () ∧ f () = .error e :=
  bind_eq_error_iff.trans (or_congr_right ⟨fun ⟨_, h⟩ => h, fun h => ⟨(), h⟩⟩)

theorem map_eq_error_iff {ε α β : Type} {x : Except ε α} {f : α → β} {e : ε} :
    x.map f = .error e ↔ x = .error e := by
  cases x <;> simp [Except.map]

namespace Document

variable {d : Document} {h p s : Handle} {k : NodeKind} {n : Node} {t : Text} {r : Refusal}

/-! ### Reading a live node -/

theorem node_eq_ok_iff : d.node h = .ok n ↔ d.arena.get? h = some n := by
  unfold node
  cases d.arena.get? h <;> simp

theorem live_eq_ok_iff : d.live h = .ok n ↔ d.arena.get? h = some n ∧ d.isLive h = true := by
  rw [live, bind_eq_ok_iff]
  constructor
  · rintro ⟨m, hm, hl⟩
    split at hl
    · next hlive => cases hl; exact ⟨node_eq_ok_iff.mp hm, hlive⟩
    · cases hl
  · rintro ⟨hn, hlive⟩
    exact ⟨n, node_eq_ok_iff.mpr hn, if_pos hlive⟩

/-- A live node of some kind can be read. -/
theorem live_of_kind (hlive : d.isLive h = true) (hk : d.arena.kind? h = some k) :
    ∃ n, d.live h = .ok n ∧ n.kind = k := by
  obtain ⟨n, hn⟩ := Option.isSome_iff_exists.mp
    ((Arena.get?_isSome_iff d.arena h).mpr (Arena.lt_size_of_kind? hk))
  rw [Arena.kind?_of_get? hn] at hk
  exact ⟨n, live_eq_ok_iff.mpr ⟨hn, hlive⟩, Option.some.inj hk⟩

theorem liveOf_eq_ok_iff :
    d.liveOf h k = .ok n ↔ d.arena.get? h = some n ∧ d.isLive h = true ∧ n.kind = k := by
  rw [liveOf, bind_eq_ok_iff]
  constructor
  · rintro ⟨m, hm, hl⟩
    obtain ⟨hn, hlive⟩ := live_eq_ok_iff.mp hm
    split at hl
    · next hk => cases hl; exact ⟨hn, hlive, hk⟩
    · cases hl
  · rintro ⟨hn, hlive, hk⟩
    exact ⟨n, live_eq_ok_iff.mpr ⟨hn, hlive⟩, if_pos hk⟩

/-- The check that a live node is of some kind, when what it found is not used. -/
theorem exists_liveOf_iff :
    (∃ n, d.liveOf h k = .ok n) ↔ d.isLive h = true ∧ d.arena.kind? h = some k := by
  constructor
  · rintro ⟨n, hn⟩
    obtain ⟨hget, hlive, rfl⟩ := liveOf_eq_ok_iff.mp hn
    exact ⟨hlive, Arena.kind?_of_get? hget⟩
  · rintro ⟨hlive, hk⟩
    obtain ⟨n, hn, hkind⟩ := live_of_kind hlive hk
    exact ⟨n, bind_eq_ok_iff.mpr ⟨n, hn, if_pos hkind⟩⟩

theorem parentOf_eq_ok_iff :
    d.parentOf h k = .ok p ↔
      d.isLive h = true ∧ d.arena.kind? h = some k ∧ d.arena.parent? h = some p := by
  rw [parentOf, bind_eq_ok_iff]
  constructor
  · rintro ⟨n, hn, hp⟩
    obtain ⟨hget, -, -⟩ := liveOf_eq_ok_iff.mp hn
    obtain ⟨hlive, hk⟩ := exists_liveOf_iff.mp ⟨n, hn⟩
    refine ⟨hlive, hk, ?_⟩
    rw [(Arena.get?_eq_some_iff.mp hget).2.1]
    split at hp
    · next q hq => cases hp; exact hq
    · cases hp
  · rintro ⟨hlive, hk, hp⟩
    -- the kind and the parent are those of one and the same node
    obtain ⟨n, hn⟩ := exists_liveOf_iff.mpr ⟨hlive, hk⟩
    refine ⟨n, hn, ?_⟩
    rw [(Arena.get?_eq_some_iff.mp (liveOf_eq_ok_iff.mp hn).1).2.1] at hp
    rw [hp]

theorem groupOf_eq_ok_iff :
    d.groupOf s = .ok p ↔
      d.isLive s = true ∧ d.arena.kind? s = some .section ∧ d.arena.parent? s = some p :=
  parentOf_eq_ok_iff

/-! ### The checks -/

theorem checkWord_eq_ok_iff {use : WordUse} :
    checkWord use t = .ok () ↔ Syntax.isWord t = true := by
  unfold checkWord
  split <;> simp_all

theorem checkSectionName_eq_ok_iff : checkSectionName t = .ok () ↔ IsGivenName t := by
  unfold checkSectionName IsGivenName
  split
  · simp_all
  · split <;> simp_all

/-- What a word is refused for. -/
theorem checkWord_eq_error_iff {use : WordUse} :
    checkWord use t = .error r ↔
      ¬Syntax.isWord t = true ∧ r = .misuse (.notAWord use t) := by
  unfold checkWord
  split
  · next hword => simp [hword]
  · next hword => simp [hword, eq_comm]

/-- What the name of a section is refused for. -/
theorem checkSectionName_eq_error_iff :
    checkSectionName t = .error r ↔
      t = [] ∧ r = .misuse .emptySectionName ∨
        t.head? = some '@' ∧ r = .misuse (.reservedSectionName t) := by
  unfold checkSectionName
  cases t with
  | nil => simp [eq_comm]
  | cons c t => by_cases hc : c = '@' <;> simp [hc, eq_comm]

theorem checkUnused_eq_ok_iff {self : Option Handle} :
    d.checkUnused p t self = .ok () ↔ d.arena.Unused p t self := by
  unfold checkUnused Arena.Unused
  split
  · next hany =>
    simp only [List.any_eq_true, Bool.and_eq_true, decide_eq_true_eq] at hany
    obtain ⟨x, hx, hne, hname⟩ := hany
    simp only [reduceCtorEq, false_iff]
    exact fun hall => hall x hx hne hname
  · next hany =>
    simp only [List.any_eq_true, Bool.and_eq_true, decide_eq_true_eq] at hany
    simp only [true_iff]
    exact fun x hx hne hname => hany ⟨x, hx, hne, hname⟩

theorem checkHolds_eq_ok_iff :
    d.checkHolds p k = .ok () ↔
      d.isLive p = true ∧ ∃ kp, d.arena.kind? p = some kp ∧ kp.mayHold k = true := by
  rw [checkHolds, bind_eq_ok_iff]
  constructor
  · rintro ⟨n, hn, hok⟩
    obtain ⟨hget, hlive⟩ := live_eq_ok_iff.mp hn
    refine ⟨hlive, n.kind, Arena.kind?_of_get? hget, ?_⟩
    split at hok
    · next hold => exact hold
    · cases hok
  · rintro ⟨hlive, kp, hkp, hold⟩
    obtain ⟨n, hn, rfl⟩ := live_of_kind hlive hkp
    exact ⟨n, hn, if_pos hold⟩

/-- A check of every element of a list passes if it passes for each. -/
theorem forM_eq_ok_iff {α ε : Type} {f : α → Except ε Unit} {l : List α} :
    l.forM f = .ok () ↔ ∀ x ∈ l, f x = .ok () := by
  induction l with
  | nil => simp [pure, Except.pure]
  | cons x l ih =>
    change (f x >>= fun _ => l.forM f) = .ok () ↔ _
    rw [bind_eq_ok_iff, List.forall_mem_cons, ← ih]
    exact ⟨fun ⟨_, hx, hl⟩ => ⟨hx, hl⟩, fun ⟨hx, hl⟩ => ⟨(), hx, hl⟩⟩

theorem option_forM_eq_ok_iff {α ε : Type} {f : α → Except ε Unit} {o : Option α} :
    o.forM f = .ok () ↔ ∀ x ∈ o, f x = .ok () := by
  cases o <;> simp [Option.forM, pure, Except.pure]

/-- Merging is declined only for names that were given: no such name of `source` may be
in use in `target`. -/
theorem checkMerge_eq_ok_iff {source target : Handle} :
    d.checkMerge source target = .ok () ↔
      ∀ x ∈ d.arena.liveChildren source, ∀ n, d.arena.name? x = some n →
        n.head? ≠ some '@' → d.arena.Unused target n none := by
  rw [checkMerge, forM_eq_ok_iff]
  apply forall₂_congr
  intro x _
  cases hname : d.arena.name? x with
  | none => simp
  | some n =>
    -- names that were generated are not looked at
    by_cases hat : n.head? = some '@'
    · simp [hat]
    · simp [hat, checkUnused_eq_ok_iff]

/-! ### The configuration -/

/-- Right below the root there is the configuration alone. -/
theorem liveChildren_root (hw : d.arena.WellFormed) : d.arena.liveChildren 0 = [1] := by
  -- what the root may hold is a configuration, and there is one only
  have hall : ∀ x ∈ d.arena.liveChildren 0, x = 1 := by
    intro x hx
    obtain ⟨kp, kk, hkp, hkk, hold⟩ := hw.parent_holds x 0 (hw.mem_liveChildren_iff.mp hx)
    rw [hw.kind_root] at hkp
    cases hkp
    refine hw.eq_config x ?_
    rw [hkk]
    cases kk <;> first | rfl | cases hold
  have hmem : 1 ∈ d.arena.liveChildren 0 := hw.mem_liveChildren_iff.mpr hw.parent_config
  have hnodup := hw.nodup_liveChildren 0
  cases hl : d.arena.liveChildren 0 with
  | nil => rw [hl] at hmem; cases hmem
  | cons x l =>
    rw [hl] at hall hnodup
    rw [List.nodup_cons] at hnodup
    have hx : x = 1 := hall x (List.mem_cons_self ..)
    cases l with
    | nil => rw [hx]
    | cons y l =>
      -- a second child would be the configuration again
      have hy : y = 1 := hall y (by simp)
      exact absurd (hx.trans hy.symm) fun hxy => hnodup.1 (by simp [hxy])

theorem configuration_eq (hw : d.arena.WellFormed) : d.configuration = .ok 1 := by
  have hkind : (d.arena.get? 1).any (·.kind == .config) = true := by
    obtain ⟨n, hn⟩ := Option.isSome_iff_exists.mp
      ((Arena.get?_isSome_iff d.arena 1).mpr hw.one_lt_size)
    have hk := hw.kind_config
    rw [Arena.kind?_of_get? hn, Option.some.injEq] at hk
    simp [hn, hk]
  unfold configuration root
  rw [liveChildren_root hw, List.find?_cons_of_pos (by simpa using hkind)]

theorem groups_eq (hw : d.arena.WellFormed) : d.groups = d.arena.liveChildren 1 := by
  unfold groups
  rw [configuration_eq hw]

theorem sections_eq (hw : d.arena.WellFormed) :
    d.sections = (d.arena.liveChildren 1).flatMap d.arena.liveChildren := by
  unfold sections
  rw [groups_eq hw]

/-- Sections are added at the root or at the configuration, and in both cases come to
hang below the configuration. -/
theorem sectionParent_eq_ok_iff (hw : d.arena.WellFormed) {c : Handle} :
    d.sectionParent h = .ok c ↔ (h = 0 ∨ h = 1) ∧ c = 1 := by
  rw [sectionParent, bind_eq_ok_iff]
  constructor
  · rintro ⟨n, hn, hc⟩
    have hkind := Arena.kind?_of_get? (live_eq_ok_iff.mp hn).1
    -- no other kind passes the check
    cases hk : n.kind with
    | root =>
      rw [hk, configuration_eq hw] at hc
      rw [hk] at hkind
      exact ⟨Or.inl (hw.eq_root h hkind), (Except.ok.inj hc).symm⟩
    | config =>
      rw [hk] at hc hkind
      have h1 : h = 1 := hw.eq_config h hkind
      exact ⟨Or.inr h1, (Except.ok.inj hc).symm.trans h1⟩
    | sectionType => rw [hk] at hc; cases hc
    | «section» => rw [hk] at hc; cases hc
    | option => rw [hk] at hc; cases hc
    | list => rw [hk] at hc; cases hc
    | element => rw [hk] at hc; cases hc
  · rintro ⟨rfl | rfl, rfl⟩
    · obtain ⟨n, hn, hk⟩ := live_of_kind hw.isLive_root hw.kind_root
      exact ⟨n, hn, by rw [hk]; exact configuration_eq hw⟩
    · obtain ⟨n, hn, hk⟩ := live_of_kind hw.isLive_config hw.kind_config
      exact ⟨n, hn, by rw [hk]⟩

end Document
end Uci
