import Mathlib.Logic.Relation
import Mathlib.Tactic.ByContra
import Uci.Proofs.Arena.Change

/-!
# Well-formed arenas

The shape that every edit keeps.  Children are stored downwards and parents upwards,
and the two do not always agree: a removed node has lost its parent and is still
among the children of the node it hung below.  What holds is that every node has one
place among all children, and that a parent, where there is one, is an older node
that has the child in its list.  So the way up from a node is finite, and it ends at
the root exactly for those nodes that the way down from the root comes to.

## Main definitions

* `Arena.WellFormed` — the shape.
* `Arena.Climbs a h b` — the walk up from `h` ends, at the root (`b` is true) or not.
* `Arena.Descends a h k` — the way down over live children leads from `h` to `k`.

## Main results

* `WellFormed.modifyContent`, `.detach`, `.hang`, `.hangSection`, `.absorb`,
  `.mergeGroups`, `.nameSection` — every change of an arena keeps the shape.
* `WellFormed.climbs_iff` — the walk up always ends, with the answer `isLive` gives.
* `WellFormed.isLive_iff_descends` — **up and down agree** on what is live.
-/

namespace Uci
namespace Arena

variable {a b : Arena} {g h k p s t : Handle} {c : Content}

/-- **Well-formed arena.** -/
structure WellFormed (a : Arena) : Prop where
  /-- The first node is the root. -/
  kind_root : a.kind? 0 = some .root
  /-- No other node is one. -/
  eq_root : ∀ h, a.kind? h = some .root → h = 0
  /-- The second node is the configuration. -/
  kind_config : a.kind? 1 = some .config
  /-- No other node is one. -/
  eq_config : ∀ h, a.kind? h = some .config → h = 1
  /-- The configuration hangs below the root. -/
  parent_config : a.parent? 1 = some 0
  /-- The root is nobody's child. -/
  root_notMem : ∀ h, 0 ∉ a.children h
  /-- Every child that is stored is a node. -/
  child_lt : ∀ h, ∀ k ∈ a.children h, k < a.size
  /-- Every node but the root, removed ones included, stands exactly once in the list of
  exactly one node. -/
  child_once : ∀ k, k ≠ 0 → k < a.size →
    ∃ p, (a.children p).count k = 1 ∧ ∀ q, q ≠ p → k ∉ a.children q
  /-- A node that has a parent is among its children. -/
  mem_of_parent : ∀ k p, a.parent? k = some p → k ∈ a.children p
  /-- A parent is older than its child. -/
  parent_lt : ∀ k p, a.parent? k = some p → p < k
  /-- The table lets the child hang below its parent. -/
  parent_holds : ∀ k p, a.parent? k = some p →
    ∃ kp kk, a.kind? p = some kp ∧ a.kind? k = some kk ∧ kp.mayHold kk = true
  /-- The type groups stand in the order in which they were made. -/
  groups_sorted : (a.children 1).Pairwise (· < ·)

/-! ### The smallest arena -/

/-- There are two nodes in it: -/
theorem eq_of_lt_size_empty (hh : h < Document.empty.arena.size) : h = 0 ∨ h = 1 := by
  rw [show Document.empty.arena.size = 2 by decide] at hh
  unfold Handle at *
  omega

/-- the root and the configuration, -/
theorem content?_empty (hc : Document.empty.arena.content? h = some c) :
    h = 0 ∧ c = .root ∨ h = 1 ∧ c = .config := by
  rcases eq_of_lt_size_empty (lt_size_of_content? hc) with rfl | rfl
  · rw [show Document.empty.arena.content? 0 = some .root by decide] at hc
    exact Or.inl ⟨rfl, (Option.some.inj hc).symm⟩
  · rw [show Document.empty.arena.content? 1 = some .config by decide] at hc
    exact Or.inr ⟨rfl, (Option.some.inj hc).symm⟩

theorem kind?_empty {n : NodeKind} (hn : Document.empty.arena.kind? h = some n) :
    h = 0 ∧ n = .root ∨ h = 1 ∧ n = .config := by
  obtain ⟨c, hc, rfl⟩ := kind?_eq_some_iff.mp hn
  rcases content?_empty hc with ⟨rfl, rfl⟩ | ⟨rfl, rfl⟩
  · exact Or.inl ⟨rfl, rfl⟩
  · exact Or.inr ⟨rfl, rfl⟩

/-- of which the second one hangs below the first. -/
theorem parent?_empty (hp : Document.empty.arena.parent? k = some p) : k = 1 ∧ p = 0 := by
  rcases eq_of_lt_size_empty (lt_size_of_parent? hp) with rfl | rfl
  · rw [show Document.empty.arena.parent? 0 = none by decide] at hp
    cases hp
  · rw [show Document.empty.arena.parent? 1 = some 0 by decide] at hp
    exact ⟨rfl, (Option.some.inj hp).symm⟩

theorem children_empty (p : Handle) :
    Document.empty.arena.children p = if p = 0 then [1] else [] := by
  by_cases hp : p < Document.empty.arena.size
  · rcases eq_of_lt_size_empty hp with rfl | rfl <;> decide
  · rw [children_eq_nil (Nat.not_lt.mp hp), if_neg]
    rintro rfl
    exact hp (by decide)

/-- A root with a configuration below it is well formed. -/
theorem wellFormed_empty : Document.empty.arena.WellFormed where
  kind_root := by decide
  eq_root h hk := by
    rcases kind?_empty hk with ⟨h0, -⟩ | ⟨-, hn⟩
    · exact h0
    · cases hn
  kind_config := by decide
  eq_config h hk := by
    rcases kind?_empty hk with ⟨-, hn⟩ | ⟨h1, -⟩
    · cases hn
    · exact h1
  parent_config := by decide
  root_notMem h := by
    rw [children_empty]
    split <;> simp
  child_lt h k hk := by
    rw [children_empty] at hk
    split at hk
    · rw [List.mem_singleton.mp hk]
      decide
    · cases hk
  child_once k h0 hk := by
    obtain rfl := (eq_of_lt_size_empty hk).resolve_left h0
    refine ⟨0, by decide, fun q hq => ?_⟩
    rw [children_empty, if_neg hq]
    exact List.not_mem_nil
  mem_of_parent k p hp := by
    obtain ⟨rfl, rfl⟩ := parent?_empty hp
    decide
  parent_lt k p hp := by
    obtain ⟨rfl, rfl⟩ := parent?_empty hp
    decide
  parent_holds k p hp := by
    obtain ⟨rfl, rfl⟩ := parent?_empty hp
    exact ⟨.root, .config, by decide⟩
  groups_sorted := by decide

namespace WellFormed

variable (hw : a.WellFormed)
include hw

theorem size_pos : 0 < a.size := lt_size_of_kind? hw.kind_root

theorem one_lt_size : 1 < a.size := lt_size_of_kind? hw.kind_config

theorem parent_lt_size (hp : a.parent? k = some p) : p < a.size :=
  Nat.lt_trans (hw.parent_lt k p hp) (lt_size_of_parent? hp)

theorem ne_of_parent (hp : a.parent? k = some p) : k ≠ p :=
  Nat.ne_of_gt (hw.parent_lt k p hp)

theorem mem_liveChildren_iff : k ∈ a.liveChildren p ↔ a.parent? k = some p := by
  rw [mem_liveChildren]
  exact ⟨And.right, fun hp => ⟨hw.mem_of_parent k p hp, hp⟩⟩

theorem lt_size_of_childNamed? {n : Text} (hk : a.childNamed? p n = some k) : k < a.size :=
  lt_size_of_parent? (hw.mem_liveChildren_iff.mp (childNamed?_eq_some hk).1)

theorem root_parent : a.parent? 0 = none := by
  cases hp : a.parent? 0 with
  | none => rfl
  | some p => exact absurd (hw.parent_lt 0 p hp) (Nat.not_lt_zero p)

/-- The list that a node stands in. -/
theorem count_children_le_one (p k : Handle) : (a.children p).count k ≤ 1 := by
  by_cases hk : k ∈ a.children p
  · have h0 : k ≠ 0 := fun h => hw.root_notMem p (h ▸ hk)
    obtain ⟨q, hq, hne⟩ := hw.child_once k h0 (hw.child_lt p k hk)
    by_cases hpq : p = q
    · exact Nat.le_of_eq (hpq ▸ hq)
    · exact absurd hk (hne p hpq)
  · rw [List.count_eq_zero.mpr hk]
    exact Nat.zero_le 1

theorem nodup_children (p : Handle) : (a.children p).Nodup :=
  List.nodup_iff_count.mpr (hw.count_children_le_one p)

theorem nodup_liveChildren (p : Handle) : (a.liveChildren p).Nodup :=
  (hw.nodup_children p).filter _

/-- Two lists of children have nothing in common. -/
theorem eq_of_mem_children (hp : k ∈ a.children p) (hq : k ∈ a.children g) : p = g := by
  have h0 : k ≠ 0 := fun h => hw.root_notMem p (h ▸ hp)
  obtain ⟨r, -, hne⟩ := hw.child_once k h0 (hw.child_lt p k hp)
  have hpr : p = r := by
    by_contra h
    exact hne p h hp
  have hgr : g = r := by
    by_contra h
    exact hne g h hq
  rw [hpr, hgr]

/-! ### What keeps the shape -/

/-- What changes neither kinds nor places keeps the shape. -/
theorem congr (hs : b.size = a.size) (hk : ∀ h, b.kind? h = a.kind? h)
    (hp : ∀ h, b.parent? h = a.parent? h) (hc : ∀ h, b.children h = a.children h) :
    b.WellFormed where
  kind_root := by rw [hk]; exact hw.kind_root
  eq_root h := by rw [hk]; exact hw.eq_root h
  kind_config := by rw [hk]; exact hw.kind_config
  eq_config h := by rw [hk]; exact hw.eq_config h
  parent_config := by rw [hp]; exact hw.parent_config
  root_notMem h := by rw [hc]; exact hw.root_notMem h
  child_lt h := by rw [hc, hs]; exact hw.child_lt h
  child_once k := by simp only [hc, hs]; exact hw.child_once k
  mem_of_parent k p := by rw [hp, hc]; exact hw.mem_of_parent k p
  parent_lt k p := by rw [hp]; exact hw.parent_lt k p
  parent_holds k p := by simp only [hp, hk]; exact hw.parent_holds k p
  groups_sorted := by rw [hc]; exact hw.groups_sorted

theorem modifyContent {f : Content → Content} (hf : ∀ c, (f c).kind = c.kind) (h : Handle) :
    (a.modifyContent h f).WellFormed :=
  hw.congr (size_modifyContent a h f) (kind?_modifyContent hf a h)
    (parent?_modifyContent a h f) (children_modifyContent a h f)

theorem nameSection (s : Handle) : (a.nameSection s).WellFormed := by
  rcases a.nameSection_eq_self_or s with heq | ⟨g, type, -, -, -, heq⟩ <;> rw [heq]
  · exact hw
  · exact (hw.modifyContent (Content.kind_withCounter _) _).modifyContent
      (Content.kind_withName _) _

/-- The configuration is the one node that must keep its parent. -/
theorem detach (hh : h ≠ 1) : (a.detach h).WellFormed where
  kind_root := by rw [kind?_detach]; exact hw.kind_root
  eq_root h := by rw [kind?_detach]; exact hw.eq_root h
  kind_config := by rw [kind?_detach]; exact hw.kind_config
  eq_config h := by rw [kind?_detach]; exact hw.eq_config h
  parent_config := by rw [parent?_detach, if_neg (Ne.symm hh)]; exact hw.parent_config
  root_notMem h := by rw [children_detach]; exact hw.root_notMem h
  child_lt h := by rw [children_detach, size_detach]; exact hw.child_lt h
  child_once k := by simp only [children_detach, size_detach]; exact hw.child_once k
  -- its place in the list stays, only the way up is cut
  mem_of_parent k p hp := by
    rw [parent?_detach] at hp
    rw [children_detach]
    split at hp
    · cases hp
    · exact hw.mem_of_parent k p hp
  parent_lt k p hp := by
    rw [parent?_detach] at hp
    split at hp
    · cases hp
    · exact hw.parent_lt k p hp
  parent_holds k p hp := by
    simp only [kind?_detach]
    rw [parent?_detach] at hp
    split at hp
    · cases hp
    · exact hw.parent_holds k p hp
  groups_sorted := by rw [children_detach]; exact hw.groups_sorted

/-- The new node stands in the list of its parent, and nowhere else; the old ones stay where they
are. -/
private theorem child_once_hang (hp : p < a.size) (h0 : k ≠ 0) (hk : k < a.size + 1) :
    ∃ q, ((a.hang p c).children q).count k = 1 ∧ ∀ r, r ≠ q → k ∉ (a.hang p c).children r := by
  by_cases hnew : k = a.size
  · subst hnew
    have hnone : ∀ q, a.size ∉ a.children q := fun q hm =>
      Nat.lt_irrefl _ (hw.child_lt q _ hm)
    refine ⟨p, ?_, ?_⟩
    · rw [children_hang hp, if_pos rfl, List.count_append, List.count_singleton_self,
        List.count_eq_zero.mpr (hnone p)]
    · intro r hr hm
      rw [children_hang hp, if_neg hr] at hm
      exact hnone r hm
  · -- an old node is not the one that was added to the list of `p`
    have hlt : k < a.size := Nat.lt_of_le_of_ne (Nat.le_of_lt_succ hk) hnew
    obtain ⟨q, hq, hne⟩ := hw.child_once k h0 hlt
    have hnot : k ∉ [a.size] := fun hm => hnew (List.mem_singleton.mp hm)
    refine ⟨q, ?_, ?_⟩
    · rw [children_hang hp]
      split
      · rw [List.count_append, hq, List.count_eq_zero.mpr hnot]
      · exact hq
    · intro r hr hm
      rw [children_hang hp] at hm
      split at hm
      · rcases List.mem_append.mp hm with hm | hm
        · exact hne r hr hm
        · exact hnot hm
      · exact hne r hr hm

/-- A new node may be anything but another root or configuration. -/
theorem hang (hp : p < a.size) {kp : NodeKind} (hkp : a.kind? p = some kp)
    (hold : kp.mayHold c.kind = true) (hc : c.kind ≠ .config) : (a.hang p c).WellFormed := by
  have hroot : c.kind ≠ .root := by
    intro h
    rw [h] at hold
    cases kp <;> cases hold
  have hlt := hw.one_lt_size
  have hold_ne : ∀ {k : Handle}, k < a.size → k ≠ a.size := Nat.ne_of_lt
  have hkind : ∀ {k : Handle}, k < a.size → (a.hang p c).kind? k = a.kind? k := by
    intro k hk
    rw [kind?_hang hp, if_neg (hold_ne hk)]
  refine
    { kind_root := by rw [hkind hw.size_pos]; exact hw.kind_root
      eq_root := fun h hk => ?_
      kind_config := by rw [hkind hlt]; exact hw.kind_config
      eq_config := fun h hk => ?_
      parent_config := by rw [parent?_hang hp, if_neg (hold_ne hlt)]; exact hw.parent_config
      root_notMem := fun h hm => ?_
      child_lt := fun h k hk => ?_
      child_once := fun k h0 hk => ?_
      mem_of_parent := fun k q hq => ?_
      parent_lt := fun k q hq => ?_
      parent_holds := fun k q hq => ?_
      groups_sorted := ?_ }
  · rw [kind?_hang hp] at hk
    split at hk
    · exact absurd (Option.some.inj hk) hroot
    · exact hw.eq_root h hk
  · rw [kind?_hang hp] at hk
    split at hk
    · exact absurd (Option.some.inj hk) hc
    · exact hw.eq_config h hk
  · -- nobody lists the root: the new node is not it
    rw [children_hang hp] at hm
    split at hm
    · rcases List.mem_append.mp hm with hm | hm
      · exact hw.root_notMem h hm
      · exact Nat.ne_of_lt hw.size_pos (List.mem_singleton.mp hm)
    · exact hw.root_notMem h hm
  · rw [size_hang]
    rw [children_hang hp] at hk
    split at hk
    · rcases List.mem_append.mp hk with hk | hk
      · exact Nat.lt_succ_of_lt (hw.child_lt h k hk)
      · rw [List.mem_singleton.mp hk]; exact Nat.lt_succ_self _
    · exact Nat.lt_succ_of_lt (hw.child_lt h k hk)
  · rw [size_hang] at hk
    exact hw.child_once_hang hp h0 hk
  · rw [parent?_hang hp] at hq
    rw [children_hang hp]
    split at hq
    · next hk =>
      rw [← Option.some.inj hq, if_pos rfl, hk]
      exact List.mem_append_right _ (List.mem_singleton_self _)
    · have hm := hw.mem_of_parent k q hq
      split
      · exact List.mem_append_left _ hm
      · exact hm
  · rw [parent?_hang hp] at hq
    split at hq
    · next hk => rw [← Option.some.inj hq, hk]; exact hp
    · exact hw.parent_lt k q hq
  · rw [parent?_hang hp] at hq
    split at hq
    · next hk =>
      rw [← Option.some.inj hq, hkind hp, hk]
      exact ⟨kp, c.kind, hkp, by rw [kind?_hang hp, if_pos rfl], hold⟩
    · rw [hkind (hw.parent_lt_size hq), hkind (lt_size_of_parent? hq)]
      exact hw.parent_holds k q hq
  · rw [children_hang hp]
    split
    · -- a new group is younger than all that are there
      refine List.pairwise_append.mpr ⟨hw.groups_sorted, List.pairwise_singleton _ _, ?_⟩
      intro x hx y hy
      rw [List.mem_singleton.mp hy]
      exact hw.child_lt 1 x hx
    · exact hw.groups_sorted

theorem hangSection (hg : a.kind? g = some .sectionType) (type : Text) (name : Option Text) :
    (a.hangSection g type name).WellFormed := by
  have hlt := lt_size_of_kind? hg
  cases name with
  | some n => exact hw.hang hlt hg rfl (by nofun)
  | none =>
    have hbump := hw.modifyContent (Content.kind_withCounter (a.counter g + 1)) g
    have hg' : (a.modifyContent g (·.withCounter (a.counter g + 1))).kind? g =
        some .sectionType := by
      rw [kind?_modifyContent (Content.kind_withCounter _)]
      exact hg
    exact hbump.hang (by rwa [size_modifyContent]) hg' rfl (by nofun)

omit hw in
/-- A child of a list after folding was a child of a list before it. -/
private theorem exists_mem_of_absorb (hg : g < a.size) (ht : t < a.size) (hgt : g ≠ t)
    (hk : k ∈ (a.absorb t g).children h) : ∃ q, k ∈ a.children q := by
  rw [children_absorb hg ht hgt] at hk
  split at hk
  · rcases List.mem_append.mp hk with hk | hk
    · exact ⟨t, hk⟩
    · exact ⟨g, hk⟩
  · split at hk
    · cases hk
    · exact ⟨h, hk⟩

/-- A parent after folding was the parent before it, or stands in for the absorbed group. -/
private theorem parent?_of_absorb (hgt : g ≠ t) (hk : (a.absorb t g).parent? k = some p) :
    a.parent? k = some p ∧ p ≠ g ∨ a.parent? k = some g ∧ p = t := by
  rw [parent?_absorb hgt] at hk
  split at hk
  · cases hk
  · split at hk
    · next h => exact Or.inr ⟨h.2, (Option.some.inj hk).symm⟩
    · next h =>
      refine Or.inl ⟨hk, ?_⟩
      rintro rfl
      exact h ⟨hw.mem_of_parent k p hk, hk⟩

/-- A node keeps its place, unless it stood below the absorbed group. -/
private theorem child_once_absorb (hg : g < a.size) (ht : t < a.size) (hgt : g ≠ t) (h0 : k ≠ 0)
    (hk : k < a.size) : ∃ q, ((a.absorb t g).children q).count k = 1 ∧
      ∀ r, r ≠ q → k ∉ (a.absorb t g).children r := by
  have hchildren := children_absorb hg ht hgt
  obtain ⟨r, hr, hne⟩ := hw.child_once k h0 hk
  have hnotMem : ∀ {q : Handle}, q ≠ r → (a.children q).count k = 0 :=
    fun hq => List.count_eq_zero.mpr (hne _ hq)
  have hplace : ∀ {q : Handle}, k ∈ a.children q → q = r :=
    fun hm => by_contra fun hq => hne _ hq hm
  -- the one list that has the node, after the change as before it
  refine ⟨if r = g then t else r, ?_, ?_⟩
  · rw [hchildren]
    by_cases hrg : r = g
    · subst hrg
      rw [if_pos rfl, if_pos rfl, List.count_append, hr, hnotMem (Ne.symm hgt)]
    · rw [if_neg hrg]
      split
      · next hrt =>
        subst hrt
        rw [List.count_append, hr, hnotMem (Ne.symm hrg)]
      · exact hr
  · intro q hq hm
    rw [hchildren] at hm
    split at hm
    · next hqt =>
      rcases List.mem_append.mp hm with hm | hm
      · rw [← hplace hm, if_neg (Ne.symm hgt)] at hq
        exact hq hqt
      · rw [← hplace hm, if_pos rfl] at hq
        exact hq hqt
    · split at hm
      · cases hm
      · next hqg =>
        rw [← hplace hm, if_neg hqg] at hq
        exact hq rfl

/-- A group may be folded into an older one. -/
theorem absorb (ht : a.kind? t = some .sectionType) (hg : a.kind? g = some .sectionType)
    (htg : t < g) : (a.absorb t g).WellFormed := by
  have hgt : g ≠ t := Nat.ne_of_gt htg
  have hgs : g < a.size := lt_size_of_kind? hg
  have hts : t < a.size := lt_size_of_kind? ht
  have hg1 : g ≠ 1 := ne_of_kind? hg hw.kind_config (by nofun)
  have ht1 : t ≠ 1 := ne_of_kind? ht hw.kind_config (by nofun)
  have hchildren := children_absorb (a := a) hgs hts hgt
  refine
    { kind_root := by rw [kind?_absorb]; exact hw.kind_root
      eq_root := fun h => by rw [kind?_absorb]; exact hw.eq_root h
      kind_config := by rw [kind?_absorb]; exact hw.kind_config
      eq_config := fun h => by rw [kind?_absorb]; exact hw.eq_config h
      parent_config := ?_
      root_notMem := fun h hm => ?_
      child_lt := fun h k hk => ?_
      child_once := fun k h0 hk => ?_
      mem_of_parent := fun k q hq => ?_
      parent_lt := fun k q hq => ?_
      parent_holds := fun k q hq => ?_
      groups_sorted := ?_ }
  · -- the configuration hangs below the root, so the group cannot give it away
    have hg0 : ¬(1 ∈ a.children g ∧ a.parent? 1 = some g) := by
      rintro ⟨-, hp⟩
      rw [hw.parent_config] at hp
      rw [← Option.some.inj hp, hw.kind_root] at hg
      cases hg
    rw [parent?_absorb hgt, if_neg (Ne.symm hg1), if_neg hg0]
    exact hw.parent_config
  · obtain ⟨q, hq⟩ := exists_mem_of_absorb hgs hts hgt hm
    exact hw.root_notMem q hq
  · obtain ⟨q, hq⟩ := exists_mem_of_absorb hgs hts hgt hk
    rw [size_absorb]
    exact hw.child_lt q k hq
  · rw [size_absorb] at hk
    exact hw.child_once_absorb hgs hts hgt h0 hk
  · obtain ⟨hp, hqg⟩ | ⟨hp, rfl⟩ := hw.parent?_of_absorb hgt hq
    · have hm := hw.mem_of_parent k q hp
      rw [hchildren, if_neg hqg]
      split
      · next hqt => exact List.mem_append_left _ (hqt ▸ hm)
      · exact hm
    · rw [hchildren, if_pos rfl]
      exact List.mem_append_right _ (hw.mem_of_parent k g hp)
  · obtain ⟨hp, -⟩ | ⟨hp, rfl⟩ := hw.parent?_of_absorb hgt hq
    · exact hw.parent_lt k q hp
    · exact Nat.lt_trans htg (hw.parent_lt k g hp)
  · simp only [kind?_absorb]
    obtain ⟨hp, -⟩ | ⟨hp, rfl⟩ := hw.parent?_of_absorb hgt hq
    · exact hw.parent_holds k q hp
    · -- both are type groups, so what the one may hold the other may
      obtain ⟨kp, kk, hkp, hkk, hold⟩ := hw.parent_holds k g hp
      rw [hg] at hkp
      exact ⟨kp, kk, by rw [ht, ← hkp], hkk, hold⟩
  · rw [hchildren, if_neg (Ne.symm ht1), if_neg (Ne.symm hg1)]
    exact hw.groups_sorted

end WellFormed

/-! ### Folding groups together -/

/-- One group folded into an older one. -/
def Absorbs (a b : Arena) : Prop :=
  ∃ t g, a.kind? t = some .sectionType ∧ a.kind? g = some .sectionType ∧ t < g ∧
    b = a.absorb t g

/-- **Merging is folding groups one by one**, each into an older one.  The induction is on
the groups still to come: those met before are older than each of them. -/
theorem foldl_mergeStep_absorbs (l : List Handle) (acc : Arena × List (Text × Handle))
    (hl : ∀ g ∈ l, acc.1.kind? g = some .sectionType) (hsorted : l.Pairwise (· < ·))
    (hfirsts : ∀ e ∈ acc.2, acc.1.kind? e.2 = some .sectionType ∧ ∀ g ∈ l, e.2 < g) :
    Relation.ReflTransGen Absorbs acc.1 (l.foldl mergeStep acc).1 := by
  induction l generalizing acc with
  | nil => exact .refl
  | cons g l ih =>
    obtain ⟨hgl, hl'⟩ := List.forall_mem_cons.mp hl
    obtain ⟨hglt, hsorted'⟩ := List.pairwise_cons.mp hsorted
    have hrest : ∀ e ∈ acc.2, acc.1.kind? e.2 = some .sectionType ∧ ∀ x ∈ l, e.2 < x :=
      fun e he => ⟨(hfirsts e he).1, fun x hx => (hfirsts e he).2 x (List.mem_cons_of_mem _ hx)⟩
    rw [List.foldl_cons]
    unfold mergeStep
    split
    · exact ih acc hl' hsorted' hrest
    · next type _ =>
      split
      · -- the first group of its type, which is older than those to come
        refine ih (acc.1, (type, g) :: acc.2) hl' hsorted' ?_
        exact List.forall_mem_cons.mpr ⟨⟨hgl, hglt⟩, hrest⟩
      · -- a later one, which is folded into the first
        next first hfirst =>
        obtain ⟨l₁, l₂, hacc, -⟩ := List.lookup_eq_some_iff.mp hfirst
        have hmem : (type, first) ∈ acc.2 := by rw [hacc]; simp
        obtain ⟨hkind, hlt⟩ := hfirsts _ hmem
        refine .head ⟨first, g, hkind, hgl, hlt g (List.mem_cons_self ..), rfl⟩ ?_
        refine ih (acc.1.absorb first g, acc.2) ?_ hsorted' ?_
        · intro x hx
          rw [kind?_absorb]
          exact hl' x hx
        · intro e he
          rw [kind?_absorb]
          exact hrest e he

namespace WellFormed

variable (hw : a.WellFormed)
include hw

/-- Below the configuration hang type groups only. -/
theorem kind?_of_mem_groups (hg : g ∈ a.liveChildren 1) : a.kind? g = some .sectionType := by
  obtain ⟨kp, kk, hkp, hkk, hold⟩ := hw.parent_holds g 1 (hw.mem_liveChildren_iff.mp hg)
  rw [hw.kind_config] at hkp
  cases hkp
  rw [hkk]
  cases kk <;> first | rfl | cases hold

theorem mergeGroups_absorbs : Relation.ReflTransGen Absorbs a (a.mergeGroups 1) := by
  unfold mergeGroups
  refine foldl_mergeStep_absorbs (a.liveChildren 1) (a, []) ?_ ?_ (by simp)
  · exact fun g hg => hw.kind?_of_mem_groups hg
  · exact hw.groups_sorted.filter _

theorem of_absorbs (h : Relation.ReflTransGen Absorbs a b) : b.WellFormed := by
  induction h with
  | refl => exact hw
  | tail _ hstep ih =>
    obtain ⟨t, g, ht, hg, htg, rfl⟩ := hstep
    exact ih.absorb ht hg htg

theorem mergeGroups : (a.mergeGroups 1).WellFormed := hw.of_absorbs hw.mergeGroups_absorbs

end WellFormed

/-! ### Up and down -/

/-- **The walk up** from a node: it goes from parent to parent, and ends at a root, at a
node without a parent or at a handle that was never issued. -/
inductive Climbs (a : Arena) : Handle → Bool → Prop
  /-- A handle that was never issued. -/
  | unknown {h : Handle} : a.get? h = none → Climbs a h false
  /-- The root. -/
  | root {h : Handle} {n : Node} : a.get? h = some n → n.kind = .root → Climbs a h true
  /-- A removed node. -/
  | removed {h : Handle} {n : Node} :
    a.get? h = some n → n.kind ≠ .root → n.parent = none → Climbs a h false
  /-- A node with a parent: the answer is the one for the parent. -/
  | up {h p : Handle} {n : Node} {b : Bool} :
    a.get? h = some n → n.kind ≠ .root → n.parent = some p → Climbs a p b → Climbs a h b

/-- The walk up has one end. -/
theorem Climbs.unique {b b' : Bool} (hb : a.Climbs h b) (hb' : a.Climbs h b') : b = b' := by
  induction hb with
  | unknown hn => cases hb' <;> simp_all
  | root hn hk => cases hb' <;> simp_all
  | removed hn hk hp => cases hb' <;> simp_all
  | up hn hk hp _ ih =>
    cases hb' with
    | unknown hn' => simp_all
    | root hn' hk' => simp_all
    | removed hn' hk' hp' => simp_all
    | up hn' hk' hp' hc =>
      -- both walks go on from the same parent
      cases hn.symm.trans hn'
      cases hp.symm.trans hp'
      exact ih hc

/-- **The way down**: `k` is reached from `h` by going to live children. -/
def Descends (a : Arena) : Handle → Handle → Prop :=
  Relation.ReflTransGen fun p k => k ∈ a.liveChildren p

namespace WellFormed

variable (hw : a.WellFormed)
include hw

/-- Above a node there are at most as many others as were made before it, so more steps
than these change nothing. -/
theorem reachesRoot_eq : ∀ (h n : Nat), h < n → a.reachesRoot n h = a.reachesRoot (h + 1) h := by
  intro h
  induction h using Nat.strongRecOn with
  | _ h ih =>
    intro n hn
    obtain ⟨m, rfl⟩ : ∃ m, n = m + 1 := ⟨n - 1, by omega⟩
    rw [reachesRoot, reachesRoot]
    cases hget : a.get? h with
    | none => rfl
    | some x =>
      simp only
      cases hpar : x.parent with
      | none => rfl
      | some p =>
        have hp : a.parent? h = some p := by rw [(get?_eq_some_iff.mp hget).2.1, hpar]
        have hlt : p < h := hw.parent_lt h p hp
        simp only [Option.any_some]
        rw [ih p hlt m (Nat.lt_of_lt_of_le hlt (by omega)), ih p hlt h hlt]

/-- A node is live if it is the root or hangs below a live one. -/
theorem isLive_iff : a.isLive h = true ↔ h = 0 ∨ ∃ p, a.parent? h = some p ∧ a.isLive p = true := by
  by_cases hh : h < a.size
  · obtain ⟨n, hn⟩ := Option.isSome_iff_exists.mp ((get?_isSome_iff a h).mpr hh)
    have hpar : a.parent? h = n.parent := (get?_eq_some_iff.mp hn).2.1
    have hroot : n.kind = .root ↔ h = 0 := by
      constructor
      · intro hk
        exact hw.eq_root h (by rw [kind?_of_get? hn, hk])
      · rintro rfl
        exact Option.some.inj ((kind?_of_get? hn).symm.trans hw.kind_root)
    -- the number of steps allowed does not matter, neither here nor above the parent
    unfold isLive
    rw [hw.reachesRoot_eq h a.size hh, reachesRoot, hn]
    simp only [Bool.or_eq_true, beq_iff_eq, hroot, hpar, Option.any_eq_true]
    refine or_congr_right (exists_congr fun p => and_congr_right fun hp => ?_)
    have hlt : p < h := hw.parent_lt h p (hpar.trans hp)
    rw [hw.reachesRoot_eq p h hlt, hw.reachesRoot_eq p a.size (Nat.lt_trans hlt hh)]
  · -- a handle that was never issued is not live, and has no parent
    have hnone : a.get? h = none := by
      rw [← Option.not_isSome_iff_eq_none, get?_isSome_iff]
      exact hh
    have hdead : a.isLive h = false := by
      unfold isLive
      cases a.size with
      | zero => rfl
      | succ n => rw [reachesRoot, hnone]
    rw [hdead]
    constructor
    · nofun
    · rintro (rfl | ⟨p, hp, -⟩)
      · exact absurd hw.size_pos hh
      · exact absurd (lt_size_of_parent? hp) hh

theorem isLive_root : a.isLive 0 = true := hw.isLive_iff.mpr (Or.inl rfl)

theorem isLive_of_parent (hp : a.parent? k = some p) : a.isLive k = a.isLive p := by
  have hk : k ≠ 0 := by
    rintro rfl
    rw [hw.root_parent] at hp
    cases hp
  rw [Bool.eq_iff_iff, hw.isLive_iff]
  constructor
  · rintro (h0 | ⟨q, hq, hlive⟩)
    · exact absurd h0 hk
    · rw [hp] at hq
      rwa [Option.some.inj hq]
  · intro hlive
    exact Or.inr ⟨p, hp, hlive⟩

theorem isLive_config : a.isLive 1 = true := by
  rw [hw.isLive_of_parent hw.parent_config]
  exact hw.isLive_root

/-- **The walk up always ends**, with the answer that `isLive` gives. -/
theorem climbs_isLive (h : Handle) : a.Climbs h (a.isLive h) := by
  -- the induction is on the handle, since a parent is older than its child
  induction h using Nat.strongRecOn with
  | _ h ih =>
    cases hget : a.get? h with
    | none =>
      have hdead : a.isLive h = false := by
        rw [← Bool.not_eq_true, hw.isLive_iff]
        rintro (rfl | ⟨p, hp, -⟩)
        · rw [← Option.not_isSome_iff_eq_none, get?_isSome_iff] at hget
          exact hget hw.size_pos
        · rw [parent?, hget] at hp
          cases hp
      rw [hdead]
      exact .unknown hget
    | some x =>
      have hpar : a.parent? h = x.parent := (get?_eq_some_iff.mp hget).2.1
      by_cases hk : x.kind = .root
      · have h0 : h = 0 := hw.eq_root h (by rw [kind?_of_get? hget, hk])
        rw [show a.isLive h = true from hw.isLive_iff.mpr (Or.inl h0)]
        exact .root hget hk
      · cases hx : x.parent with
        | none =>
          have hdead : a.isLive h = false := by
            rw [← Bool.not_eq_true, hw.isLive_iff]
            rintro (rfl | ⟨p, hp, -⟩)
            · exact hk (Option.some.inj ((kind?_of_get? hget).symm.trans hw.kind_root))
            · rw [hpar, hx] at hp
              cases hp
          rw [hdead]
          exact .removed hget hk hx
        | some p =>
          rw [hw.isLive_of_parent (hpar.trans hx)]
          exact .up hget hk hx (ih p (hw.parent_lt h p (hpar.trans hx)))

theorem climbs_iff {b : Bool} : a.Climbs h b ↔ a.isLive h = b :=
  ⟨fun hb => (hw.climbs_isLive h).unique hb, fun hb => hb ▸ hw.climbs_isLive h⟩

/-- **Up and down agree**: a node is live exactly if the way down from the root comes to it. -/
theorem isLive_iff_descends : a.isLive h = true ↔ a.Descends 0 h := by
  constructor
  · intro hlive
    induction h using Nat.strongRecOn with
    | _ h ih =>
      rcases hw.isLive_iff.mp hlive with rfl | ⟨p, hp, hplive⟩
      · exact .refl
      · exact .tail (ih p (hw.parent_lt h p hp) hplive) (hw.mem_liveChildren_iff.mpr hp)
  · intro hd
    induction hd with
    | refl => exact hw.isLive_root
    | tail _ hstep ih => rw [hw.isLive_of_parent (hw.mem_liveChildren_iff.mp hstep)]; exact ih

end WellFormed
end Arena
end Uci
