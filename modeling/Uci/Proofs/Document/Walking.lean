import Mathlib.Data.List.Sort
import Uci.Proofs.Arena.Liveness
import Uci.Proofs.Document.Addressing
import Uci.Proofs.Document.Replaying

/-!
# What walks visit

A walk takes its way one node at a time, through lists that still hold what was removed and
through groups that may be empty.  It comes by the nodes that a reading of the whole document
gives at once: from above by all sections, below a section or a list by what is there, the
oldest first.  It has no end to run past: behind the last node every question is answered in
the same way.

## Main definitions

* `Arena.ByAge` — the children of every node but the type groups stand in the order in which
  they were made.  A group may take in the sections of another one, which are older than its
  last.
* `Document.liveBelow` — the live nodes right below a node, the oldest first.
* `Document.answersOf` — the answers of a walk that visits given nodes.
* `Document.WalksAgree` — walks and plain readings of a document come to the same.

## Main results

* `Built.byAge` — every history keeps the order.
* `liveBelow_eq` — the live children of a node are what is live and hangs below it.
* `walksAgree_of_reachable` — **walks visit what is there, each node once and in its
  order**, and then they are over for good.
-/

namespace Uci
namespace Arena

variable {a b : Arena} {g h p : Handle} {c : Content}

/-! ### The order of children -/

/-- **Children by age.** -/
def ByAge (a : Arena) : Prop :=
  ∀ p, a.kind? p ≠ some .sectionType → (a.children p).Pairwise (· < ·)

theorem byAge_empty : Document.empty.arena.ByAge := by
  intro p _
  rw [children_empty]
  split <;> simp

namespace ByAge

variable (ha : a.ByAge)
include ha

/-- A change that leaves kinds and children alone leaves the order alone. -/
theorem congr (hk : ∀ p, b.kind? p = a.kind? p) (hc : ∀ p, b.children p = a.children p) :
    b.ByAge := by
  intro p hp
  rw [hk] at hp
  rw [hc]
  exact ha p hp

theorem modifyContent {f : Content → Content} (hf : ∀ c, (f c).kind = c.kind) (h : Handle) :
    (a.modifyContent h f).ByAge :=
  ha.congr (kind?_modifyContent hf a h) (children_modifyContent a h f)

theorem detach (h : Handle) : (a.detach h).ByAge :=
  ha.congr (kind?_detach a h) (children_detach a h)

theorem nameSection (s : Handle) : (a.nameSection s).ByAge :=
  ha.congr (kind?_nameSection a s) (children_nameSection a s)

/-- A new node is younger than all others. -/
theorem hang (hw : a.WellFormed) (hp : p < a.size) : (a.hang p c).ByAge := by
  intro q hq
  rw [children_hang hp]
  have hold : a.kind? q ≠ some .sectionType := by
    intro hk
    rw [kind?_hang hp, if_neg (Nat.ne_of_lt (lt_size_of_kind? hk))] at hq
    exact hq hk
  split
  · rw [List.pairwise_append]
    refine ⟨ha q hold, List.pairwise_singleton _ _, fun x hx y hy => ?_⟩
    rw [List.mem_singleton.mp hy]
    exact hw.child_lt q x hx
  · exact ha q hold

theorem hangSection (hw : a.WellFormed) (hg : g < a.size) (type : Text) (name : Option Text) :
    (a.hangSection g type name).ByAge := by
  cases name with
  | some n => exact ha.hang hw hg
  | none =>
    exact (ha.modifyContent (Content.kind_withCounter _) g).hang
      (hw.modifyContent (Content.kind_withCounter _) g) (by rwa [size_modifyContent])

/-- Folding one group into another moves sections between groups, and nothing else. -/
theorem absorb (h : Absorbs a b) : b.ByAge := by
  obtain ⟨t, g, hkt, hkg, htg, rfl⟩ := h
  intro p hp
  rw [kind?_absorb] at hp
  have hpt : p ≠ t := fun h => hp (h ▸ hkt)
  have hpg : p ≠ g := fun h => hp (h ▸ hkg)
  rw [children_absorb (lt_size_of_kind? hkg) (lt_size_of_kind? hkt) (Nat.ne_of_gt htg),
    if_neg hpt, if_neg hpg]
  exact ha p hp

theorem mergeGroups (hw : a.WellFormed) : (a.mergeGroups 1).ByAge := by
  have hkeep : ∀ {c : Arena}, Relation.ReflTransGen Absorbs a c → c.ByAge := by
    intro c hc
    induction hc with
    | refl => exact ha
    | tail _ hstep ih => exact ih.absorb hstep
  exact hkeep hw.mergeGroups_absorbs

end ByAge
end Arena

namespace Document

variable {d d' : Document} {op : Operation} {r : Option Handle} {h x : Handle}
  {allowed : Document → Operation → Prop}

/-- **Every accepted operation keeps the order of children.** -/
theorem Accepts.byAge (hw : d.arena.WellFormed) (ha : d.arena.ByAge) (hacc : d.Accepts op r d') :
    d'.arena.ByAge := by
  cases hacc with
  | setPackage _ => exact ha
  | addSection _ _ _ hg _ => exact ha.hangSection hw (hw.lt_size_of_childNamed? hg) _ _
  | @addSectionAndGroup _ type _ _ _ _ _ =>
    have hgroup := ha.hang (c := .sectionType (some type) 0) hw hw.one_lt_size
    obtain ⟨hwgroup, hk⟩ := wellFormed_hang_group hw type
    exact hgroup.hangSection hwgroup (Arena.lt_size_of_kind? hk) _ _
  | addOption hp _ _ => exact ha.hang hw hp.lt_size
  | addList hp _ _ => exact ha.hang hw hp.lt_size
  | addElement hp => exact ha.hang hw hp.lt_size
  | remove _ _ _ => exact ha.detach _
  | @setSectionType s g type _ _ _ =>
    have hname := ha.modifyContent (Content.kind_withName type) g
    exact (hname.mergeGroups (hw.modifyContent (Content.kind_withName _) _)).nameSection _
  | setSectionName _ _ _ => exact ha.modifyContent (Content.kind_withName _) _
  | setOptionName _ _ _ => exact ha.modifyContent (Content.kind_withName _) _
  | setListName _ _ _ => exact ha.modifyContent (Content.kind_withName _) _
  | setOptionValue _ _ => exact ha.modifyContent (Content.kind_withValue _) _
  | setElementValue _ _ => exact ha.modifyContent (Content.kind_withValue _) _

theorem Built.byAge (hd : d.Built allowed) : d.arena.ByAge :=
  (hd.induction (P := fun d => d.arena.ByAge) Arena.byAge_empty
    fun hw ha _ hacc => hacc.byAge hw ha).2

/-! ### What is right below a node -/

/-- **The live nodes right below a node**, in the order in which they were made. -/
def liveBelow (d : Document) (h : Handle) : List Handle :=
  (List.range d.allocated).filter fun x => d.isLive x && d.arena.parent? x == some h

theorem mem_liveBelow :
    x ∈ d.liveBelow h ↔ d.isLive x = true ∧ d.arena.parent? x = some h := by
  unfold liveBelow
  rw [List.mem_filter, List.mem_range, Bool.and_eq_true, beq_iff_eq]
  exact ⟨And.right, fun hx => ⟨Arena.lt_size_of_parent? hx.2, hx⟩⟩

theorem pairwise_liveBelow (d : Document) (h : Handle) : (d.liveBelow h).Pairwise (· < ·) :=
  List.pairwise_lt_range.filter _

/-- **The live children of a live node are what is live and hangs below it.**  Both lists are
in the order of age, so that it is enough to compare their members. -/
theorem liveBelow_eq (hw : d.arena.WellFormed) (ha : d.arena.ByAge) (hlive : d.isLive h = true)
    (hk : d.arena.kind? h ≠ some .sectionType) : d.liveBelow h = d.arena.liveChildren h := by
  have hsorted : (d.arena.liveChildren h).Pairwise (· < ·) := (ha h hk).filter _
  refine (pairwise_liveBelow d h).eq_of_mem_iff hsorted fun x => ?_
  rw [mem_liveBelow, hw.mem_liveChildren_iff]
  exact ⟨And.right, fun hp => ⟨(hw.isLive_of_parent hp).trans hlive, hp⟩⟩

/-! ### Walks -/

/-- **The answers of a walk** that visits the nodes of `l`: each of them once, and from then
on that it is over. -/
def answersOf (l : List Handle) (count : Nat) : List (Except Refusal Handle) :=
  (List.range count).map fun i => l[i]?.elim (.error .endOfWalk) .ok

theorem answers_eq (count : Nat) (l : List Handle) : Sheet.answers count l = answersOf l count := by
  induction count generalizing l with
  | zero => rfl
  | succ count ih =>
    unfold answersOf
    rw [List.range_succ_eq_map, List.map_cons, List.map_map]
    cases l with
    | nil =>
      rw [Sheet.answers, ih]
      rfl
    | cons x l =>
      rw [Sheet.answers, ih]
      rfl

theorem nexts_of_below {l : List Handle} (hl : d.below h = .ok l) (count : Nat) :
    d.nexts h count = .ok (answersOf l count) := by
  obtain ⟨w, hwalk, hrest⟩ := map_eq_ok_iff.mp hl
  rw [nexts, hwalk, ← answers_eq, ← hrest, ← nexts_go_eq]
  rfl

/-- From above a walk visits the sections. -/
theorem below_top (hw : d.arena.WellFormed) (hh : h = 0 ∨ d.configuration = .ok h) :
    d.below h = .ok d.sections := by
  have hconfig := configuration_eq hw
  have hall : (Walk.sections 1 (d.arena.children 1) none).remaining d.arena = d.sections :=
    (remaining_sections hw).trans (sections_eq_sheet hw).symm
  rcases hh with rfl | hh
  · obtain ⟨n, hn, hkind⟩ := live_of_kind hw.isLive_root hw.kind_root
    rw [below, walk, hn]
    dsimp only [bind, Except.bind]
    rw [hkind, hconfig]
    exact congrArg Except.ok hall
  · rw [hconfig] at hh
    cases hh
    obtain ⟨n, hn, hkind⟩ := live_of_kind hw.isLive_config hw.kind_config
    rw [below, walk, hn]
    dsimp only [bind, Except.bind]
    rw [hkind]
    exact congrArg Except.ok hall

/-- **Walks and plain readings agree.** -/
structure WalksAgree (d : Document) : Prop where
  /-- From the root and from the configuration, which is there, a walk visits the sections in
  the order of the document, and then it is over, however often one asks. -/
  sections : ∃ config, d.configuration = .ok config ∧ ∀ count,
    d.nexts root count = .ok (answersOf d.sections count) ∧
      d.nexts config count = .ok (answersOf d.sections count)
  /-- No section is visited twice. -/
  nodup : d.sections.Nodup
  /-- From a live section or list a walk visits the live nodes right below it, the oldest
  first, and then it is over; none is visited twice, since each is younger than the last. -/
  children : ∀ h, d.isLive h = true →
    (d.arena.kind? h = some .section ∨ d.arena.kind? h = some .list) → ∀ count,
      d.nexts h count = .ok (answersOf (d.liveBelow h) count)
  /-- What is added to a live section or list comes last below it. -/
  added : ∀ h, d.isLive h = true →
    (d.arena.kind? h = some .section ∨ d.arena.kind? h = some .list) →
      ∀ (op : Operation) (x : Handle) (d' : Document), op.target? = some h →
        op.edit.run d = (.ok (some x), d') → d'.liveBelow h = d.liveBelow h ++ [x]

/-- A new node is the youngest below its parent. -/
theorem liveBelow_hang (hw : d.arena.WellFormed) {c : Content}
    (hw' : (d.arena.hang h c).WellFormed) (hlive : d.isLive h = true) (hlt : h < d.arena.size) :
    (d.mapArena (·.hang h c)).liveBelow h = d.liveBelow h ++ [d.allocated] := by
  have hnew : (d.arena.hang h c).parent? d.arena.size = some h := Arena.parent?_hang_size hlt c
  have hnewlive : (d.arena.hang h c).isLive d.arena.size = true :=
    ((hw'.isLive_of_parent hnew).trans (Arena.isLive_hang hw hw' hlt hlt)).trans hlive
  have hold : ∀ x ∈ List.range d.arena.size,
      ((d.arena.hang h c).isLive x && (d.arena.hang h c).parent? x == some h) =
        (d.arena.isLive x && d.arena.parent? x == some h) := by
    intro x hx
    have hxlt : x < d.arena.size := List.mem_range.mp hx
    rw [Arena.isLive_hang hw hw' hlt hxlt, Arena.parent?_hang hlt, if_neg (Nat.ne_of_lt hxlt)]
  show (List.range (d.arena.hang h c).size).filter _ = (List.range d.arena.size).filter _ ++ _
  rw [Arena.size_hang, List.range_succ, List.filter_append]
  congr 1
  · exact List.filter_congr hold
  · refine List.filter_cons_of_pos ?_
    show ((d.arena.hang h c).isLive _ && (d.arena.hang h c).parent? _ == some h) = true
    rw [hnewlive, hnew]
    exact beq_self_eq_true _

/-- An operation that adds a node below a section or a list adds it as the last. -/
theorem liveBelow_added (hw : d.arena.WellFormed) (hlive : d.isLive h = true)
    (hk : d.arena.kind? h = some .section ∨ d.arena.kind? h = some .list)
    (htarget : op.target? = some h) (hacc : d.Accepts op (some x) d') :
    d'.liveBelow h = d.liveBelow h ++ [x] := by
  have hw' := hacc.wellFormed hw
  have hlt : h < d.arena.size := by
    rcases hk with hk | hk <;> exact Arena.lt_size_of_kind? hk
  -- sections are added to the root or the configuration, which are neither
  have hnot : ¬(h = 0 ∨ h = 1) := by
    rintro (rfl | rfl) <;> rcases hk with hk | hk
    · rw [hw.kind_root] at hk; cases hk
    · rw [hw.kind_root] at hk; cases hk
    · rw [hw.kind_config] at hk; cases hk
    · rw [hw.kind_config] at hk; cases hk
  cases hacc with
  | addSection htop _ _ _ _ =>
    cases htarget
    exact absurd htop hnot
  | addSectionAndGroup htop _ _ _ =>
    cases htarget
    exact absurd htop hnot
  | addOption _ _ _ =>
    cases htarget
    exact liveBelow_hang hw hw' hlive hlt
  | addList _ _ _ =>
    cases htarget
    exact liveBelow_hang hw hw' hlive hlt
  | addElement _ =>
    cases htarget
    exact liveBelow_hang hw hw' hlive hlt

/-- **Walks visit what is there**, whatever was done to the document: from above all sections,
below a section or a list what hangs there, each node once and in its order, and then they are
over for good. -/
theorem walksAgree_of_reachable (hd : d.Reachable OnAny) : d.WalksAgree := by
  have hbuilt : d.Built OnAny := hd.built fun _ _ _ => trivial
  have hw := hbuilt.wellFormed
  have hconfig := configuration_eq hw
  refine
    { sections := ⟨1, hconfig, fun count => ⟨?_, ?_⟩⟩
      nodup := sections_eq_sheet hw ▸ nodup_sections hw
      children := fun h hlive hk count => ?_
      added := fun h hlive hk op x d' htarget hrun => ?_ }
  · exact nexts_of_below (below_top hw (Or.inl rfl)) count
  · exact nexts_of_below (below_top hw (Or.inr hconfig)) count
  · have hgroup : d.arena.kind? h ≠ some .sectionType := by
      rcases hk with hk | hk <;> rw [hk] <;> nofun
    rw [liveBelow_eq hw hbuilt.byAge hlive hgroup]
    exact nexts_of_below (below_children hlive hk) count
  · exact liveBelow_added hw hlive hk htarget ((Operation.run_eq_ok_iff hw).mp hrun)

/-- A document with a group that lost its sections, a group that took in another one, and an
option that was removed between two others. -/
theorem walksAgree_after_merging :
    let d := empty.play [.addSection 0 "rule".toList none, .addSection 0 "zone".toList none,
      .addSection 0 "host".toList none, .setSectionType 5 "rule".toList, .remove 7,
      .addOption 5 "a".toList "1".toList, .addOption 5 "b".toList "2".toList,
      .addOption 5 "c".toList "3".toList, .remove 9]
    d.Reachable OnAny ∧ d.sections = [3, 5] ∧ d.liveBelow 5 = [8, 10] ∧ d.WalksAgree := by
  intro d
  have hd : d.Reachable OnAny := Reachable.play .empty
    ⟨trivial, trivial, trivial, trivial, trivial, trivial, trivial, trivial, trivial, trivial⟩
  exact ⟨hd, by decide +kernel, by decide +kernel, walksAgree_of_reachable hd⟩

end Document
end Uci
