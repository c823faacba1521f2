import Uci.Proofs.Document.Names
import Uci.Proofs.Document.Reading

/-!
# When section names are unique

Names that were given to sections of one type always differ, and a generated name is a
new one when it is generated.  What can make two names of a type equal is a change of
type: it brings the sections of two groups together, the names that were generated in
the one group are not compared with those in the other, and all sections but the one
that was named keep theirs.  The module says exactly when that happens.

## Main definitions

* `Document.NamesUnique` — no two sections of a type have the same name.
* `Document.Collides` — an operation that brings two equal names of sections together.

## Main results

* `namesUnique_after_iff` — **one operation keeps names unique unless it collides**.
* `namesUnique_play_iff` — all names of a history are unique exactly if no operation of
  it collides.
-/

namespace Uci
namespace Document

open Arena

variable {d d' : Document} {op : Operation} {ops : List Operation} {g s : Handle}

/-- **Unique names**: no two live sections of the same type have the same name. -/
def NamesUnique (d : Document) : Prop :=
  ∀ s ∈ d.sections, ∀ s' ∈ d.sections, ∀ type name,
    d.sectionType s = .ok type → d.sectionName s = .ok name →
    d.sectionType s' = .ok type → d.sectionName s' = .ok name → s = s'

/-- **Colliding operation**: a change of type that is accepted and brings a section of the
group `g` that is changed together with a section of the same name, out of the group `other`
that has the type already.  If the former is the section that was named, its name is not one
that is replaced on the way. -/
inductive Collides (d : Document) : Operation → Prop
  | setSectionType {s g other : Handle} {type : Text} :
    ((Operation.setSectionType s type).edit.run d).1 = .ok none →
    d.arena.parent? s = some g → d.arena.childNamed? 1 type = some other → other ≠ g →
    d.arena.Clash s g other type (fun _ => True) →
    Collides d (.setSectionType s type)

/-! ### Names in the arena -/

section Names

variable (hw : d.arena.WellFormed) (ht : d.arena.Tidy)
include hw ht

/-- Names are unique if they differ within each group. -/
theorem namesUnique_iff (hn : d.Named) :
    d.NamesUnique ↔ d.arena.SectionsApart fun _ => True := by
  have hmem : ∀ x, x ∈ d.sections ↔ ∃ q ∈ d.arena.liveChildren 1, x ∈ d.arena.liveChildren q := by
    intro x
    rw [sections_eq hw, List.mem_flatMap]
  constructor
  · intro hu q hq name _ x hx y hy hnx hny
    obtain ⟨type, htype⟩ := exists_name_of_tidy ht (hw.kind?_of_mem_groups hq) (Or.inl rfl)
    refine hu x ((hmem x).mpr ⟨q, hq, hx⟩) y ((hmem y).mpr ⟨q, hq, hy⟩) type name ?_ ?_ ?_ ?_
    · exact (sectionType_eq_ok_iff hw ht hq hx type).mpr htype
    · exact (sectionName_eq_ok_iff hw ht hq hx name).mpr hnx
    · exact (sectionType_eq_ok_iff hw ht hq hy type).mpr htype
    · exact (sectionName_eq_ok_iff hw ht hq hy name).mpr hny
  · intro hapart x hx y hy type name htx hnx hty hny
    obtain ⟨q, hq, hxq⟩ := (hmem x).mp hx
    obtain ⟨q', hq', hyq⟩ := (hmem y).mp hy
    rw [sectionType_eq_ok_iff hw ht hq hxq] at htx
    rw [sectionType_eq_ok_iff hw ht hq' hyq] at hty
    rw [sectionName_eq_ok_iff hw ht hq hxq] at hnx
    rw [sectionName_eq_ok_iff hw ht hq' hyq] at hny
    -- two sections of a type hang below the same group
    have hqq : q = q' := hn.groups.types_apart type trivial q hq q' hq' htx hty
    rw [← hqq] at hyq
    exact hapart q hq name trivial x hxq y hyq hnx hny

end Names

/-! ### One operation -/

/-- Two sections that clash come to share their name in the group that results. -/
private theorem not_sectionsApart_of_clash {a b : Arena} {p other : Handle} {type : Text}
    {sources : List Handle} (hr : a.Retyped b s g type p sources) (hw : a.WellFormed) (ht : a.Tidy)
    (hg : g ∈ a.liveChildren 1) (hs : s ∈ a.liveChildren g)
    (hchild : a.childNamed? 1 type = some other) (hne : other ≠ g)
    (hclash : a.Clash s g other type fun _ => True) : ¬b.SectionsApart fun _ => True := by
  intro hapart
  obtain ⟨u, hu, v, hv, n, -, hnu, hnv, hkeep⟩ := hclash
  have homem := (childNamed?_eq_some hchild).1
  -- both groups are sources of the group that results
  have hmem : g ∈ sources ∧ other ∈ sources := by
    rcases hr.source with ⟨-, hall⟩ | ⟨other', hchild', -, rfl | rfl⟩
    · exact absurd (hall other hchild) hne
    · rw [Option.some.inj (hchild.symm.trans hchild')]
      simp
    · rw [Option.some.inj (hchild.symm.trans hchild')]
      simp
  have hup : u ∈ b.liveChildren p := by
    rw [hr.group_children]
    exact List.mem_flatMap.mpr ⟨g, hmem.1, hu⟩
  have hvp : v ∈ b.liveChildren p := by
    rw [hr.group_children]
    exact List.mem_flatMap.mpr ⟨other, hmem.2, hv⟩
  have hne_of_groups : ∀ x ∈ a.liveChildren g, x ≠ v := by
    rintro x hx rfl
    exact hne (Option.some.inj
      ((hw.mem_liveChildren_iff.mp hv).symm.trans (hw.mem_liveChildren_iff.mp hx)))
  -- and both sections have the name they had
  have hnu' : b.name? u = some n := by
    by_cases hus : u = s
    · rcases hr.self_name with ⟨-, hsame, -⟩ | ⟨hneeds, -⟩
      · rw [hus, hsame, ← hus, hnu]
      · rw [← hus, hnu, hkeep hus] at hneeds
        cases hneeds
    · rw [hr.section_name hw ht hg hg hu hus, hnu]
  have hnv' : b.name? v = some n := by
    rw [hr.section_name hw ht hg homem hv (Ne.symm (hne_of_groups s hs)), hnv]
  exact hne_of_groups u hu (hapart p hr.group_mem n trivial u hup v hvp hnu' hnv')

/-- **One operation keeps names unique unless it collides.** -/
theorem namesUnique_after_iff (hd : d.Built OnIssued) (hop : d.OnIssued op) (hu : d.NamesUnique) :
    (op.after d).NamesUnique ↔ ¬d.Collides op := by
  have hw := hd.wellFormed
  have ht := hd.tidy fun _ _ h => h
  have hn := hd.named
  have hapart := (namesUnique_iff hw ht hn).mp hu
  cases hrun : (op.edit.run d).1 with
  | error e =>
    -- refused, so that nothing changes and nothing collides
    rw [Operation.after_of_error hrun]
    refine iff_of_true hu ?_
    rintro ⟨hok, -⟩
    rw [hrun] at hok
    cases hok
  | ok r =>
    have hacc : d.Accepts op r (op.after d) := (Operation.run_eq_ok_iff hw).mp (Prod.ext hrun rfl)
    rw [namesUnique_iff (hacc.wellFormed hw) (hacc.tidy hw ht hop) (hd.edited op hop).named]
    cases hretypes : op.retypes with
    | false =>
      refine iff_of_true (hacc.sectionsApart hw hn.groups hapart hretypes) ?_
      rintro ⟨-⟩
      cases hretypes
    | true =>
      generalize hafter : op.after d = d' at hacc
      cases hacc with
      | @setSectionType s g type hs hword hm =>
        obtain ⟨hg, hsg, p, sources, hr⟩ := Accepts.exists_retyped hw ht hn.groups hs type
        constructor
        · rintro hb ⟨-, hp, hchild, hne, hclash⟩
          rw [Option.some.inj (hp.symm.trans hs.2.2)] at hne hclash
          exact not_sectionsApart_of_clash hr hw ht hg hsg hchild hne hclash hb
        · intro hno
          refine hr.sectionsApart hw ht hg hn.groups hapart ?_ hsg
          intro other hchild hne hclash
          exact hno (.setSectionType hrun hs.2.2 hchild hne hclash)
      | _ => cases hretypes

/-! ### Histories -/

/-- Names of a text that was read are unique, since reading changes no type. -/
theorem namesUnique_of_reading (hd : d.Built OnReading) : d.NamesUnique := by
  have hissued : ∀ {d : Document}, d.Built OnReading → d.Built OnIssued :=
    fun hd => hd.mono fun _ _ h => h.1
  refine (namesUnique_iff hd.wellFormed (hd.tidy fun _ _ h => h.1) (hissued hd).named).mpr ?_
  induction hd with
  | empty =>
    intro q hq
    rw [liveChildren_empty] at hq
    cases hq
  | @edited d op hd hop ih =>
    rcases Operation.after_cases hd.wellFormed op with hsame | ⟨r, hacc⟩
    · rwa [hsame]
    · exact hacc.sectionsApart hd.wellFormed (hissued hd).named.groups ih hop.2

private theorem namesUnique_play_iff_of_built (hd : d.Built OnIssued) (hu : d.NamesUnique)
    (hops : d.Plays OnIssued ops) :
    (∀ n, (d.play (ops.take n)).NamesUnique) ↔ d.Plays (fun d op => ¬d.Collides op) ops := by
  induction ops generalizing d with
  | nil => exact iff_of_true (fun n => by rw [List.take_nil]; exact hu) trivial
  | cons op ops ih =>
    have hstep := namesUnique_after_iff hd hops.1 hu
    have hd' : (op.after d).Built OnIssued := hd.edited op hops.1
    constructor
    · intro hall
      have hu' : (op.after d).NamesUnique := hall 1
      exact ⟨hstep.mp hu', (ih hd' hu' hops.2).mp fun n => hall (n + 1)⟩
    · rintro ⟨hno, hrest⟩ n
      cases n with
      | zero => exact hu
      | succ n => exact (ih hd' (hstep.mpr hno) hops.2).mpr hrest n

/-- **When all names of a history are unique**: from an empty document or a text that was
read, exactly as long as no operation collides. -/
theorem namesUnique_play_iff (hd : d = empty ∨ ∃ source, parse source = .ok d)
    (hops : d.Plays OnIssued ops) :
    (∀ n, (d.play (ops.take n)).NamesUnique) ↔ d.Plays (fun d op => ¬d.Collides op) ops := by
  have hbuilt : d.Built OnReading := by
    rcases hd with rfl | ⟨source, hparse⟩
    · exact .empty
    · exact built_of_parse hparse
  exact namesUnique_play_iff_of_built (hbuilt.mono fun _ _ h => h.1) (namesUnique_of_reading hbuilt)
    hops

/-- Two groups, the second of which is made one with the first while the names generated
in them meet. -/
def collidingHistory : List Operation :=
  [.addSection 0 "a".toList none, .addSection 0 "a".toList none, .setSectionType 3 "b".toList,
    .addSection 0 "a".toList none, .addSection 0 "a".toList none, .setSectionType 6 "b".toList]

theorem namesUnique_play_collidingHistory :
    (∀ n, (empty.play (collidingHistory.take n)).NamesUnique) ↔
      empty.Plays (fun d op => ¬d.Collides op) collidingHistory :=
  namesUnique_play_iff (Or.inl rfl) (by decide)

/-- **Names that are not unique**: the sections `4` and `7` are both of the type `b` and both
called `@a[1]`. -/
theorem not_namesUnique_after_collision :
    (empty.play collidingHistory).Reachable OnIssued ∧
      ¬(empty.play collidingHistory).NamesUnique := by
  refine ⟨Reachable.play .empty (by decide), ?_⟩
  intro hu
  have h47 : (4 : Handle) = 7 := by
    refine hu 4 ?_ 7 ?_ "b".toList "@a[1]".toList ?_ ?_ ?_ ?_ <;> decide
  exact absurd h47 (by decide)

end Document
end Uci
