import Uci.Proofs.Document.History

/-!
# Numbers are used once

A group never gives a number twice.  What every accepted operation keeps is that the
numbers in use lie behind the counters, those of removed sections and of sections that
came from another group included, and that no counter goes back.  So a generated name is
a new one in its group at the time it is given, whatever happened to the group before.

## Main definitions

* `Document.Generates d op s n` — the operation gives the section `s` the generated
  name `n`.
* `Document.NumbersUsedOnce` — no group ever gives a number twice.

## Main results

* `Accepts.numbered`, `Accepts.counter_le` — what one operation keeps.
* `Accepts.namedAlone` — a generated name is new in its group when it is given.
* `numbersUsedOnce_of_reachable` — **numbers are used once** in every document, whatever
  handles the operations named.
-/

namespace Uci
namespace Document

open Arena

variable {d d' : Document} {op : Operation} {r : Option Handle} {ops : List Operation}
  {g s : Handle} {n : Text}

/-! ### One operation -/

namespace Accepts

/-- **Numbers stay behind the counters.** -/
theorem numbered (hw : d.arena.WellFormed) (hd : d.arena.Numbered) (h : d.Accepts op r d') :
    d'.arena.Numbered := by
  cases h with
  | setPackage _ => exact hd
  | addSection _ _ hname hg _ =>
    exact hd.hangSection hw (hw.kind?_of_mem_groups (childNamed?_eq_some hg).1)
      fun n hn => (hname n hn).2
  | @addSectionAndGroup h type name _ _ hname _ =>
    obtain ⟨hw', hk⟩ := wellFormed_hang_group hw type
    have hgroup : (d.arena.hang 1 (.sectionType (some type) 0)).Numbered :=
      hd.hang hw hw.one_lt_size (by nofun)
    exact hgroup.hangSection hw' hk fun n hn => (hname n hn).2
  | addOption hp _ _ => exact hd.hang hw hp.lt_size (by nofun)
  | addList hp _ _ => exact hd.hang hw hp.lt_size (by nofun)
  | addElement hp => exact hd.hang hw hp.lt_size (by nofun)
  | remove _ _ _ => exact hd.detach _
  | @setSectionType s g type hs _ _ =>
    obtain ⟨hw', habsorbs⟩ := wellFormed_merged (g := g) hw type
    have hkg := hw.kind?_group hs.2.1 hs.2.2
    have hname : (d.arena.modifyContent g (·.withName type)).Numbered :=
      hd.withName fun hk => absurd (hkg.symm.trans hk) (by nofun)
    exact (hname.of_absorbs habsorbs).nameSection hw' ((kind?_merged hw type s).trans hs.2.1)
  | setSectionName _ hname _ => exact hd.withName fun _ => hname.2
  | setOptionName hh _ _ => exact hd.withName fun hk => absurd (hh.2.1.symm.trans hk) (by nofun)
  | setListName hh _ _ => exact hd.withName fun hk => absurd (hh.2.1.symm.trans hk) (by nofun)
  | setOptionValue _ _ => exact hd.withValue _ _
  | setElementValue _ _ => exact hd.withValue _ _

/-- **No counter goes back.** -/
theorem counter_le (hw : d.arena.WellFormed) (h : d.Accepts op r d') (g : Handle) :
    d.arena.counter g ≤ d'.arena.counter g := by
  cases h with
  | setPackage _ => exact Nat.le_refl _
  | addSection _ _ _ hg _ =>
    exact counter_le_hangSection (hw.kind?_of_mem_groups (childNamed?_eq_some hg).1) _ _ _
  | @addSectionAndGroup h type name _ _ _ _ =>
    obtain ⟨-, hk⟩ := wellFormed_hang_group hw type
    exact Nat.le_trans (counter_le_hang hw.one_lt_size _ _) (counter_le_hangSection hk _ _ _)
  | addOption hp _ _ => exact counter_le_hang hp.lt_size _ _
  | addList hp _ _ => exact counter_le_hang hp.lt_size _ _
  | addElement hp => exact counter_le_hang hp.lt_size _ _
  | remove _ _ _ => exact Nat.le_of_eq (counter_detach ..).symm
  | @setSectionType s q type hs _ _ =>
    obtain ⟨hw', habsorbs⟩ := wellFormed_merged (g := q) hw type
    refine Nat.le_trans (Nat.le_of_eq (counter_withName d.arena q type g).symm) ?_
    exact Nat.le_trans (counter_le_of_absorbs habsorbs g)
      (counter_le_nameSection hw' ((kind?_merged hw type s).trans hs.2.1) g)
  | setSectionName _ _ _ => exact Nat.le_of_eq (counter_withName ..).symm
  | setOptionName _ _ _ => exact Nat.le_of_eq (counter_withName ..).symm
  | setListName _ _ _ => exact Nat.le_of_eq (counter_withName ..).symm
  | setOptionValue _ _ => exact Nat.le_of_eq (counter_withValue ..).symm
  | setElementValue _ _ => exact Nat.le_of_eq (counter_withValue ..).symm

/-- **A generated name is new in its group** when a section comes to have it. -/
theorem namedAlone (hw : d.arena.WellFormed) (hd : d.arena.Numbered) (h : d.Accepts op r d')
    (hks : d'.arena.kind? s = some .section) (hn : d'.arena.name? s = some n)
    (hat : n.head? = some '@') (hnew : d.arena.name? s ≠ some n) :
    (∃ type number, n = generatedName type number) ∧ d'.arena.NamedAlone s := by
  -- a new node that is no section is not the one
  have hhang : ∀ {p : Handle} {c : Content}, p < d.arena.size → c.kind ≠ .section →
      (d.arena.hang p c).kind? s = some .section → (d.arena.hang p c).name? s ≠ some n := by
    intro p c hp hc hks
    rw [kind?_hang hp] at hks
    rw [name?_hang hp]
    split at hks
    · exact absurd (Option.some.inj hks) hc
    · next hs => rwa [if_neg hs]
  -- nor is an entry that gets another name
  have hrename : ∀ {x : Handle} {k : NodeKind} {m : Text}, d.arena.kind? x = some k →
      k ≠ .section → (d.arena.modifyContent x (·.withName m)).kind? s = some .section →
      (d.arena.modifyContent x (·.withName m)).name? s ≠ some n := by
    intro x k m hx hk hks
    rw [kind?_modifyContent (Content.kind_withName m)] at hks
    rwa [name?_modifyContent, if_neg (ne_of_kind? hks hx (Ne.symm hk))]
  cases h with
  | setPackage _ => exact absurd hn hnew
  | addSection _ _ hname hg _ =>
    have hkg := hw.kind?_of_mem_groups (childNamed?_eq_some hg).1
    rcases hd.named_hangSection hw hkg (fun n hn => (hname n hn).2) hn hat with
      ⟨-, hold⟩ | ⟨⟨number, hgen⟩, halone⟩
    · exact absurd hold hnew
    · exact ⟨⟨_, number, hgen⟩, halone⟩
  | @addSectionAndGroup h type name _ _ hname _ =>
    obtain ⟨hw', hkg⟩ := wellFormed_hang_group hw type
    have hgroup : (d.arena.hang 1 (.sectionType (some type) 0)).Numbered :=
      hd.hang hw hw.one_lt_size (by nofun)
    rcases hgroup.named_hangSection hw' hkg (fun n hn => (hname n hn).2) hn hat with
      ⟨hs, hold⟩ | ⟨⟨number, hgen⟩, halone⟩
    · -- the group that came in is no section
      refine absurd hold (hhang hw.one_lt_size (by nofun) ?_)
      rwa [arena_mapArena, kind?_hangSection (lt_size_of_kind? hkg), if_neg hs] at hks
    · exact ⟨⟨_, number, hgen⟩, halone⟩
  | addOption hp _ _ => exact absurd hn (hhang hp.lt_size (by nofun) hks)
  | addList hp _ _ => exact absurd hn (hhang hp.lt_size (by nofun) hks)
  | addElement hp => exact absurd hn (hhang hp.lt_size (by nofun) hks)
  | remove _ _ _ =>
    rw [arena_mapArena, name?_eq, content?_detach, ← name?_eq] at hn
    exact absurd hn hnew
  | @setSectionType t g type ht _ _ =>
    obtain ⟨hw', habsorbs⟩ := wellFormed_merged (g := g) hw type
    have hkg := hw.kind?_group ht.2.1 ht.2.2
    have hname : (d.arena.modifyContent g (·.withName type)).Numbered :=
      hd.withName fun hk => absurd (hkg.symm.trans hk) (by nofun)
    rw [arena_mapArena, kind?_nameSection, kind?_merged hw] at hks
    rcases (hname.of_absorbs habsorbs).named_nameSection hw' ((kind?_merged hw type t).trans ht.2.1)
      hn with hold | halone
    · -- up to the last step the sections have the names they had
      rw [name?_of_absorbs habsorbs, name?_modifyContent,
        if_neg (ne_of_kind? hks hkg (by nofun))] at hold
      exact absurd hold hnew
    · exact halone
  | setSectionName ht hname _ =>
    rw [arena_mapArena, name?_withName ht.2.1 (by simp)] at hn
    split at hn
    · exact absurd hat (Option.some.inj hn ▸ hname.2)
    · exact absurd hn hnew
  | setOptionName hh _ _ => exact absurd hn (hrename hh.2.1 (by nofun) hks)
  | setListName hh _ _ => exact absurd hn (hrename hh.2.1 (by nofun) hks)
  | setOptionValue _ _ => exact absurd ((name?_withValue ..).symm.trans hn) hnew
  | setElementValue _ _ => exact absurd ((name?_withValue ..).symm.trans hn) hnew

end Accepts

/-! ### Histories -/

theorem numbered_empty : empty.arena.Numbered := by
  rintro g s ⟨hk, -⟩
  rcases kind?_empty hk with ⟨-, hk⟩ | ⟨-, hk⟩ <;> cases hk

theorem Built.numbered (hd : d.Built OnAny) : d.arena.Numbered :=
  (hd.induction (P := fun d => d.arena.Numbered) numbered_empty
    fun hw hn _ hacc => hacc.numbered hw hn).2

/-- Refused operations change nothing, and the others count no group back. -/
theorem Built.counter_le_play (hd : d.Built OnAny) (ops : List Operation) (g : Handle) :
    d.arena.counter g ≤ (d.play ops).arena.counter g := by
  induction ops generalizing d with
  | nil => exact Nat.le_refl _
  | cons op ops ih =>
    refine Nat.le_trans ?_ (ih (hd.edited op trivial))
    rcases Operation.after_cases hd.wellFormed op with hsame | ⟨r, hacc⟩
    · exact Nat.le_of_eq (congrArg (·.arena.counter g) hsame.symm)
    · exact hacc.counter_le hd.wellFormed g

/-- **The operation gives a generated name**: the section `s`, new or old, comes to be called
`n`. -/
def Generates (d : Document) (op : Operation) (s : Handle) (n : Text) : Prop :=
  (op.after d).arena.kind? s = some .section ∧ (op.after d).arena.name? s = some n ∧
    n.head? = some '@' ∧ d.arena.name? s ≠ some n

/-- **Numbers are used once.** -/
structure NumbersUsedOnce (d : Document) : Prop where
  /-- The numbers in the names of the sections that a group holds, live or removed, lie behind
  its counter. -/
  behind : ∀ g s type number, d.arena.Holds g s →
    d.arena.name? s = some (generatedName type number) → number < d.arena.counter g
  /-- A name that is generated is that of no other section of the group, live or removed. -/
  alone : ∀ op s n, d.Generates op s n →
    (∃ type number, n = generatedName type number) ∧ (op.after d).arena.NamedAlone s
  /-- A section that comes without a name is given a generated one. -/
  unnamed : ∀ h type s, ((Operation.addSection h type none).edit.run d).1 = .ok (some s) →
    ∃ n, d.Generates (.addSection h type none) s n
  /-- No counter ever goes back. -/
  counter_le : ∀ ops g, d.arena.counter g ≤ (d.play ops).arena.counter g

/-- A new section without a name is given the next generated one. -/
private theorem Built.generates_addSection (hd : d.Built OnAny) {h : Handle} {type : Text}
    (hrun : ((Operation.addSection h type none).edit.run d).1 = .ok (some s)) :
    ∃ n, d.Generates (.addSection h type none) s n := by
  have hw := hd.wellFormed
  unfold Generates
  generalize hop : Operation.addSection h type none = op at hrun ⊢
  have hacc : d.Accepts op (some s) (op.after d) :=
    (Operation.run_eq_ok_iff hw).mp (Prod.ext hrun rfl)
  generalize op.after d = d' at hacc ⊢
  subst hop
  have hnone : ∀ {x : Handle} {n : Text}, d.arena.size ≤ x → d.arena.name? x ≠ some n := by
    intro x n hx hname
    rw [name?_eq] at hname
    obtain ⟨c, hc, -⟩ := Option.bind_eq_some_iff.mp hname
    exact absurd (lt_size_of_content? hc) (Nat.not_lt.mpr hx)
  have hlast : ∀ {a : Arena} {g : Handle}, g < a.size →
      (a.hangSection g type none).kind? a.size = some .section ∧
        (a.hangSection g type none).name? a.size = some (generatedName type (a.counter g)) := by
    intro a g hlt
    rw [kind?_hangSection hlt, name?_hangSection hlt, if_pos rfl, if_pos rfl]
    exact ⟨rfl, rfl⟩
  cases hacc with
  | addSection _ _ _ hg _ =>
    obtain ⟨hk, hname⟩ := hlast (hw.lt_size_of_childNamed? hg)
    exact ⟨_, hk, hname, generatedName_head _ _, hnone (Nat.le_refl _)⟩
  | addSectionAndGroup _ _ _ _ =>
    obtain ⟨hk, hname⟩ := hlast (lt_size_of_kind? (wellFormed_hang_group hw type).2)
    rw [size_hang] at hk hname
    exact ⟨_, hk, hname, generatedName_head _ _, hnone (Nat.le_succ _)⟩

/-- **No group ever gives a number twice.** -/
theorem numbersUsedOnce_of_reachable (hd : d.Reachable OnAny) : d.NumbersUsedOnce := by
  have hb := hd.built fun _ _ _ => trivial
  have hw := hb.wellFormed
  have hn := hb.numbered
  refine
    { behind := fun g s type number hs hname => ?_
      alone := fun op s n hgen => ?_
      unnamed := fun h type s hrun => hb.generates_addSection hrun
      counter_le := fun ops g => hb.counter_le_play ops g }
  · obtain ⟨type', number', heq, hlt⟩ := hn g s hs _ hname (generatedName_head type number)
    rwa [generatedName_inj heq]
  · obtain ⟨hks, hname, hat, hnew⟩ := hgen
    rcases Operation.after_cases hw op with hsame | ⟨r, hacc⟩
    · rw [hsame] at hname
      exact absurd hname hnew
    · exact hacc.namedAlone hw hn hks hname hat hnew

/-- Two groups that gave the same numbers are made one, a section is renamed and another one
removed before the next number is given. -/
theorem numbersUsedOnce_after_merging :
    let d := empty.play [.addSection 0 "a".toList none, .addSection 0 "a".toList none,
      .addSection 0 "b".toList none, .setSectionType 6 "a".toList, .setSectionName 3 "x".toList,
      .remove 4, .addSection 0 "a".toList none]
    d.Reachable OnAny ∧ d.arena.name? 7 = some "@a[3]".toList ∧ d.NumbersUsedOnce := by
  intro d
  have hd : d.Reachable OnAny :=
    Reachable.play .empty ⟨trivial, trivial, trivial, trivial, trivial, trivial, trivial, trivial⟩
  exact ⟨hd, by decide +kernel, numbersUsedOnce_of_reachable hd⟩

end Document
end Uci
