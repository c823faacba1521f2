import Uci.Proofs.Document.Walking

/-!
# What counts as a section

A section is a live node that has a type and a name, and that a walk can be made below.
The listing of sections, a walk from the root, a lookup by the name alone and the written
text take for a section whatever hangs below a type group.  That is a section as long as
nothing else is hung there, and the table of what may hang below what lets an option or a
list in: an addition that names a group is accepted, and from then on its option is listed,
walked to, found and written as if it were a section.

## Main definitions

* `Document.IsSection` — the node can be read as a section.
* `Document.SectionsOnly` — all that is taken for a section is one.
* `Document.Strays` — an accepted addition of an option or a list to a type group.

## Main results

* `sectionsOnly_after_iff` — **one operation keeps to sections unless it strays**.
* `sectionsOnly_play_iff` — whatever handles the operations of a history name, only sections
  are taken for sections exactly if no operation of it strays.
-/

namespace Uci
namespace Document

open Arena

variable {d d' : Document} {op : Operation} {ops : List Operation} {r : Option Handle}
  {g s : Handle}

/-- **Section**: a node with a type and a name, below which a walk can be made. -/
structure IsSection (d : Document) (s : Handle) : Prop where
  type : ∃ type, d.sectionType s = .ok type
  name : ∃ name, d.sectionName s = .ok name
  walk : ∃ w, d.walk s = .ok w

/-- The lines that belong to a node as the type, the name and the nodes below it are read. -/
def sectionLines (d : Document) (s : Handle) : Except Refusal Text := do
  let type ← d.sectionType s
  let name ← d.sectionName s
  let entries ← d.below s
  return printedHeader type name ++ entries.flatMap d.printEntry ++ ['\n']

/-- **Sections only**: all that is taken for a section is one. -/
structure SectionsOnly (d : Document) : Prop where
  /-- What the listing has. -/
  listed : ∀ s ∈ d.sections, d.IsSection s
  /-- What a walk from the root answers, however often it is asked. -/
  walked : ∀ count, ∃ answers, d.nexts root count = .ok answers ∧
    ∀ s, .ok s ∈ answers → d.IsSection s
  /-- What is found by the name of a section alone. -/
  found : ∀ name s, d.find (some name) none = .ok s → d.IsSection s
  /-- The text has the lines of sections behind the package, one after the other. -/
  written : ∃ texts, d.sections.mapM d.sectionLines = .ok texts ∧
    d.print = printedPackage d.package ++ texts.flatten

/-- **Straying operation**: an option or a list that is added to a type group. -/
def Strays (d : Document) (op : Operation) : Prop :=
  ∃ g ∈ op.entryHost?, d.arena.kind? g = some .sectionType ∧ ∃ r, (op.edit.run d).1 = .ok r

/-! ### Tidy documents -/

section Tidy

variable (hw : d.arena.WellFormed) (ht : d.arena.Tidy)
include hw ht

theorem isSection_of_mem (hs : s ∈ d.sections) : d.IsSection s := by
  obtain ⟨hlive, hk⟩ := (mem_sections_iff hw ht).mp hs
  obtain ⟨g, hg, hsg⟩ := exists_group_of_isLive hw hlive hk
  obtain ⟨type, htype⟩ := exists_name_of_tidy ht (hw.kind?_of_mem_groups hg) (Or.inl rfl)
  obtain ⟨name, hname⟩ := exists_name_of_tidy ht hk (Or.inr (Or.inl rfl))
  obtain ⟨w, hwalk, -⟩ := map_eq_ok_iff.mp (below_children hlive (Or.inl hk))
  exact ⟨⟨type, (sectionType_eq_ok_iff hw ht hg hsg type).mpr htype⟩,
    ⟨name, sectionName_eq_ok.mpr ⟨hlive, hk, hname⟩⟩, ⟨w, hwalk⟩⟩

/-- What is written for a section is what its readings say. -/
theorem sectionLines_eq (hs : s ∈ d.sections) : d.sectionLines s = .ok (d.printSection s) := by
  obtain ⟨hlive, hk⟩ := (mem_sections_iff hw ht).mp hs
  obtain ⟨⟨type, htype⟩, ⟨name, hname⟩, -⟩ := isSection_of_mem hw ht hs
  have hbelow := below_children hlive (Or.inl hk)
  obtain ⟨g, hg, hsg⟩ := exists_group_of_isLive hw hlive hk
  have hgroup := (sectionType_eq_ok_iff hw ht hg hsg type).mp htype
  have hself := (sectionName_eq_ok.mp hname).2.2
  rw [sectionLines, htype, hname, hbelow, printSection, hw.mem_liveChildren_iff.mp hsg,
    Option.bind_some, hgroup, hself]
  rfl

/-- **A tidy document takes only sections for sections.** -/
theorem sectionsOnly_of_tidy : d.SectionsOnly where
  listed s hs := isSection_of_mem hw ht hs
  walked count := by
    refine ⟨_, nexts_of_below (below_top hw (Or.inl rfl)) count, fun s hs => ?_⟩
    obtain ⟨i, -, hi⟩ := List.mem_map.mp hs
    cases hget : d.sections[i]? with
    | none =>
      rw [hget] at hi
      cases hi
    | some x =>
      rw [hget] at hi
      cases hi
      exact isSection_of_mem hw ht (List.mem_of_getElem? hget)
  found name s hs := by
    obtain ⟨hlive, hk, -⟩ := sectionName_eq_ok.mp (sectionName_of_find hw ht hs)
    exact isSection_of_mem hw ht ((mem_sections_iff hw ht).mpr ⟨hlive, hk⟩)
  written := by
    refine ⟨d.sections.map d.printSection, mapM_eq_ok fun s hs => sectionLines_eq hw ht hs, ?_⟩
    rw [← List.flatMap_def]
    rfl

end Tidy

/-! ### One operation -/

/-- What is hung below a group is listed. -/
private theorem mem_sections_hang {c : Content} (hw : d.arena.WellFormed)
    (hw' : (d.arena.hang g c).WellFormed) (hg : g ∈ d.arena.liveChildren 1) :
    d.arena.size ∈ (d.mapArena (·.hang g c)).sections := by
  have hk := hw.kind?_of_mem_groups hg
  have hlt : g < d.arena.size := lt_size_of_kind? hk
  have hne : (1 : Handle) ≠ g := by
    rintro rfl
    rw [hw.kind_config] at hk
    cases hk
  rw [sections_eq hw']
  refine List.mem_flatMap.mpr ⟨g, ?_, ?_⟩
  · rwa [arena_mapArena, liveChildren_hang hlt (hw.child_lt 1), if_neg hne]
  · rw [arena_mapArena, liveChildren_hang hlt (hw.child_lt g), if_pos rfl]
    exact List.mem_append_right _ (List.mem_singleton_self _)

/-- **An addition that strays is listed as a section**, and has no name as sections have it. -/
theorem not_sectionsOnly_of_strays (hw : d.arena.WellFormed) (hop : d.Strays op) :
    ¬(op.after d).SectionsOnly := by
  obtain ⟨g, hhost, hg, r, hrun⟩ := hop
  have hacc : d.Accepts op r (op.after d) := (Operation.run_eq_ok_iff hw).mp (Prod.ext hrun rfl)
  have hw' := hacc.wellFormed hw
  -- an option and a list are hung in the same way, and neither is a section
  have key : ∀ c : Content, c.kind ≠ .section → d.isLive g = true →
      op.after d = d.mapArena (·.hang g c) → ¬(op.after d).SectionsOnly := by
    intro c hc hlive hafter hd
    rw [hafter] at hw' hd
    obtain ⟨name, hname⟩ :=
      (hd.listed _ (mem_sections_hang hw hw' (mem_groups_of_isLive hw hlive hg))).name
    have hk := (sectionName_eq_ok.mp hname).2.1
    rw [arena_mapArena, kind?_hang (lt_size_of_kind? hg), if_pos rfl] at hk
    exact hc (Option.some.inj hk)
  generalize op.after d = d' at hacc key
  cases hacc with
  | addOption hp _ _ =>
    cases hhost
    exact key _ (by nofun) hp.1 rfl
  | addList hp _ _ =>
    cases hhost
    exact key _ (by nofun) hp.1 rfl
  | _ => cases hhost

/-- An accepted operation that does not stray keeps the arena tidy. -/
theorem Accepts.tidy_of_not_strays (hw : d.arena.WellFormed) (ht : d.arena.Tidy)
    (hop : ¬d.Strays op) (hacc : d.Accepts op r d') : d'.arena.Tidy := by
  refine hacc.tidy_of_entryHost hw ht fun g hg hk => hop ⟨g, hg, hk, r, ?_⟩
  rw [(Operation.run_eq_ok_iff hw).mpr hacc]

theorem tidy_after_of_not_strays (hw : d.arena.WellFormed) (ht : d.arena.Tidy)
    (hop : ¬d.Strays op) : (op.after d).arena.Tidy := by
  rcases Operation.after_cases hw op with hsame | ⟨r, hacc⟩
  · rwa [hsame]
  · exact hacc.tidy_of_not_strays hw ht hop

/-- **One operation keeps to sections unless it strays.** -/
theorem sectionsOnly_after_iff (hd : d.Built OnAny) (ht : d.arena.Tidy) :
    (op.after d).SectionsOnly ↔ ¬d.Strays op := by
  constructor
  · exact fun hs hop => not_sectionsOnly_of_strays hd.wellFormed hop hs
  · intro hop
    exact sectionsOnly_of_tidy (hd.edited op trivial).wellFormed
      (tidy_after_of_not_strays hd.wellFormed ht hop)

/-! ### Histories -/

private theorem sectionsOnly_play_iff_of_tidy (hd : d.Built OnAny) (ht : d.arena.Tidy) :
    (∀ n, (d.play (ops.take n)).SectionsOnly) ↔ d.Plays (fun d op => ¬d.Strays op) ops := by
  induction ops generalizing d with
  | nil =>
    refine iff_of_true (fun n => ?_) trivial
    rw [List.take_nil]
    exact sectionsOnly_of_tidy hd.wellFormed ht
  | cons op ops ih =>
    have hstep : (op.after d).SectionsOnly ↔ ¬d.Strays op := sectionsOnly_after_iff hd ht
    have hd' : (op.after d).Built OnAny := hd.edited op trivial
    constructor
    · intro hall
      have hno := hstep.mp (hall 1)
      have ht' := tidy_after_of_not_strays hd.wellFormed ht hno
      exact ⟨hno, (ih hd' ht').mp fun n => hall (n + 1)⟩
    · rintro ⟨hno, hrest⟩ n
      have ht' := tidy_after_of_not_strays hd.wellFormed ht hno
      cases n with
      | zero => exact sectionsOnly_of_tidy hd.wellFormed ht
      | succ n => exact (ih hd' ht').mpr hrest n

/-- **When only sections are taken for sections**: from an empty document or a text that was
read, whatever handles the operations name, as long as none of them strays. -/
theorem sectionsOnly_play_iff (hd : d = empty ∨ ∃ source, parse source = .ok d) :
    (∀ n, (d.play (ops.take n)).SectionsOnly) ↔ d.Plays (fun d op => ¬d.Strays op) ops := by
  have hbuilt : d.Built OnReading := by
    rcases hd with rfl | ⟨source, hparse⟩
    · exact .empty
    · exact built_of_parse hparse
  exact sectionsOnly_play_iff_of_tidy (hbuilt.mono fun _ _ _ => trivial)
    (hbuilt.tidy fun _ _ h => h.1)

/-- A section of the type `rule`, with which the group `2` comes in, and an option that is added
to that group. -/
def strayingHistory : List Operation :=
  [.addSection 0 "rule".toList none, .addOption 2 "x".toList "1".toList]

theorem sectionsOnly_play_strayingHistory :
    (∀ n, (empty.play (strayingHistory.take n)).SectionsOnly) ↔
      empty.Plays (fun d op => ¬d.Strays op) strayingHistory :=
  sectionsOnly_play_iff (Or.inl rfl)

/-- **An option that is taken for a section**: it is listed, walked to from the root and found by
its name, has no name as sections have it, and is written with a `config` line. -/
theorem not_sectionsOnly_after_straying :
    let d := empty.play strayingHistory
    d.Reachable OnAny ∧ ¬d.SectionsOnly ∧ d.sections = [3, 4] ∧ ¬d.IsSection 4 ∧
      d.nexts root 2 = .ok [.ok 3, .ok 4] ∧ d.find (some "x".toList) none = .ok 4 ∧
      d.print = "config rule\n\nconfig rule 'x'\n\n".toList := by
  intro d
  have hno : ¬d.IsSection 4 := by
    rintro ⟨-, ⟨name, hname⟩, -⟩
    have hmismatch : d.sectionName 4 = .error (.mismatch (.kind 4 .option .section)) := by decide
    rw [hmismatch] at hname
    cases hname
  have hsections : d.sections = [3, 4] := by decide
  refine ⟨Reachable.play .empty ⟨trivial, trivial, trivial⟩, fun hd => hno (hd.listed 4 ?_),
    hsections, hno, by decide, by decide, by decide⟩
  rw [hsections]
  exact List.mem_cons_of_mem _ (List.mem_singleton_self 4)

end Document
end Uci
