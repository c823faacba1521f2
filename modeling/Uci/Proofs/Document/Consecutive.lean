import Uci.Proofs.Document.Numbering
import Uci.Proofs.Document.RoundTrip

/-!
# Consecutive numbers

Generated names are not written, and are given anew when a text is read.  In a document that
comes from a text they are numbered from zero in each type, without gaps and in the order of the
sections, and no group is empty; additions and changes of entries keep it so.  Such a document is
told by its draft, so that what is written of it is read again under the very same names.

## Main definitions

* `Sheet.Group.generated` — the generated names in a group.
* `Document.Consecutive` — documents whose generated names are numbered without gaps.

## Main results

* `Accepts.consecutive` — what one operation of a reading keeps.
* `consecutive_of_parse` — generated names are consecutive in every document that was read.
* `Consecutive.reload` — **a consecutive document is read again as it was**, names included.
-/

namespace Uci

/-- A generated name tells its type and its number. -/
theorem generatedName_inj_iff {t t' : Text} {n n' : Nat} :
    generatedName t n = generatedName t' n' ↔ t = t' ∧ n = n' := by
  refine ⟨fun h => ?_, fun ⟨ht, hn⟩ => ht ▸ hn ▸ rfl⟩
  have hn := generatedName_inj h
  subst hn
  have hfront := List.append_cancel_right (List.append_cancel_right h)
  exact ⟨(List.cons.inj hfront).2, rfl⟩

namespace Sheet

/-- The generated names in a group, in the order of its sections. -/
def Group.generated (g : Group) : List Text :=
  (g.sections.map (·.name)).filter (·.head? = some '@')

/-- What a group says: its type, and its sections. -/
def Group.outline (g : Group) : Text × List SectionOutline :=
  (g.type, g.sections.map (·.outline g.type))

theorem outline_eq (S : Sheet) : S.outline = (S.groups.map Group.outline).flatMap Prod.snd := by
  rw [List.flatMap_map]
  rfl

theorem Group.generated_mapSections {F : Section → Section} (hF : ∀ s, (F s).name = s.name)
    (g : Group) : (g.mapSections F).generated = g.generated := by
  have hnames : (g.mapSections F).sections.map (·.name) = g.sections.map (·.name) := by
    unfold mapSections
    rw [List.map_map]
    exact List.map_congr_left fun s _ => hF s
  unfold generated
  rw [hnames]

/-- One more section adds its name, if that is a generated one. -/
theorem Group.generated_append (g : Group) (s : Section) :
    ({ g with sections := g.sections ++ [s] } : Group).generated =
      g.generated ++ [s.name].filter (·.head? = some '@') := by
  unfold generated
  rw [List.map_append, List.filter_append]
  rfl

/-- Names are told by those of them that were given and by those that were generated. -/
private theorem names_eq {ns ns' : List Text} (hgiven : ns.map givenName? = ns'.map givenName?)
    (hgenerated : ns.filter (·.head? = some '@') = ns'.filter (·.head? = some '@')) :
    ns = ns' := by
  induction ns generalizing ns' with
  | nil => exact (List.map_eq_nil_iff.mp hgiven.symm).symm
  | cons n ns ih =>
    cases ns' with
    | nil => cases hgiven
    | cons n' ns' =>
      obtain ⟨hhead, hrest⟩ := List.cons.inj hgiven
      -- both heads are generated, or neither is
      by_cases hn : n.head? = some '@'
      · have hn' : n'.head? = some '@' := by
          by_contra hn'
          simp [givenName?, hn, hn'] at hhead
        rw [List.filter_cons_of_pos (by simpa using hn),
          List.filter_cons_of_pos (by simpa using hn')] at hgenerated
        obtain ⟨rfl, htail⟩ := List.cons.inj hgenerated
        rw [ih hrest htail]
      · have hn' : ¬ n'.head? = some '@' := by
          intro hn'
          simp [givenName?, hn, hn'] at hhead
        rw [List.filter_cons_of_neg (by simpa using hn),
          List.filter_cons_of_neg (by simpa using hn')] at hgenerated
        simp only [givenName?, if_neg hn, if_neg hn', Option.some.injEq] at hhead
        rw [hhead, ih hrest hgenerated]

/-- There are as many generated names as were not given. -/
private theorem length_generated (g : Group) :
    g.generated.length = (g.draft.sections.map (·.name)).count none := by
  unfold Group.generated Group.draft
  rw [List.map_map, List.count_eq_countP, List.countP_map, ← List.countP_eq_length_filter,
    List.countP_map]
  refine List.countP_congr fun s _ => ?_
  simp [Section.draft, givenName?]

/-- **Groups with consecutive names are told by their drafts.** -/
theorem Group.outline_eq_of_draft {g g' : Group} (h : g'.draft = g.draft) {k k' : Nat}
    (hg : g.generated = (List.range k).map (generatedName g.type))
    (hg' : g'.generated = (List.range k').map (generatedName g'.type)) :
    g'.outline = g.outline := by
  have htype : g'.type = g.type := congrArg Draft.Group.type h
  have hk : k' = k := by
    have hlength := congrArg (fun G : Draft.Group => (G.sections.map (·.name)).count none) h
    rwa [← length_generated, ← length_generated, hg, hg', List.length_map, List.length_map,
      List.length_range, List.length_range] at hlength
  have hsections : g'.sections.map Section.draft = g.sections.map Section.draft :=
    congrArg Draft.Group.sections h
  have hgiven : (g'.sections.map (·.name)).map givenName? =
      (g.sections.map (·.name)).map givenName? := by
    have hname := congrArg (List.map Draft.Section.name) hsections
    rw [List.map_map, List.map_map] at hname ⊢
    exact hname
  have hnames : g'.sections.map (·.name) = g.sections.map (·.name) :=
    names_eq hgiven (hg'.trans (by rw [hk, htype]; exact hg.symm))
  -- a section is made of its name and of what is in the draft
  have houtline : ∀ l : List Section, l.map (·.outline g.type) =
      ((l.map (·.name)).zip (l.map Section.draft)).map fun x => ⟨g.type, x.1, x.2.entries⟩ := by
    intro l
    rw [List.zip_map', List.map_map]
    rfl
  rw [outline, outline, htype, houtline, hnames, hsections, ← houtline]

end Sheet

namespace Document

open Arena

variable {d d' : Document} {op : Operation} {r : Option Handle}

/-- **Consecutive names**: the generated names of each type are numbered from zero, in the order
of the sections, and the next number is the one behind them. -/
structure Consecutive (d : Document) : Prop where
  generated : ∀ G ∈ d.sheet.groups,
    G.generated = (List.range (d.arena.counter G.handle)).map (generatedName G.type)
  /-- No group is empty. -/
  nonempty : ∀ G ∈ d.sheet.groups, G.sections ≠ []

theorem consecutive_empty : empty.Consecutive := ⟨nofun, nofun⟩

/-- The groups of a sheet are those of the arena. -/
private theorem mem_groups_iff {G : Sheet.Group} :
    G ∈ d.sheet.groups ↔ ∃ g ∈ d.arena.liveChildren 1, d.arena.sheetGroup g = G := List.mem_map

/-! ### One operation -/

/-- What changes neither names of sections nor counters keeps names consecutive. -/
theorem Consecutive.of_mapSections (hd : d.Consecutive) {F : Sheet.Section → Sheet.Section}
    (hF : ∀ s, (F s).name = s.name) (hsheet : d'.sheet = d.sheet.mapGroups (·.mapSections F))
    (hcounter : ∀ g ∈ d.arena.liveChildren 1, d'.arena.counter g = d.arena.counter g) :
    d'.Consecutive := by
  have hgroups : d'.sheet.groups = d.sheet.groups.map (·.mapSections F) :=
    congrArg Sheet.groups hsheet
  refine ⟨fun G hG => ?_, fun G hG => ?_⟩ <;> rw [hgroups] at hG <;>
    obtain ⟨H, hH, rfl⟩ := List.mem_map.mp hG
  · obtain ⟨g, hg, rfl⟩ := mem_groups_iff.mp hH
    rw [Sheet.Group.generated_mapSections hF, hd.generated _ hH]
    show _ = (List.range (d'.arena.counter g)).map _
    rw [hcounter g hg]
    rfl
  · exact fun hnil => hd.nonempty H hH (List.map_eq_nil_iff.mp hnil)

/-- A name comes behind those of a group: one that was given, or the next generated one. -/
private theorem generated_add {type : Text} {name : Option Text}
    (hname : ∀ n ∈ name, IsGivenName n) (k : Nat) :
    (List.range k).map (generatedName type) ++
      [name.getD (generatedName type k)].filter (·.head? = some '@') =
        (List.range (if name = none then k + 1 else k)).map (generatedName type) := by
  cases name with
  | none =>
    rw [if_pos rfl, List.range_succ, List.map_append]
    rfl
  | some n => simp [(hname n rfl).2]

section Added

variable {type : Text} {name : Option Text} (hw : d.arena.WellFormed) (ht : d.arena.Tidy)
  (hd : d.Consecutive) (hname : ∀ n ∈ name, IsGivenName n)
include hw ht hd hname

/-- A section comes in at the end of the group of its type. -/
private theorem Consecutive.hangSection {g : Handle} (hg : d.arena.childNamed? 1 type = some g) :
    (d.mapArena (·.hangSection g type name)).Consecutive := by
  obtain ⟨hmem, htype⟩ := childNamed?_eq_some hg
  have hkg := hw.kind?_of_mem_groups hmem
  have hgroups := congrArg Sheet.groups (sheet_hangSection hw ht hkg type name)
  refine ⟨fun G hG => ?_, fun G hG => ?_⟩ <;> rw [hgroups] at hG <;>
    obtain ⟨H, hH, rfl⟩ := List.mem_map.mp hG
  · obtain ⟨x, hx, rfl⟩ := mem_groups_iff.mp hH
    have hcounter : (d.arena.hangSection g type name).counter x = _ :=
      counter_hangSection hkg (hw.child_lt 1 x (mem_liveChildren.mp hx).1)
    split
    · next hxg =>
      change x = g at hxg
      subst hxg
      have hold := hd.generated _ hH
      have htype' : (d.arena.sheetGroup x).type = type := by simp [sheetGroup, htype]
      rw [htype'] at hold
      show ({ d.arena.sheetGroup x with sections := _ ++ [_] } : Sheet.Group).generated =
        (List.range ((d.arena.hangSection x type name).counter x)).map
          (generatedName (d.arena.sheetGroup x).type)
      rw [Sheet.Group.generated_append, hold, htype', hcounter]
      simp only [true_and]
      exact generated_add hname _
    · next hxg =>
      rw [hd.generated _ hH]
      show _ = (List.range ((d.arena.hangSection g type name).counter x)).map _
      rw [hcounter, if_neg fun h => hxg h.1]
      rfl
  · split
    · exact List.append_ne_nil_of_right_ne_nil _ (List.cons_ne_nil _ _)
    · exact hd.nonempty H hH

/-- A section comes in as the first one of its type. -/
private theorem Consecutive.hangGroup (hg : d.arena.childNamed? 1 type = none)
    (hsheet : d'.sheet = d.sheet.addSection d.allocated type
      (name.getD (generatedName type (d.nextNumber type))))
    (hd' : d' = d.mapArena fun a =>
      (a.hang 1 (.sectionType (some type) 0)).hangSection a.size type name) :
    d'.Consecutive := by
  subst hd'
  have hfind := find?_groups hw ht type
  rw [hg] at hfind
  have hgroups := congrArg Sheet.groups hsheet
  simp only [Sheet.addSection, hfind, Option.map_none, nextNumber, hg, Option.getD_none]
    at hgroups
  have hlt : d.arena.size < (d.arena.hang 1 (.sectionType (some type) 0)).size := by
    rw [size_hang]
    exact Nat.lt_succ_self _
  have hzero : (d.arena.hang 1 (.sectionType (some type) 0)).counter d.arena.size = 0 := by
    rw [counter_eq, content?_hang hw.one_lt_size, if_pos rfl]
    rfl
  have hkg := (wellFormed_hang_group hw type).2
  refine ⟨fun G hG => ?_, fun G hG => ?_⟩ <;> rw [hgroups] at hG <;>
    rcases List.mem_append.mp hG with hH | hnew
  · obtain ⟨x, hx, rfl⟩ := mem_groups_iff.mp hH
    have hxlt := hw.child_lt 1 x (mem_liveChildren.mp hx).1
    have hcounter : ((d.arena.hang 1 (.sectionType (some type) 0)).hangSection
        d.arena.size type name).counter x = d.arena.counter x := by
      rw [counter_hangSection hkg (Nat.lt_trans hxlt hlt),
        if_neg fun h => Nat.ne_of_lt hxlt h.1, counter_hang hw.one_lt_size hxlt]
    rw [hd.generated _ hH]
    show _ = (List.range (Arena.counter _ x)).map _
    rw [arena_mapArena, hcounter]
    rfl
  · rw [List.mem_singleton.mp hnew]
    show _ = (List.range (Arena.counter _ d.arena.size)).map _
    rw [arena_mapArena, counter_hangSection hkg hlt, hzero]
    simp only [true_and]
    exact generated_add hname 0
  · exact hd.nonempty G hH
  · rw [List.mem_singleton.mp hnew]
    exact List.cons_ne_nil _ _

end Added

namespace Accepts

/-- **Names stay consecutive** in the course of a reading. -/
theorem consecutive (hw : d.arena.WellFormed) (ht : d.arena.Tidy) (hd : d.Consecutive)
    (hop : d.OnReplay op) (h : d.Accepts op r d') : d'.Consecutive := by
  have hsheet := h.sheet hw ht hop.1 hop.onReading.2
  have hold : ∀ g ∈ d.arena.liveChildren 1, g < d.arena.size := fun g hg =>
    hw.child_lt 1 g (mem_liveChildren.mp hg).1
  cases h with
  | setPackage _ => exact ⟨hd.generated, hd.nonempty⟩
  | addSection _ _ hname hg _ =>
    exact hd.hangSection hw ht hname hg
  | addSectionAndGroup _ _ hname hg =>
    exact hd.hangGroup hw ht hname hg hsheet rfl
  | addOption hp _ _ =>
    refine hd.of_mapSections (fun s => ?_) hsheet fun g hg => counter_hang hp.lt_size (hold g hg) _
    split <;> rfl
  | addList hp _ _ =>
    refine hd.of_mapSections (fun s => ?_) hsheet fun g hg => counter_hang hp.lt_size (hold g hg) _
    split <;> rfl
  | addElement hp =>
    exact hd.of_mapSections (F := (·.mapEntries _)) (fun _ => rfl) hsheet fun g hg =>
      counter_hang hp.lt_size (hold g hg) _
  | setOptionValue _ _ =>
    exact hd.of_mapSections (F := (·.mapEntries _)) (fun _ => rfl) hsheet fun g _ =>
      counter_withValue ..
  | _ => cases hop.2

end Accepts

/-! ### Documents that were read -/

theorem Built.consecutive (hd : d.Built OnReplay) : d.Consecutive :=
  (hd.induction (P := fun d => d.arena.Tidy ∧ d.Consecutive) ⟨tidy_empty, consecutive_empty⟩
    fun hw hP hop hacc =>
      ⟨hacc.tidy hw hP.1 hop.1, hacc.consecutive hw hP.1 hP.2 hop⟩).2.2

/-- **Generated names are consecutive** in every document that was read. -/
theorem consecutive_of_parse {source : Text} (h : parse source = .ok d) : d.Consecutive :=
  (replayed_of_parse h).consecutive

/-- A document without empty groups is written as a whole. -/
private theorem trim_draft (hnonempty : ∀ G ∈ d.sheet.groups, G.sections ≠ []) :
    d.sheet.draft.trim = d.sheet.draft := by
  have hfilter : d.sheet.draft.groups.filter (·.sections ≠ []) = d.sheet.draft.groups := by
    refine List.filter_eq_self.mpr fun G hG => ?_
    obtain ⟨H, hH, rfl⟩ := List.mem_map.mp hG
    simpa [Sheet.Group.draft] using hnonempty H hH
  unfold Draft.trim
  rw [hfilter]

/-- **A consecutive document is read again as it was.** -/
theorem Consecutive.reload (hc : d.Consecutive) (hb : d.Built OnIssued) :
    ∃ d', parse d.print = .ok d' ∧ d'.package = d.package ∧
      d'.sheet.groups.map Sheet.Group.outline = d.sheet.groups.map Sheet.Group.outline := by
  have hw := hb.wellFormed
  have ht := hb.tidy fun _ _ hop => hop
  obtain ⟨d', hparse, -, hdraft⟩ := parse_text (hb.named.writable hw ht)
  rw [← Sheet.print_eq, ← print_eq_sheet hw ht] at hparse
  rw [trim_draft hc.nonempty] at hdraft
  refine ⟨d', hparse, congrArg Draft.package hdraft, ?_⟩
  have hc' := consecutive_of_parse hparse
  -- group by group, the drafts tell the names
  have hgroups : d'.sheet.groups.map Sheet.Group.draft = d.sheet.groups.map Sheet.Group.draft :=
    congrArg Draft.groups hdraft
  rw [← List.forall₂_eq_eq_eq, List.forall₂_map_left_iff, List.forall₂_map_right_iff] at hgroups ⊢
  rw [List.forall₂_iff_zip] at hgroups ⊢
  refine ⟨hgroups.1, fun {G' G} hzip => ?_⟩
  obtain ⟨hG', hG⟩ := List.of_mem_zip hzip
  exact Sheet.Group.outline_eq_of_draft (hgroups.2 hzip) (hc.generated G hG)
    (hc'.generated G' hG')

end Document

end Uci
