import Uci.Proofs.Command.Change
import Uci.Proofs.Document.Consecutive

/-!
# Numbers that are kept

A section without a name can be addressed by the generated one, in the document as it is and in
the one that a later run reads.  The number is not written; a reading counts anew.  For a document
that was read the two come to the same, and so they do after a section has been added, whose
number was printed when it was added.

## Main definitions

* `generatedNames` — the generated names of the sections of a type.
* `Document.NumbersKept` — generated names are the same after a reload.

## Main results

* `Consecutive.section_unique` — a generated name is that of one section, in all groups.
* `numbersKept_of_parse` — **numbers are kept**, those of the sections that were read and that of a
  new one.
-/

namespace Uci

/-- The generated names of the sections of a type, in their order. -/
def generatedNames (type : Text) (os : List SectionOutline) : List Text :=
  ((os.filter (·.type = type)).map (·.name)).filter (·.head? = some '@')

theorem generatedNames_append (type : Text) (os os' : List SectionOutline) :
    generatedNames type (os ++ os') = generatedNames type os ++ generatedNames type os' := by
  unfold generatedNames
  rw [List.filter_append, List.map_append, List.filter_append]

namespace Sheet

variable {type : Text}

/-- The sections of a group are all of its type. -/
private theorem generatedNames_group (g : Group) :
    generatedNames type (g.sections.map (·.outline g.type)) =
      if g.type = type then g.generated else [] := by
  have htype : ∀ o ∈ g.sections.map (·.outline g.type), o.type = g.type := by
    intro o ho
    obtain ⟨s, -, rfl⟩ := List.mem_map.mp ho
    rfl
  unfold generatedNames Group.generated
  split
  · next h =>
    rw [List.filter_eq_self.mpr fun o ho => decide_eq_true ((htype o ho).trans h), List.map_map]
    rfl
  · next h =>
    rw [List.filter_eq_nil_iff.mpr fun o ho heq => h ((htype o ho).symm.trans (of_decide_eq_true heq))]
    rfl

/-- The names that were generated for a type are those in its group. -/
private theorem generatedNames_groups {gs : List Group} (hapart : (gs.map (·.type)).Nodup) :
    generatedNames type (gs.flatMap fun g => g.sections.map (·.outline g.type)) =
      ((gs.find? (·.type = type)).map Group.generated).getD [] := by
  induction gs with
  | nil => rfl
  | cons g gs ih =>
    obtain ⟨hnew, hrest⟩ := List.nodup_cons.mp hapart
    rw [List.flatMap_cons, generatedNames_append, generatedNames_group, ih hrest]
    split
    · next htype =>
      have hnone : gs.find? (·.type = type) = none :=
        List.find?_eq_none.mpr fun g' hg' h' => hnew (List.mem_map.mpr
          ⟨g', hg', (of_decide_eq_true h').trans htype.symm⟩)
      have hsome : (g :: gs).find? (·.type = type) = some g :=
        List.find?_cons_of_pos (by simpa using htype)
      rw [hnone, hsome]
      exact List.append_nil _
    · next htype =>
      have hskip : (g :: gs).find? (·.type = type) = gs.find? (·.type = type) :=
        List.find?_cons_of_neg (by simpa using htype)
      rw [hskip]
      rfl

/-- A section that is added is the last one of its type. -/
private theorem exists_last_addSection (S : Sheet) (fresh : Handle) (type name : Text) :
    ∃ G ∈ (S.addSection fresh type name).groups, G.type = type ∧ ∃ front,
      G.sections = front ++
        [⟨if S.groups.any (·.type = type) then fresh else fresh + 1, name, []⟩] := by
  unfold addSection
  cases hfind : S.groups.find? (·.type = type) with
  | some g =>
    have hmem := List.mem_of_find?_eq_some hfind
    have htype : g.type = type := by simpa using List.find?_some hfind
    have hany : S.groups.any (·.type = type) = true :=
      List.any_eq_true.mpr ⟨g, hmem, decide_eq_true htype⟩
    refine ⟨_, List.mem_map_of_mem hmem, ?_⟩
    rw [if_pos rfl, hany]
    exact ⟨htype, _, rfl⟩
  | none =>
    have hany : S.groups.any (·.type = type) = false := by
      rw [← List.isSome_find?, hfind]
      rfl
    refine ⟨_, List.mem_append_right _ (List.mem_singleton_self _), rfl, [], ?_⟩
    rw [hany]
    rfl

end Sheet

namespace Document

open Arena

variable {d d' : Document} {G G' : Sheet.Group} {S S' : Sheet.Section}

/-! ### Sections on a sheet -/

/-- No two groups on a sheet have the same type. -/
theorem nodup_types (hn : d.Named) (hw : d.arena.WellFormed) (ht : d.arena.Tidy) :
    (d.sheet.groups.map (·.type)).Nodup := by
  have hapart : (d.sheet.groups.map Sheet.Group.draft).Pairwise fun g g' => g.type ≠ g'.type :=
    (hn.writable hw ht).types_apart
  have hgroups := List.pairwise_map.mp hapart
  exact List.pairwise_map.mpr hgroups

section

variable (hw : d.arena.WellFormed) (ht : d.arena.Tidy) (hG : G ∈ d.sheet.groups)
  (hS : S ∈ G.sections)
include hw ht hG hS

/-- What is asked of a section stands on the sheet. -/
theorem section_of_sheet : d.sectionName S.handle = .ok S.name ∧
    d.sectionType S.handle = .ok G.type ∧
      d.below S.handle = .ok (S.entries.map (·.handle)) := by
  obtain ⟨g, hg, rfl⟩ := List.mem_map.mp hG
  obtain ⟨s, hs, rfl⟩ := List.mem_map.mp hS
  have hkg := hw.kind?_of_mem_groups hg
  obtain ⟨t, htype⟩ := exists_name_of_tidy ht hkg (by simp)
  obtain ⟨n, hname⟩ := exists_name_of_tidy ht (hw.kind?_of_mem_sections ht hkg hs) (by simp)
  have hsection : d.sectionName s = .ok n := (sectionName_eq_ok_iff hw ht hg hs n).mpr hname
  refine ⟨?_, ?_, ?_⟩
  · simpa only [sheetSection, hname, Option.getD_some] using hsection
  · simpa only [sheetGroup, sheetSection, htype, Option.getD_some] using
      (sectionType_eq_ok_iff hw ht hg hs t).mpr htype
  · rw [show (d.arena.sheetSection s).handle = s from rfl, below_section hsection, sheetSection,
      List.map_map]
    exact congrArg Except.ok (List.map_id _).symm

end

/-- **A generated name is that of one section**, in all groups. -/
theorem Consecutive.section_unique (hc : d.Consecutive)
    (hapart : (d.sheet.groups.map (·.type)).Nodup) (hG : G ∈ d.sheet.groups)
    (hG' : G' ∈ d.sheet.groups) (hS : S ∈ G.sections) (hS' : S' ∈ G'.sections)
    (hname : S'.name = S.name) (hat : S.name.head? = some '@') : S' = S := by
  have hmem : ∀ {H : Sheet.Group} {s : Sheet.Section}, H ∈ d.sheet.groups → s ∈ H.sections →
      s.name.head? = some '@' → ∃ k, s.name = generatedName H.type k := by
    intro H s hH hs hat
    have hin : s.name ∈ H.generated :=
      List.mem_filter.mpr ⟨List.mem_map_of_mem hs, decide_eq_true hat⟩
    rw [hc.generated H hH] at hin
    obtain ⟨k, -, hk⟩ := List.mem_map.mp hin
    exact ⟨k, hk.symm⟩
  obtain ⟨k, hk⟩ := hmem hG hS hat
  obtain ⟨k', hk'⟩ := hmem hG' hS' (hname ▸ hat)
  -- the name tells the type, and the type the group
  have htype : G'.type = G.type := (generatedName_inj_iff.mp (hk'.symm.trans (hname.trans hk))).1
  have hgroup : G' = G := List.inj_on_of_nodup_map hapart hG' hG htype
  subst hgroup
  have hnodup : (G'.sections.filter (·.name.head? = some '@')).map (·.name) |>.Nodup := by
    have hgenerated : (G'.sections.filter (·.name.head? = some '@')).map (·.name) =
        G'.generated := by
      unfold Sheet.Group.generated
      rw [List.filter_map]
      rfl
    rw [hgenerated, hc.generated _ hG]
    exact List.nodup_range.map fun _ _ h => (generatedName_inj_iff.mp h).2
  exact List.inj_on_of_nodup_map hnodup
    (List.mem_filter.mpr ⟨hS', decide_eq_true (hname ▸ hat)⟩)
    (List.mem_filter.mpr ⟨hS, decide_eq_true hat⟩) hname

/-- The generated names of a type are numbered up to the next number. -/
theorem Consecutive.generatedNames_eq (hc : d.Consecutive) (hn : d.Named) (hw : d.arena.WellFormed)
    (ht : d.arena.Tidy) (type : Text) :
    generatedNames type d.sheet.outline =
      (List.range (d.nextNumber type)).map (generatedName type) := by
  have hfind := find?_groups hw ht type
  unfold Sheet.outline
  rw [Sheet.generatedNames_groups (nodup_types hn hw ht), hfind, nextNumber]
  cases hg : d.arena.childNamed? 1 type with
  | none => rfl
  | some g =>
    rw [hg] at hfind
    have htype : (d.arena.sheetGroup g).type = type := by simpa using List.find?_some hfind
    show (d.arena.sheetGroup g).generated = _
    rw [hc.generated _ (List.mem_of_find?_eq_some hfind), htype]
    rfl

/-! ### Numbers are kept -/

/-- **Numbers are kept**: generated names are the same after a reload. -/
structure NumbersKept (d : Document) : Prop where
  /-- The sections of a type without a name are numbered from zero, in their order. -/
  numbered : ∃ os, d.outline = os.map .ok ∧ ∀ type, generatedNames type os =
    (List.range (generatedNames type os).length).map (generatedName type)
  /-- What is written of the document is read again as it was, generated names included. -/
  reloaded : ∃ d', parse d.print = .ok d' ∧ d'.package = d.package ∧ d'.outline = d.outline
  /-- A new section without a name gets the next number, which is printed; after a reload the
  printed name leads to a section without entries, the last one of its type. -/
  added : ∀ type, Syntax.isWord type = true → ∃ os name d₁ d₂ s front back,
    d.outline = os.map .ok ∧ name = generatedName type (generatedNames type os).length ∧
    (Change.add type none).edit.run d = (.ok (name ++ ['\n']), d₁) ∧ parse d₁.print = .ok d₂ ∧
    d₂.find (some name) none = .ok s ∧ d₂.sectionType s = .ok type ∧ d₂.below s = .ok [] ∧
    d₂.sections = front ++ s :: back ∧ ∀ x ∈ back, d₂.sectionType x ≠ .ok type

/-- A section of any type can be added without a name. -/
private theorem exists_addSection {type : Text} (hword : Syntax.isWord type = true) :
    ∃ s d₁, d.Accepts (.addSection root type none) (some s) d₁ := by
  cases hg : d.arena.childNamed? 1 type with
  | none => exact ⟨_, _, .addSectionAndGroup (Or.inl rfl) hword nofun hg⟩
  | some g => exact ⟨_, _, .addSection (Or.inl rfl) hword nofun hg nofun⟩

/-- A new section without a name, as it is on the sheet and in the answer. -/
private theorem run_add (hw : d.arena.WellFormed) (ht : d.arena.Tidy) {type : Text}
    (hword : Syntax.isWord type = true) :
    ∃ s d₁, d.Accepts (.addSection root type none) (some s) d₁ ∧
      (Change.add type none).edit.run d =
        (.ok (generatedName type (d.nextNumber type) ++ ['\n']), d₁) ∧
      ∃ G ∈ d₁.sheet.groups, G.type = type ∧ ∃ front,
        G.sections = front ++ [⟨s, generatedName type (d.nextNumber type), []⟩] := by
  obtain ⟨s, d₁, hacc⟩ := exists_addSection (d := d) hword
  have hissued : d.OnIssued (.addSection root type none) :=
    onIssued_of_target rfl (issued_of_kind hw.kind_root (by decide))
  have hsheet := hacc.sheet hw ht hissued rfl
  have hanswer := Option.some.inj (hacc.answer hw ht)
  obtain ⟨G, hG, htype, front, hsections⟩ := d.sheet.exists_last_addSection d.allocated type
    (generatedName type (d.nextNumber type))
  rw [← hanswer] at hsections
  have hG₁ : G ∈ d₁.sheet.groups := by
    rw [hsheet]
    exact hG
  refine ⟨s, d₁, hacc, ?_, G, hG₁, htype, front, hsections⟩
  have hlast : (⟨s, generatedName type (d.nextNumber type), []⟩ : Sheet.Section) ∈ G.sections := by
    rw [hsections]
    exact List.mem_append_right _ (List.mem_singleton_self _)
  obtain ⟨hname, -, -⟩ := section_of_sheet (hacc.wellFormed hw) (hacc.tidy hw ht hissued) hG₁ hlast
  have hadd : (addSection root type none).run d = (.ok s, d₁) :=
    ((Operation.addSection root type none).run_eq_ok_iff_of_edit hw rfl
      fun _ _ => Option.some.inj).mpr hacc
  show Edit.run (addAndName type none >>= fun given => pure (given ++ ['\n'])) d = _
  refine Edit.run_bind_eq_ok_iff.mpr ⟨_, _, ?_, rfl⟩
  exact Edit.run_bind_eq_ok_iff.mpr ⟨s, d₁, hadd, Edit.run_read_eq_ok_iff.mpr ⟨hname, rfl⟩⟩

/-- The last section of its type, if its name was generated, is found by that name. -/
private theorem Consecutive.find_last (hc : d.Consecutive) (hn : d.Named) (hw : d.arena.WellFormed)
    (ht : d.arena.Tidy) (hG : G ∈ d.sheet.groups) {secs : List Sheet.Section}
    (hsections : G.sections = secs ++ [S]) (hat : S.name.head? = some '@') :
    d.find (some S.name) none = .ok S.handle ∧ ∃ front back,
      d.sections = front ++ S.handle :: back ∧ ∀ x ∈ back, d.sectionType x ≠ .ok G.type := by
  have hapart := nodup_types hn hw ht
  have hS : S ∈ G.sections := hsections ▸ List.mem_append_right _ (List.mem_singleton_self S)
  constructor
  · have hall : S ∈ d.sheet.groups.flatMap (·.sections) := List.mem_flatMap.mpr ⟨G, hG, hS⟩
    obtain ⟨S', hS'⟩ : ∃ S', (d.sheet.groups.flatMap (·.sections)).find? (·.name = S.name) =
        some S' := Option.isSome_iff_exists.mp
      (List.find?_isSome.mpr ⟨S, hall, decide_eq_true rfl⟩)
    obtain ⟨G', hG', hmem⟩ := List.mem_flatMap.mp (List.mem_of_find?_eq_some hS')
    have hname : S'.name = S.name := by simpa using List.find?_some hS'
    rw [hc.section_unique hapart hG hG' hS hmem hname hat] at hS'
    rw [find_eq_sheet hw ht, Sheet.find, Sheet.sectionNamed, hS']
    rfl
  · obtain ⟨before, behind, hgroups⟩ := List.append_of_mem hG
    refine ⟨before.flatMap (·.sections.map (·.handle)) ++ secs.map (·.handle),
      behind.flatMap (·.sections.map (·.handle)), ?_, fun x hx htype => ?_⟩
    · rw [sections_eq_sheet hw, Sheet.sections, hgroups]
      simp [hsections]
    · -- behind its group stand sections of other types
      obtain ⟨H, hH, hx⟩ := List.mem_flatMap.mp hx
      obtain ⟨T, hT, rfl⟩ := List.mem_map.mp hx
      have hmem : H ∈ d.sheet.groups := by
        rw [hgroups]
        exact List.mem_append_right _ (List.mem_cons_of_mem _ hH)
      have hsame := (section_of_sheet hw ht hmem hT).2.1.symm.trans htype
      rw [hgroups, List.map_append, List.map_cons, List.nodup_middle, List.nodup_cons] at hapart
      refine hapart.1 (List.mem_append_right _ (List.mem_map.mpr ⟨H, hH, Except.ok.inj hsame⟩))

/-- A section that was added without a name is found after a reload by the name that was
printed. -/
private theorem Consecutive.added (hc : d.Consecutive) (hb : d.Built OnIssued) {type : Text}
    (hword : Syntax.isWord type = true) : ∃ name d₁ d₂ s front back,
      name = generatedName type (d.nextNumber type) ∧
      (Change.add type none).edit.run d = (.ok (name ++ ['\n']), d₁) ∧ parse d₁.print = .ok d₂ ∧
      d₂.find (some name) none = .ok s ∧ d₂.sectionType s = .ok type ∧ d₂.below s = .ok [] ∧
      d₂.sections = front ++ s :: back ∧ ∀ x ∈ back, d₂.sectionType x ≠ .ok type := by
  have hw := hb.wellFormed
  have ht := hb.tidy fun _ _ hop => hop
  obtain ⟨s₁, d₁, hacc, hrun, G₁, hG₁, rfl, secs₁, hsections₁⟩ := run_add hw ht hword
  have hreplay : d.OnReplay (.addSection root G₁.type none) :=
    ⟨onIssued_of_target rfl (issued_of_kind hw.kind_root (by decide)), rfl⟩
  have hb₁ : d₁.Built OnIssued := by
    have hchange := hb.change (.add G₁.type none)
    rwa [hrun] at hchange
  obtain ⟨d₂, hparse, -, hgroups⟩ := (hacc.consecutive hw ht hc hreplay).reload hb₁
  have hb₂ := replayed_of_parse hparse
  have hw₂ := hb₂.wellFormed
  have ht₂ := hb₂.tidy fun _ _ hop => hop.1
  have hn₂ : d₂.Named := (hb₂.mono fun _ _ hop => hop.1).named
  -- the group says after the reload what it said before
  obtain ⟨G₂, hG₂, houtline⟩ : ∃ G₂ ∈ d₂.sheet.groups, G₂.outline = G₁.outline :=
    List.mem_map.mp (hgroups ▸ List.mem_map_of_mem hG₁)
  obtain ⟨htype, hsections⟩ := Prod.mk.inj houtline
  change G₂.type = G₁.type at htype
  rw [hsections₁, List.map_append, List.map_eq_append_iff] at hsections
  obtain ⟨secs₂, last, hsections₂, -, hlast⟩ := hsections
  obtain ⟨S, rfl, hS⟩ := List.map_eq_singleton_iff.mp hlast
  have hname : S.name = generatedName G₁.type (d.nextNumber G₁.type) :=
    congrArg SectionOutline.name hS
  have hentries : S.entries = [] := List.map_eq_nil_iff.mp (congrArg SectionOutline.entries hS)
  have hmem : S ∈ G₂.sections := hsections₂ ▸ List.mem_append_right _ (List.mem_singleton_self S)
  obtain ⟨-, hsectionType, hbelow⟩ := section_of_sheet hw₂ ht₂ hG₂ hmem
  obtain ⟨hfind, front, back, hsplit, hback⟩ := (consecutive_of_parse hparse).find_last hn₂ hw₂ ht₂
    hG₂ hsections₂ (by rw [hname]; exact generatedName_head _ _)
  rw [hentries] at hbelow
  rw [htype] at hsectionType hback
  rw [hname] at hfind
  exact ⟨_, d₁, d₂, S.handle, front, back, rfl, hrun, hparse, hfind, hsectionType, hbelow, hsplit,
    hback⟩

/-- **Numbers are kept.**  In a document that was read, the sections without a name are numbered
by their place among those of their type; they are so again after a reload, and a section that is
added is then found under the number that was printed. -/
theorem numbersKept_of_parse {source : Text} (h : parse source = .ok d) : d.NumbersKept := by
  have hc := consecutive_of_parse h
  have hb : d.Built OnIssued := (replayed_of_parse h).mono fun _ _ hop => hop.1
  have hw := hb.wellFormed
  have ht := hb.tidy fun _ _ hop => hop
  have houtline := outline_eq_sheet hw ht
  have hnames := hc.generatedNames_eq hb.named hw ht
  have hlength : ∀ type, (generatedNames type d.sheet.outline).length = d.nextNumber type := by
    intro type
    rw [hnames, List.length_map, List.length_range]
  refine ⟨⟨_, houtline, fun type => ?_⟩, ?_, fun type hword => ?_⟩
  · rw [hlength, hnames]
  · obtain ⟨d', hparse, hpackage, hgroups⟩ := hc.reload hb
    have hb' := replayed_of_parse hparse
    refine ⟨d', hparse, hpackage, ?_⟩
    rw [outline_eq_sheet hb'.wellFormed (hb'.tidy fun _ _ hop => hop.1), houtline,
      Sheet.outline_eq, Sheet.outline_eq, hgroups]
  · obtain ⟨name, d₁, d₂, s, front, back, hname, hadded⟩ := hc.added hb hword
    exact ⟨_, name, d₁, d₂, s, front, back, houtline, by rw [hname, hlength], hadded⟩

/-- Sections with and without a name, and a type that looks like part of a generated name. -/
theorem numbersKept_of_bracketedTypes :
    let d := empty.play [.addSection 0 "a".toList none, .addSection 0 "a[0]".toList none,
      .addSection 0 "a".toList (some "x".toList), .addSection 0 "a".toList none]
    parse "config a\nconfig a[0]\nconfig a x\nconfig a".toList = .ok d ∧ d.NumbersKept := by
  intro d
  have hparse : parse "config a\nconfig a[0]\nconfig a x\nconfig a".toList = .ok d := by
    decide +kernel
  exact ⟨hparse, numbersKept_of_parse hparse⟩

end Document

end Uci
