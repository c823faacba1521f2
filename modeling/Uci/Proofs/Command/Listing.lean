import Uci.Proofs.Document.Outline
import Uci.Proofs.Document.Walking

/-!
# Listings and their parts

A document is listed as a whole, or from the node on that a path leads to.  The whole is made
section by section while the document is walked through; the line of a single entry is made
another way, by looking for the section that holds it.  Both come to the same lines, so that a
part is what the whole listing has in its place.

## Main definitions

* `EntryOutline.line`, `SectionOutline.header`, `SectionOutline.block`, `listing` — the lines of
  an entry, of a section, and of sections one after the other, told from what they say.
* `Document.PartOf` — the part of a listing that belongs to a node, with what stands in front
  of it and behind it.
* `Document.ListsInParts` — what a document lists as a whole, and for a path.

## Main results

* `listSection_of_outline` — the lines of a section are told from what it says.
* `sectionAround_eq` — the section that is found around an entry is the one that holds it.
* `listsInParts_of_reachable` — **every listing is the part of the whole that belongs to its
  node**.
-/

namespace Uci

/-! ### Lines -/

/-- **The line of an entry**, behind the label of its section. -/
def EntryOutline.line (label : Text) : EntryOutline → Text
  | .option name value => label ++ '.' :: name ++ '=' :: shellQuote value ++ ['\n']
  | .list name values => label ++ '.' :: name ++ '=' :: spaced (values.map shellQuote) ++ ['\n']

namespace SectionOutline

/-- A section is labelled by the configuration and its name. -/
def label (config : Text) (x : SectionOutline) : Text := config ++ '.' :: x.name

/-- The line of a section itself. -/
def header (config : Text) (x : SectionOutline) : Text := x.label config ++ '=' :: x.type ++ ['\n']

/-- The lines of entries of a section. -/
def lines (config : Text) (x : SectionOutline) (es : List EntryOutline) : Text :=
  es.flatMap (·.line (x.label config))

/-- **The lines of a section**: its own, and one for each entry. -/
def block (config : Text) (x : SectionOutline) : Text := x.header config ++ x.lines config x.entries

end SectionOutline

/-- **The lines of sections**, one section after the other. -/
def listing (config : Text) (xs : List SectionOutline) : Text := xs.flatMap (·.block config)

namespace Document

variable {d : Document} {config label path : Text} {h s e : Handle} {x : SectionOutline}

/-! ### What is listed is what is said -/

/-- An entry is listed by what it says, and a node that says nothing is not listed. -/
theorem listEntry_of_outline {o : Option EntryOutline} (ho : d.outlineEntry? h = .ok o) :
    d.listEntry label h = .ok (o.elim [] (·.line label)) := by
  unfold outlineEntry? at ho
  obtain ⟨role, hrole, ho⟩ := bind_eq_ok_iff.mp ho
  rw [listEntry, hrole]
  cases role with
  | option =>
    obtain ⟨name, hname, ho⟩ := bind_eq_ok_iff.mp ho
    obtain ⟨value, hvalue, ho⟩ := bind_eq_ok_iff.mp ho
    cases ho
    dsimp only [bind, Except.bind]
    rw [hname, hvalue]
    rfl
  | list =>
    obtain ⟨name, hname, ho⟩ := bind_eq_ok_iff.mp ho
    obtain ⟨values, hvalues, ho⟩ := bind_eq_ok_iff.mp ho
    cases ho
    dsimp only [bind, Except.bind]
    rw [hname, hvalues]
    rfl
  | _ =>
    cases ho
    rfl

/-- A list is listed node by node as it is said node by node. -/
private theorem mapM_of_outlines {hs : List Handle} {os : List (Option EntryOutline)}
    (hos : hs.mapM d.outlineEntry? = .ok os) :
    hs.mapM (d.listEntry label) = .ok (os.map fun o => o.elim [] (·.line label)) := by
  induction hs generalizing os with
  | nil =>
    cases hos
    rfl
  | cons h hs ih =>
    rw [List.mapM_cons] at hos
    obtain ⟨o, ho, hos⟩ := bind_eq_ok_iff.mp hos
    obtain ⟨os', hos', hos⟩ := bind_eq_ok_iff.mp hos
    cases hos
    rw [List.mapM_cons, listEntry_of_outline ho, ih hos']
    rfl

/-- The lines of the entries, with those passed over that have none. -/
private theorem flatten_lines (os : List (Option EntryOutline)) :
    (os.map fun o => o.elim [] (EntryOutline.line label)).flatten =
      (os.filterMap id).flatMap (EntryOutline.line label) := by
  induction os with
  | nil => rfl
  | cons o os ih =>
    cases o with
    | none => exact ih
    | some e => exact congrArg (e.line label ++ ·) ih

/-- **The lines of a section are told from what it says.** -/
theorem listSection_of_outline (hx : d.outlineSection s = .ok x) :
    d.listSection config s = .ok (x.block config) := by
  unfold outlineSection at hx
  obtain ⟨es, hes, hx⟩ := bind_eq_ok_iff.mp hx
  obtain ⟨type, htype, hx⟩ := bind_eq_ok_iff.mp hx
  obtain ⟨name, hname, hx⟩ := bind_eq_ok_iff.mp hx
  obtain ⟨hs, hbelow, hes⟩ := bind_eq_ok_iff.mp hes
  obtain ⟨os, hos, hes⟩ := bind_eq_ok_iff.mp hes
  cases hx
  cases hes
  have hlabel : d.sectionLabel config s = .ok (config ++ '.' :: name) := by
    rw [sectionLabel, hname]
    rfl
  rw [listSection, hlabel, htype, hbelow]
  dsimp only [bind, Except.bind]
  rw [mapM_of_outlines hos]
  dsimp only
  rw [flatten_lines]
  simp [SectionOutline.block, SectionOutline.header, SectionOutline.lines, SectionOutline.label,
    pure, Except.pure]

/-- A document that can be read throughout is listed by what it says. -/
theorem listAll_of_outline {xs : List SectionOutline} (hxs : d.outline = xs.map .ok) :
    d.listAll config = .ok (listing config xs) := by
  have hblocks : ∀ {l : List Handle} {xs : List SectionOutline},
      l.map d.outlineSection = xs.map .ok →
        l.mapM (d.listSection config) = .ok (xs.map (·.block config)) := by
    intro l
    induction l with
    | nil =>
      intro xs hxs
      rw [List.map_eq_nil_iff.mp hxs.symm]
      rfl
    | cons s l ih =>
      intro xs hxs
      obtain ⟨x, xs', rfl, hx, hxs'⟩ := List.map_eq_cons_iff.mp hxs.symm
      rw [List.mapM_cons, listSection_of_outline hx.symm, ih hxs'.symm]
      rfl
  rw [listAll, hblocks hxs]
  rfl

/-! ### The parts of a listing -/

/-- The lines of the rows of a sheet. -/
def rowsListing (config : Text) (rows : List (Sheet.Group × Sheet.Section)) : Text :=
  listing config (rows.map fun r => r.2.outline r.1.type)

/-- **The part of the whole listing that belongs to a node**, between what stands in front of it
and what stands behind it: all of it for the configuration, a block for a section, and a line
for an entry. -/
inductive PartOf (d : Document) (config : Text) : Handle → Text → Text → Text → Prop
  | whole : PartOf d config 1 [] (listing config d.sheet.outline) []
  | section {before behind : List (Sheet.Group × Sheet.Section)} {g : Sheet.Group}
    {S : Sheet.Section} :
    d.sheet.rows = before ++ (g, S) :: behind →
    PartOf d config S.handle (rowsListing config before) ((S.outline g.type).block config)
      (rowsListing config behind)
  /-- The line bears the name of the section that holds the entry. -/
  | entry {before behind : List (Sheet.Group × Sheet.Section)} {g : Sheet.Group}
    {S : Sheet.Section} {above below : List Sheet.Entry} {E : Sheet.Entry} :
    d.sheet.rows = before ++ (g, S) :: behind → S.entries = above ++ E :: below →
    PartOf d config E.handle
      (rowsListing config before ++ (S.outline g.type).header config ++
        (S.outline g.type).lines config (above.map (·.outline)))
      (E.outline.line ((S.outline g.type).label config))
      ((S.outline g.type).lines config (below.map (·.outline)) ++ rowsListing config behind)

theorem rowsListing_split {rows before behind : List (Sheet.Group × Sheet.Section)}
    {g : Sheet.Group} {S : Sheet.Section} (h : rows = before ++ (g, S) :: behind) :
    rowsListing config rows = rowsListing config before ++ (S.outline g.type).block config ++
      rowsListing config behind := by
  rw [h]
  simp [rowsListing, listing]

/-- **A part stands in the whole listing** as it is, in one piece. -/
theorem PartOf.append {front part back : Text} (hp : d.PartOf config h front part back) :
    front ++ part ++ back = listing config d.sheet.outline := by
  rw [Sheet.outline_rows]
  cases hp with
  | whole => rw [Sheet.outline_rows, List.nil_append, List.append_nil]
  | «section» hrows => exact (rowsListing_split hrows).symm
  | entry hrows hentries =>
    refine Eq.trans ?_ (rowsListing_split hrows).symm
    rw [SectionOutline.block, Sheet.Section.outline, hentries]
    simp [SectionOutline.lines]

section

variable (hw : d.arena.WellFormed) (ht : d.arena.Tidy)
include hw ht

omit ht in
/-- The sections of the document, as the rows of its sheet have them. -/
theorem sections_of_rows : d.sections = d.sheet.rows.map (·.2.handle) := by
  rw [sections_eq_sheet hw, Sheet.sections, Sheet.rows, List.map_flatMap]
  exact List.flatMap_congr fun g _ => by rw [List.map_map]; rfl

/-- What a row of the sheet says is what its section says. -/
theorem outlineSection_of_row {g : Sheet.Group} {S : Sheet.Section} (hr : (g, S) ∈ d.sheet.rows) :
    d.outlineSection S.handle = .ok (S.outline g.type) := by
  have houtline := outline_eq_sheet hw ht
  rw [outline, sections_of_rows hw, Sheet.outline_rows, List.map_map, List.map_map] at houtline
  exact List.map_inj_left.mp houtline (g, S) hr

omit ht in
/-- A section on the sheet is one of the document. -/
theorem exists_section_of_row {g : Sheet.Group} {S : Sheet.Section} (hr : (g, S) ∈ d.sheet.rows) :
    ∃ s ∈ d.sections, S = d.arena.sheetSection s := by
  obtain ⟨hg, hS⟩ := Sheet.mem_rows_iff.mp hr
  obtain ⟨x, hx, rfl⟩ := List.mem_map.mp hg
  obtain ⟨s, hs, rfl⟩ := List.mem_map.mp hS
  rw [sections_eq hw]
  exact ⟨s, List.mem_flatMap.mpr ⟨x, hx, hs⟩, rfl⟩

/-- **The section that is found around an entry is the one that holds it.** -/
theorem sectionAround_eq (hs : s ∈ d.sections) (he : e ∈ d.arena.liveChildren s) :
    d.sectionAround e = .ok s := by
  have hbelow : ∀ y ∈ d.sections, (do let entries ← d.below y; return entries.contains e) =
      Except.ok (ε := Refusal) ((d.arena.liveChildren y).contains e) := by
    intro y hy
    obtain ⟨hlive, hk⟩ := (mem_sections_iff hw ht).mp hy
    rw [below_children hlive (Or.inl hk)]
    rfl
  -- the entry hangs below one section only, so the search cannot end at another one before
  have hfind : d.sections.find? (fun y => (d.arena.liveChildren y).contains e) = some s := by
    have hsome : (d.sections.find? fun y => (d.arena.liveChildren y).contains e).isSome :=
      List.find?_isSome.mpr ⟨s, hs, List.contains_iff_mem.mpr he⟩
    obtain ⟨y, hy⟩ := Option.isSome_iff_exists.mp hsome
    have hcontains : (d.arena.liveChildren y).contains e = true := by simpa using List.find?_some hy
    have hye : e ∈ d.arena.liveChildren y := List.contains_iff_mem.mp hcontains
    have hparent : some y = some s :=
      (hw.mem_liveChildren_iff.mp hye).symm.trans (hw.mem_liveChildren_iff.mp he)
    rw [hy, hparent]
  rw [sectionAround, findM?_eq hbelow, hfind]
  rfl

/-- A path leads to the configuration, to a section or to an entry of a section. -/
theorem cases_of_query (hx : d.arena.Exclusive) (hq : d.query path = .ok h) :
    h = 1 ∨ (∃ o, d.find (some o) none = .ok h) ∨
      ∃ o s n, d.find (some o) none = .ok s ∧ d.IsEntry s h n := by
  by_cases hempty : path.isEmpty
  · rw [query, if_pos hempty, find, configuration_eq hw] at hq
    cases hq
    exact Or.inl rfl
  · have hcheck : checkPath path = .ok () := by
      rw [query, if_neg hempty] at hq
      obtain ⟨⟨⟩, hcheck, -⟩ := bind_eq_ok_iff.mp hq
      exact hcheck
    rcases (query_eq_ok_iff hw ht hcheck).mp hq with hfind | ⟨-, o, n, -, hfind, -⟩
    · exact Or.inr (Or.inl ⟨path, hfind⟩)
    · obtain ⟨s, hs, hentry⟩ := (find_entry_eq_ok_iff hw ht hx).mp hfind
      exact Or.inr (Or.inr ⟨o, s, n, hs, hentry⟩)

/-- The listing for a path that leads to the configuration. -/
private theorem list_config (hq : d.query path = .ok 1) :
    ∃ front part back, d.PartOf config 1 front part back ∧
      d.list config (some path) = .ok part := by
  refine ⟨_, _, _, .whole, ?_⟩
  rw [list, hq]
  dsimp only [bind, Except.bind]
  rw [role_of_live hw.isLive_config hw.kind_config]
  exact listAll_of_outline (outline_eq_sheet hw ht)

/-- The listing for a path that leads to a section. -/
private theorem list_section (hq : d.query path = .ok h) {o : Text}
    (hfind : d.find (some o) none = .ok h) :
    ∃ front part back, d.PartOf config h front part back ∧
      d.list config (some path) = .ok part := by
  obtain ⟨before, g, S, behind, hrows, rfl, -, -⟩ := (find_section_eq_ok_iff hw ht).mp hfind
  have hmem : (g, S) ∈ d.sheet.rows := hrows ▸ List.mem_append_right _ List.mem_cons_self
  obtain ⟨hlive, hk, -⟩ := sectionName_eq_ok.mp (sectionName_of_find hw ht hfind)
  refine ⟨_, _, _, .section hrows, ?_⟩
  rw [list, hq]
  dsimp only [bind, Except.bind]
  rw [role_of_live hlive hk]
  exact listSection_of_outline (outlineSection_of_row hw ht hmem)

/-- The listing for a path that leads to an option or a list. -/
private theorem list_entry (hq : d.query path = .ok e) {o n : Text}
    (hfind : d.find (some o) none = .ok s) (hentry : d.IsEntry s e n) :
    ∃ front part back, d.PartOf config e front part back ∧
      d.list config (some path) = .ok part := by
  obtain ⟨before, g, S, behind, hrows, rfl, rfl, -⟩ := (find_section_eq_ok_iff hw ht).mp hfind
  have hmem : (g, S) ∈ d.sheet.rows := hrows ▸ List.mem_append_right _ List.mem_cons_self
  obtain ⟨s, hs, rfl⟩ := exists_section_of_row hw hmem
  have hchild : e ∈ d.arena.liveChildren s := hw.mem_liveChildren_iff.mpr hentry.1
  obtain ⟨hlive, hk, -⟩ := named_entry_iff.mp hentry.2
  obtain ⟨above, below, hsplit⟩ := List.append_of_mem hchild
  have hentries : (d.arena.sheetSection s).entries =
      above.map d.arena.sheetEntry ++ d.arena.sheetEntry e :: below.map d.arena.sheetEntry := by
    rw [Arena.sheetSection, hsplit, List.map_append, List.map_cons]
  refine ⟨_, _, _, .entry hrows hentries, ?_⟩
  -- the line is made with the name of the section that is found around the entry
  have hlist : (do
      let s ← d.sectionAround e
      let label ← d.sectionLabel config s
      d.listEntry label e) = .ok ((d.arena.sheetEntry e).outline.line
        (((d.arena.sheetSection s).outline g.type).label config)) := by
    have hname : d.sectionName s = .ok (d.arena.sheetSection s).name :=
      sectionName_of_find hw ht hfind
    rw [sectionAround_eq hw ht hs hchild]
    dsimp only [bind, Except.bind]
    rw [sectionLabel, hname]
    exact listEntry_of_outline (outlineEntry?_eq hw ht hlive hk)
  rw [list, hq]
  dsimp only [bind, Except.bind]
  rcases hk with hk | hk <;> rw [role_of_live hlive hk] <;> exact hlist

end

/-- **A document lists in parts.** -/
structure ListsInParts (d : Document) (config : Text) : Prop where
  /-- The sheet has the sections in the order of the document, ... -/
  sections : d.sheet.rows.map (·.2.handle) = d.sections
  /-- ... each with the live nodes right below it, the oldest first, ... -/
  entries : ∀ r ∈ d.sheet.rows, r.2.entries.map (·.handle) = d.liveBelow r.2.handle
  /-- ... and it has for each what the readers of the document say. -/
  outline : d.outline = d.sheet.outline.map .ok
  /-- The whole listing: for every section a header, and a line for each entry. -/
  whole : d.list config none = .ok (listing config d.sheet.outline)
  /-- The listing for a path is the part of the whole that belongs to what the path leads to. -/
  part : ∀ path h, d.query path = .ok h → ∃ front part back, d.PartOf config h front part back ∧
    d.list config (some path) = .ok part ∧ d.list config none = .ok (front ++ part ++ back)

/-- **Every listing is a part of the whole one**, whatever the configuration is called: what a
path leads to is listed by the lines that stand in its place there. -/
theorem listsInParts_of_reachable (hd : d.Reachable OnIssued) (config : Text) :
    d.ListsInParts config := by
  have hbuilt : d.Built OnIssued := hd.built fun _ _ h => h.1
  have hw := hbuilt.wellFormed
  have ht := hbuilt.tidy fun _ _ h => h
  have hany : d.Built OnAny := hbuilt.mono fun _ _ _ => trivial
  obtain ⟨-, -, hx⟩ := hany.names
  have hwhole : d.list config none = .ok (listing config d.sheet.outline) :=
    listAll_of_outline (outline_eq_sheet hw ht)
  refine
    { sections := (sections_of_rows hw).symm
      entries := fun r hr => ?_
      outline := outline_eq_sheet hw ht
      whole := hwhole
      part := fun path h hq => ?_ }
  · obtain ⟨g, S⟩ := r
    obtain ⟨s, hs, rfl⟩ := exists_section_of_row hw hr
    obtain ⟨hlive, hk⟩ := (mem_sections_iff hw ht).mp hs
    have hgroup : d.arena.kind? s ≠ some .sectionType := by rw [hk]; nofun
    show ((d.arena.liveChildren s).map d.arena.sheetEntry).map (·.handle) = d.liveBelow s
    rw [liveBelow_eq hw hbuilt.byAge hlive hgroup, List.map_map]
    exact List.map_id _
  · obtain ⟨front, part, back, hpart, hlist⟩ : ∃ front part back,
        d.PartOf config h front part back ∧ d.list config (some path) = .ok part := by
      rcases cases_of_query hw ht hx hq with rfl | ⟨o, hfind⟩ | ⟨o, s, n, hfind, hentry⟩
      · exact list_config hw ht hq
      · exact list_section hw ht hq hfind
      · exact list_entry hw ht hq hfind hentry
    exact ⟨front, part, back, hpart, hlist, by rw [hwhole, hpart.append]⟩

/-- Two sections have one name, and an option of the first was removed: what is left under its
name is a line of the first section still, and none of the second. -/
theorem listsInParts_of_equalNames :
    let d := empty.play [.addSection 0 "rule".toList (some "a".toList),
      .addSection 0 "zone".toList (some "a".toList), .addOption 3 "b".toList "1".toList,
      .addList 3 "c".toList, .addElement 7 "it's".toList, .addElement 7 "2".toList,
      .addOption 5 "b".toList "3".toList, .remove 6]
    d.Reachable OnIssued ∧
      d.list "net".toList (some "a.c".toList) = .ok "net.a.c='it'\\''s' '2'\n".toList ∧
      d.ListsInParts "net".toList := by
  intro d
  have hd : d.Reachable OnIssued := Reachable.play .empty (by decide)
  exact ⟨hd, by decide +kernel, listsInParts_of_reachable hd "net".toList⟩

end Document
end Uci
