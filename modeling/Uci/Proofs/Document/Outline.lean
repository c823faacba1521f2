import Uci.Command.Listing
import Uci.Proofs.Document.Addressing

/-!
# Lookups on an outline

An outline has no handles, and yet it settles what a lookup by path comes to: which section is the
first one on the path, and what an option of that section holds.  So two documents with the same
outline answer alike, whatever handles their nodes have.

## Main definitions

* `SplitsAt` — an outline around the first section on a path.

## Main results

* `splitsAt_of_firstOnPath`, `firstOnPath_of_splitsAt` — the first section on a path, in a document
  and on its outline.
* `get_of_splitsAt` — **the value of an option** can be told from the outline.
-/

namespace Uci

/-- **An outline around the first section on a path**: the section with the shortest name that
the path begins with, up to a dot, and the first one of that name.  The path goes on with `n`. -/
structure SplitsAt (os : List SectionOutline) (path n : Text) (front : List SectionOutline)
    (x : SectionOutline) (back : List SectionOutline) : Prop where
  split : os = front ++ x :: back
  path_eq : x.name ++ '.' :: n = path
  first : ∀ y ∈ front, y.name ≠ x.name
  shortest : ∀ y ∈ os, ∀ r, y.name ++ '.' :: r = path → x.name.length ≤ y.name.length

/-- Only names tell which section it is. -/
theorem SplitsAt.replace {os front back : List SectionOutline} {path n : Text}
    {x : SectionOutline} (h : SplitsAt os path n front x back) {y : SectionOutline}
    (hname : y.name = x.name) : SplitsAt (front ++ y :: back) path n front y back where
  split := rfl
  path_eq := hname ▸ h.path_eq
  first := hname ▸ h.first
  shortest z hz r hr := by
    rw [hname]
    rcases List.mem_append.mp hz with hz | hz
    · exact h.shortest z (h.split ▸ List.mem_append_left _ hz) r hr
    rcases List.mem_cons.mp hz with rfl | hz
    · exact Nat.le_of_eq (congrArg List.length hname.symm)
    · exact h.shortest z (h.split ▸ List.mem_append_right _ (List.mem_cons_of_mem _ hz)) r hr

namespace Sheet

/-- The sections of a sheet, each with its group. -/
def rows (S : Sheet) : List (Group × Section) :=
  S.groups.flatMap fun g => g.sections.map fun s => (g, s)

theorem outline_rows (S : Sheet) : S.outline = S.rows.map fun r => r.2.outline r.1.type := by
  unfold outline rows
  rw [List.map_flatMap]
  apply List.flatMap_congr
  intro g _
  rw [List.map_map]
  rfl

theorem sections_rows (S : Sheet) : S.groups.flatMap (·.sections) = S.rows.map Prod.snd := by
  unfold rows
  rw [List.map_flatMap]
  apply List.flatMap_congr
  intro g _
  rw [List.map_map]
  exact (List.map_id _).symm

theorem mem_rows_iff {S : Sheet} {g : Group} {s : Section} :
    (g, s) ∈ S.rows ↔ g ∈ S.groups ∧ s ∈ g.sections := by
  simp [rows]

end Sheet

namespace Document

variable {d : Document} {path o n v : Text} {s : Handle} {front back : List SectionOutline}
  {x : SectionOutline}

section

variable (hw : d.arena.WellFormed) (ht : d.arena.Tidy)
include hw ht

/-- **The first section of a name**, on the sheet. -/
theorem find_section_eq_ok_iff : d.find (some o) none = .ok s ↔
    ∃ before g S behind, d.sheet.rows = before ++ (g, S) :: behind ∧ S.handle = s ∧ S.name = o ∧
      ∀ r ∈ before, r.2.name ≠ o := by
  rw [find_eq_sheet hw ht, Sheet.find, map_eq_ok_iff, Sheet.sectionNamed, Sheet.sections_rows,
    List.find?_map]
  constructor
  · rintro ⟨S, hS, rfl⟩
    split at hS
    · next T hT =>
      cases hS
      obtain ⟨⟨g, S⟩, hfind, rfl⟩ := Option.map_eq_some_iff.mp hT
      obtain ⟨hname, before, behind, hsplit, hbefore⟩ := List.find?_eq_some_iff_append.mp hfind
      exact ⟨before, g, S, behind, hsplit, rfl, of_decide_eq_true hname,
        fun r hr => by simpa using hbefore r hr⟩
    · cases hS
  · rintro ⟨before, g, S, behind, hsplit, rfl, rfl, hbefore⟩
    have hfind : d.sheet.rows.find? ((fun s : Sheet.Section => decide (s.name = S.name)) ∘ Prod.snd) =
        some (g, S) := List.find?_eq_some_iff_append.mpr
      ⟨decide_eq_true rfl, before, behind, hsplit, fun r hr => by simpa using hbefore r hr⟩
    rw [hfind]
    exact ⟨S, rfl, rfl⟩

/-- No section has the name, in the document and on the outline. -/
theorem noSection_iff_outline : d.NoSection o ↔ ∀ x ∈ d.sheet.outline, x.name ≠ o := by
  rw [noSection_iff hw ht, Sheet.outline_rows]
  constructor
  · intro hno _ hx hname
    obtain ⟨r, hr, rfl⟩ := List.mem_map.mp hx
    have hsome : (d.sheet.rows.find? (·.2.name = o)).isSome :=
      List.find?_isSome.mpr ⟨r, hr, decide_eq_true hname⟩
    obtain ⟨⟨g, S⟩, hfind⟩ := Option.isSome_iff_exists.mp hsome
    obtain ⟨hname, before, behind, hsplit, hbefore⟩ := List.find?_eq_some_iff_append.mp hfind
    exact hno S.handle ((find_section_eq_ok_iff hw ht).mpr ⟨before, g, S, behind, hsplit, rfl,
      of_decide_eq_true hname, fun r hr => by simpa using hbefore r hr⟩)
  · intro hno s hs
    obtain ⟨before, g, S, behind, hsplit, -, hname, -⟩ := (find_section_eq_ok_iff hw ht).mp hs
    refine hno _ (List.mem_map_of_mem (a := (g, S)) ?_) hname
    rw [hsplit]
    exact List.mem_append_right _ (List.mem_cons_self ..)

/-- The first section on a path is the first one on the outline. -/
theorem splitsAt_of_firstOnPath (h : d.FirstOnPath path o s n) :
    ∃ before g S behind, d.sheet.rows = before ++ (g, S) :: behind ∧ S.handle = s ∧ S.name = o ∧
      SplitsAt d.sheet.outline path n (before.map fun r => r.2.outline r.1.type)
        (S.outline g.type) (behind.map fun r => r.2.outline r.1.type) := by
  obtain ⟨before, g, S, behind, hsplit, hhandle, rfl, hbefore⟩ :=
    (find_section_eq_ok_iff hw ht).mp h.found
  refine ⟨before, g, S, behind, hsplit, hhandle, rfl, ?_, h.path_eq, ?_, fun y hy r hr => ?_⟩
  · rw [Sheet.outline_rows, hsplit, List.map_append, List.map_cons]
  · intro y hy
    obtain ⟨r, hr, rfl⟩ := List.mem_map.mp hy
    exact hbefore r hr
  · -- a shorter name that a section has would have come first
    by_contra hlt
    exact (noSection_iff_outline hw ht).mp (h.shortest y.name r hr (Nat.not_le.mp hlt)) y hy rfl

theorem firstOnPath_of_splitsAt (h : SplitsAt d.sheet.outline path n front x back) :
    ∃ g S, g ∈ d.sheet.groups ∧ S ∈ g.sections ∧ S.outline g.type = x ∧
      d.FirstOnPath path x.name S.handle n := by
  have hsplit := h.split
  rw [Sheet.outline_rows, List.map_eq_append_iff] at hsplit
  obtain ⟨before, rest, hrows, rfl, hrest⟩ := hsplit
  obtain ⟨⟨g, S⟩, behind, rfl, hx, -⟩ := List.map_eq_cons_iff.mp hrest
  have hname : S.name = x.name := congrArg SectionOutline.name hx
  have hmem : (g, S) ∈ d.sheet.rows := by
    rw [hrows]
    exact List.mem_append_right _ (List.mem_cons_self ..)
  obtain ⟨hg, hS⟩ := Sheet.mem_rows_iff.mp hmem
  refine ⟨g, S, hg, hS, hx, h.path_eq, ?_, fun o' r' hpath hlt => ?_⟩
  · refine (find_section_eq_ok_iff hw ht).mpr ⟨before, g, S, behind, hrows, rfl, hname, ?_⟩
    intro r hr
    exact h.first _ (List.mem_map_of_mem hr)
  · refine (noSection_iff_outline hw ht).mpr fun y hy hname' => ?_
    have hle := h.shortest y hy r' (hname' ▸ hpath)
    rw [hname'] at hle
    exact absurd hlt (Nat.not_lt.mpr hle)

end

/-- An option of a section, as it is asked for. -/
private theorem option_of_sheet (hw : d.arena.WellFormed) (ht : d.arena.Tidy) {g : Sheet.Group}
    {S : Sheet.Section} {e : Sheet.Entry} (hg : g ∈ d.sheet.groups) (hS : S ∈ g.sections)
    (he : e ∈ S.entries) (houtline : e.outline = .option n v) :
    d.IsEntry S.handle e.handle n ∧ d.role e.handle = .ok .option ∧
      d.optionValue e.handle = .ok v := by
  obtain ⟨x, hx, rfl⟩ := List.mem_map.mp hg
  obtain ⟨s, hs, rfl⟩ := List.mem_map.mp hS
  obtain ⟨y, hy, rfl⟩ := List.mem_map.mp he
  have hks := hw.kind?_of_mem_sections ht (hw.kind?_of_mem_groups hx) hs
  have hpar := hw.mem_liveChildren_iff.mp hy
  have hlive := (hw.isLive_of_parent hpar).trans (isLive_of_mem_sections hw hx hs).2
  have hsays := outlineEntry?_eq hw ht hlive (hw.kind?_of_mem_entries hks hy)
  rw [houtline, outlineEntry?] at hsays
  obtain ⟨role, hrole, hsays⟩ := bind_eq_ok_iff.mp hsays
  -- only an option says that it is one
  cases role with
  | option =>
    obtain ⟨m, hname, hsays⟩ := bind_eq_ok_iff.mp hsays
    obtain ⟨w, hvalue, hsays⟩ := bind_eq_ok_iff.mp hsays
    cases hsays
    exact ⟨⟨hpar, Or.inl hname⟩, hrole, hvalue⟩
  | list =>
    obtain ⟨m, -, hsays⟩ := bind_eq_ok_iff.mp hsays
    obtain ⟨ws, -, hsays⟩ := bind_eq_ok_iff.mp hsays
    cases hsays
  | _ => cases hsays

/-- **The value of an option**, told from the outline. -/
theorem get_of_splitsAt (hb : d.Built OnIssued) (hcheck : checkPath path = .ok ())
    (hno : ∀ y ∈ d.sheet.outline, y.name ≠ path)
    (h : SplitsAt d.sheet.outline path n front x back) (hx : .option n v ∈ x.entries) :
    d.get path = .ok (v ++ ['\n']) := by
  have hw := hb.wellFormed
  have ht := hb.tidy fun _ _ hop => hop
  obtain ⟨-, -, hexclusive⟩ := (hb.mono fun _ _ _ => trivial).names
  obtain ⟨g, S, hg, hS, rfl, hfirst⟩ := firstOnPath_of_splitsAt hw ht h
  obtain ⟨e, he, houtline⟩ := List.mem_map.mp hx
  obtain ⟨hentry, hrole, hvalue⟩ := option_of_sheet hw ht hg hS he houtline
  have hquery := query_of_firstOnPath hw ht hexclusive hcheck hfirst hentry
    ((noSection_iff_outline hw ht).mpr hno)
  rw [get, hquery]
  dsimp only [bind, Except.bind]
  rw [hrole]
  dsimp only
  rw [hvalue]
  rfl

end Document

end Uci
