import Uci.Proofs.Document.Merging
import Uci.Proofs.Document.Replaying

/-!
# Opening a section

A header opens the section of its type and name again, if there is one; otherwise it adds a
section at the end of the group of its type, which may be a new one.  Either way the section
is one of the sheet, and the lines below the header are about it.

## Main definitions

* `Document.Opens` — what a header does, whatever source it stands in.

## Main results

* `Shows.opens_group`, `Shows.opens_section`, `Shows.opens_again` — the three ways to open a
  section.
* `Shows.opens` — **what a header that can stand opens.**
* `Shows.takesHeader_of_openSection` — no other header opens anything.
-/

namespace Uci

open Syntax (Value Item isWord)

namespace Document

open Arena

variable {d d' : Document} {S : Sheet} {p : Option Text} {gs gs' : List Sheet.Group}
  {g s : Handle} {type : Text} {name : Option Text} {secs secs' : List Sheet.Section}
  {c : Sheet.Context} {os : List EntryOutline}

theorem replayItem_skip (d : Document) (i : Item) (hi : i.statement? = none) :
    replayItem d i = .ok d := by
  cases i with
  | package name =>
    cases name with
    | none => rfl
    | some v => cases hi
  | «section» body =>
    have htype : body.type = none := Option.map_eq_none_iff.mp hi
    show replaySection d body = _
    unfold replaySection
    rw [htype]

/-- A block of a script, with the names and the entries that its source gives it. -/
theorem eq_section_of_statement? {i : Item} {b : Syntax.Block}
    (hi : i.statement? = some (.block b)) :
    ∃ (body : Syntax.Section) (t : Value), i = .section body ∧ body.type = some t ∧
      t.text = b.type ∧ body.name.map Value.text = b.name ∧
      body.entries.filterMap Syntax.Entry.line? = b.lines := by
  cases i with
  | package name =>
    cases name with
    | none => cases hi
    | some v => cases hi
  | «section» body =>
    obtain ⟨t, ht, hb⟩ := Option.map_eq_some_iff.mp hi
    cases hb
    exact ⟨body, t, rfl, ht, rfl, rfl, rfl⟩

/-! ### The section of a name -/

/-- The section of a name, on the sheet and in the arena. -/
private theorem find?_sections (hw : d.arena.WellFormed) (ht : d.arena.Tidy)
    (hk : d.arena.kind? g = some .sectionType) (n : Text) :
    (d.arena.sheetGroup g).sections.find? (·.name = n) =
      (d.arena.childNamed? g n).map d.arena.sheetSection := by
  unfold Arena.sheetGroup Arena.childNamed?
  rw [List.find?_map]
  congr 1
  refine List.find?_congr fun x hx => ?_
  obtain ⟨m, hm⟩ := exists_name_of_tidy ht (hw.kind?_of_mem_sections ht hk hx) (by simp)
  simp [Arena.sheetSection, hm]

/-- The section that a header opens again, on the sheet. -/
theorem sectionToReopen?_eq (hw : d.arena.WellFormed) (ht : d.arena.Tidy) (type : Text)
    (v : Value) :
    d.sectionToReopen? type (some v) =
      ((d.sheet.groups.find? (·.type = type)).bind (·.sections.find? (·.name = v.text))).map
        (·.handle) := by
  have hopen : d.sectionToReopen? type (some v) =
      (d.arena.childNamed? 1 type).bind fun g => d.arena.childNamed? g v.text := by
    unfold sectionToReopen?
    rw [configuration_eq hw]
    rfl
  rw [hopen, find?_groups hw ht]
  cases hg : d.arena.childNamed? 1 type with
  | none => rfl
  | some g =>
    have hk := hw.kind?_of_mem_groups (childNamed?_eq_some hg).1
    show d.arena.childNamed? g v.text =
      ((d.arena.sheetGroup g).sections.find? (·.name = v.text)).map (·.handle)
    rw [find?_sections hw ht hk]
    cases d.arena.childNamed? g v.text <;> rfl

namespace Shows

theorem named (h : d.Shows S) : d.Named := (h.built.mono fun _ _ hop => hop.1).named

theorem writable (h : d.Shows S) : S.draft.Writable :=
  h.sheet_eq ▸ h.named.writable h.wellFormed h.tidy

end Shows

/-! ### New sections -/

/-- **A header opens a section** that has the entries `os`, in a place of the sheet. -/
def Opens (d : Document) (type : Text) (name : Option Text) (c : Sheet.Context)
    (os : List EntryOutline) : Prop :=
  ∃ s m es d', (∀ (t : Value) (n : Option Value), t.text = type → n.map Value.text = name →
      openSection t n d = .ok (s, d')) ∧
    d'.Shows (c.fill ⟨s, m, es⟩) ∧ givenName? m = name ∧ es.map Sheet.Entry.outline = os

/-- What is added as a new section was not there before. -/
private theorem openSection_of_accepts (hw : d.arena.WellFormed)
    (hacc : d.Accepts (.addSection root type name) (some s) d')
    (t : Value) (n : Option Value) (ht : t.text = type) (hn : n.map Value.text = name) :
    openSection t n d = .ok (s, d') := by
  subst ht hn
  have hnone : d.sectionToReopen? t.text n = none := by
    unfold sectionToReopen?
    cases n with
    | none => rfl
    | some v =>
      rw [configuration_eq hw]
      change ((d.arena.childNamed? 1 t.text).bind fun g => d.arena.childNamed? g v.text) = none
      -- a name that the group has already would have been refused
      cases hacc with
      | addSection _ _ _ hg hun =>
        rw [hg, Option.bind_some]
        exact List.find?_eq_none.mpr fun x hx => by simpa using hun v.text rfl x hx nofun
      | addSectionAndGroup _ _ _ hg => rw [hg, Option.bind_none]
  obtain ⟨y, hy, hadd⟩ := exists_accept_of_run ((Operation.run_eq_ok_iff hw).mpr hacc)
  cases hy
  unfold openSection
  rw [hnone]
  exact hadd _

/-- A name that was given is kept, and none is given by generating one. -/
private theorem givenName?_getD (hname : ∀ n ∈ name, IsGivenName n) (k : Nat) :
    givenName? (name.getD (generatedName type k)) = name := by
  cases name with
  | none => exact if_pos (generatedName_head type k)
  | some n => exact if_neg (hname n rfl).2

/-- The group of a type is found behind groups of other types. -/
private theorem find?_group (hnew : ∀ g ∈ gs, g.type ≠ type) (g : Handle)
    (secs : List Sheet.Section) (gs' : List Sheet.Group) :
    (gs ++ (⟨g, type, secs⟩ : Sheet.Group) :: gs').find? (·.type = type) =
      some ⟨g, type, secs⟩ :=
  List.find?_eq_some_iff_append.mpr
    ⟨decide_eq_true rfl, gs, gs', rfl, fun x hx => by simpa using hnew x hx⟩

namespace Shows

/-- The first section of its type comes in with its group. -/
theorem opens_group (h : d.Shows ⟨p, gs⟩) (htype : isWord type = true)
    (hnew : ∀ g ∈ gs, g.type ≠ type) (hname : ∀ n ∈ name, IsGivenName n) :
    d.Opens type name ⟨p, gs, d.allocated, type, [], [], []⟩ [] := by
  have hfind : gs.find? (·.type = type) = none :=
    List.find?_eq_none.mpr fun g hg => by simpa using hnew g hg
  have hchild : d.arena.childNamed? 1 type = none := by
    have hgroups := find?_groups h.wellFormed h.tidy type
    rw [h.sheet_eq, hfind] at hgroups
    exact Option.map_eq_none_iff.mp hgroups.symm
  have hacc := Accepts.addSectionAndGroup (d := d) (h := root) (Or.inl rfl) htype hname hchild
  obtain ⟨-, hshows⟩ := h.perform _
    ⟨fun x hx => by cases hx; exact h.built.onIssued_root, rfl⟩ hacc
  simp only [Sheet.edited, Sheet.addSection, hfind] at hshows
  exact ⟨_, _, [], _, openSection_of_accepts h.wellFormed hacc, hshows, givenName?_getD hname _,
    rfl⟩

/-- A further section comes in at the end of its group. -/
theorem opens_section (h : d.Shows ⟨p, gs ++ ⟨g, type, secs⟩ :: gs'⟩)
    (htype : isWord type = true) (hnew : ∀ g ∈ gs, g.type ≠ type)
    (hname : ∀ n ∈ name, IsGivenName n) (hapart : ∀ s ∈ secs, ∀ n ∈ name, n ∉ givenName? s.name) :
    d.Opens type name ⟨p, gs, g, type, secs, [], gs'⟩ [] := by
  have hw := h.wellFormed
  have hfind := find?_group hnew g secs gs'
  -- the group that the arena has for the type
  obtain ⟨q, hchild, hgroup⟩ : ∃ q, d.arena.childNamed? 1 type = some q ∧
      d.arena.sheetGroup q = ⟨g, type, secs⟩ := by
    have hgroups := find?_groups hw h.tidy type
    rw [h.sheet_eq, hfind] at hgroups
    exact Option.map_eq_some_iff.mp hgroups.symm
  have hunused : ∀ n ∈ name, d.arena.Unused q n none := by
    intro n hn x hx _ hxn
    have hmem : d.arena.sheetSection x ∈ secs := by
      rw [show secs = (d.arena.sheetGroup q).sections by rw [hgroup]]
      exact List.mem_map_of_mem hx
    refine hapart _ hmem n hn (mem_givenName?_iff.mpr ?_)
    have hxname : (d.arena.sheetSection x).name = n := by
      rw [sheetSection, hxn]
      rfl
    rw [hxname]
    exact ⟨(hname n hn).2, rfl⟩
  have hacc := Accepts.addSection (d := d) (h := root) (Or.inl rfl) htype hname hchild hunused
  obtain ⟨-, hshows⟩ := h.perform _
    ⟨fun x hx => by cases hx; exact h.built.onIssued_root, rfl⟩ hacc
  -- no other group has the handle of this one
  have hnodup := nodup_groups hw
  rw [h.sheet_eq, List.map_append, List.map_cons, List.nodup_middle, List.nodup_cons,
    ← List.map_append] at hnodup
  have hne : ∀ x ∈ gs ++ gs', x.handle ≠ g := by
    intro x hx heq
    exact hnodup.1 (List.mem_map.mpr ⟨x, hx, heq⟩)
  have hother : ∀ l : List Sheet.Group, (∀ x ∈ l, x.handle ≠ g) → ∀ f : Sheet.Group → Sheet.Group,
      l.map (fun x => if x.handle = g then f x else x) = l := by
    intro l hl f
    rw [List.map_congr_left fun x hx => if_neg (hl x hx), List.map_id']
  obtain ⟨hbefore, hbehind⟩ := List.forall_mem_append.mp hne
  simp only [Sheet.edited, Sheet.addSection, hfind, Sheet.onGroup, Sheet.mapGroups,
    List.map_append, List.map_cons, if_true, hother gs hbefore, hother gs' hbehind] at hshows
  exact ⟨_, _, [], _, openSection_of_accepts hw hacc, hshows, givenName?_getD hname _, rfl⟩

/-! ### Sections that are opened again -/

/-- The section of the name is opened again, and nothing changes. -/
theorem opens_again {n : Text} {x : Sheet.Section}
    (h : d.Shows ⟨p, gs ++ ⟨g, type, secs ++ x :: secs'⟩ :: gs'⟩)
    (hnew : ∀ g ∈ gs, g.type ≠ type) (hapart : ∀ s ∈ secs, s.name ≠ n) (hx : x.name = n)
    (hname : n.head? ≠ some '@') :
    d.Opens type (some n) ⟨p, gs, g, type, secs, secs', gs'⟩
      (x.entries.map Sheet.Entry.outline) := by
  refine ⟨x.handle, x.name, x.entries, d, ?_, h, ?_, rfl⟩
  · intro t v ht hv
    obtain ⟨v, rfl, rfl⟩ := Option.map_eq_some_iff.mp hv
    have hsection : (secs ++ x :: secs').find? (·.name = v.text) = some x :=
      List.find?_eq_some_iff_append.mpr
        ⟨decide_eq_true hx, secs, secs', rfl, fun y hy => by simpa using hapart y hy⟩
    have hreopen : d.sectionToReopen? t.text (some v) = some x.handle := by
      rw [sectionToReopen?_eq h.wellFormed h.tidy, h.sheet_eq, ht, find?_group hnew,
        Option.bind_some, hsection]
      rfl
    unfold openSection
    rw [hreopen]
  · rw [hx]
    exact if_neg hname

/-! ### What a header opens -/

/-- The draft of a sheet, around one of its groups. -/
private theorem draft_group (p : Option Text) (gs : List Sheet.Group) (g : Handle) (type : Text)
    (secs : List Sheet.Section) (gs' : List Sheet.Group) :
    (⟨p, gs ++ ⟨g, type, secs⟩ :: gs'⟩ : Sheet).draft =
      ⟨p, gs.map Sheet.Group.draft ++ ⟨type, secs.map Sheet.Section.draft⟩ ::
        gs'.map Sheet.Group.draft⟩ :=
  congrArg (Draft.mk p) (List.map_append ..)

/-- What a header opens in the group of its type. -/
private theorem opens_in_group (h : d.Shows ⟨p, gs ++ ⟨g, type, secs⟩ :: gs'⟩)
    (htype : isWord type = true) (hnew : ∀ g ∈ gs, g.type ≠ type)
    (hname : ∀ n ∈ name, IsGivenName n) :
    ∃ c, d.Opens type name c
        ((⟨p, gs ++ ⟨g, type, secs⟩ :: gs'⟩ : Sheet).draft.entriesAt type name) ∧
      ∀ s m es, givenName? m = name → (c.fill ⟨s, m, es⟩).draft =
        (⟨p, gs ++ ⟨g, type, secs⟩ :: gs'⟩ : Sheet).draft.put type
          ⟨name, es.map Sheet.Entry.outline⟩ := by
  have hdraft : ∀ G ∈ gs.map Sheet.Group.draft, G.type ≠ type := List.forall_mem_map.mpr hnew
  rw [draft_group]
  by_cases hfound : ∃ n ∈ name, ∃ x ∈ secs, x.name = n
  · -- the first section of the name is opened again
    obtain ⟨n, rfl, hx⟩ := hfound
    obtain ⟨x, hfind⟩ : ∃ x, secs.find? (·.name = n) = some x := by
      simpa [← Option.isSome_iff_exists] using hx
    obtain ⟨hxn, front, behind, rfl, hfront⟩ := List.find?_eq_some_iff_append.mp hfind
    have hgiven : givenName? x.name = some n :=
      mem_givenName?_iff.mpr ⟨of_decide_eq_true hxn ▸ (hname n rfl).2, of_decide_eq_true hxn⟩
    have hapart : ∀ s ∈ front, s.name ≠ n := fun s hs => by simpa using hfront s hs
    have hsections : ∀ s ∈ front.map Sheet.Section.draft, s.name ≠ some n :=
      List.forall_mem_map.mpr fun s hs hsn => hapart s hs (mem_givenName?_iff.mp hsn).2
    have hopens := h.opens_again hnew hapart (of_decide_eq_true hxn) (hname n rfl).2
    have hentries : Draft.Group.entriesAt
        ⟨type, (front ++ x :: behind).map Sheet.Section.draft⟩ n =
          x.entries.map Sheet.Entry.outline := by
      rw [List.map_append, List.map_cons]
      exact Draft.Group.entriesAt_section hsections hgiven
    rw [Draft.entriesAt_group hdraft, hentries]
    refine ⟨_, hopens, fun s m es hm => ?_⟩
    rw [Sheet.Context.fill, draft_group, Draft.put_group hdraft, List.map_append, List.map_append,
      List.map_cons, List.map_cons, Draft.Group.put_section hsections hgiven, Sheet.Section.draft,
      hm]
  · have hfree : ∀ s ∈ secs, ∀ n ∈ name, n ∉ givenName? s.name := fun s hs n hn hsn =>
      hfound ⟨n, hn, s, hs, (mem_givenName?_iff.mp hsn).2⟩
    have hsections : ∀ s ∈ secs.map Sheet.Section.draft, ∀ n ∈ name, n ∉ s.name :=
      List.forall_mem_map.mpr hfree
    have hopens := h.opens_section htype hnew hname hfree
    have hentries : (⟨p, gs.map Sheet.Group.draft ++ ⟨type, secs.map Sheet.Section.draft⟩ ::
        gs'.map Sheet.Group.draft⟩ : Draft).entriesAt type name = [] := by
      cases name with
      | none => rfl
      | some n =>
        rw [Draft.entriesAt_group hdraft]
        exact Draft.Group.entriesAt_new_section fun s hs => hsections s hs n rfl
    rw [hentries]
    refine ⟨_, hopens, fun s m es hm => ?_⟩
    rw [Sheet.Context.fill, draft_group, Draft.put_group hdraft,
      Draft.Group.put_new_section hsections, List.map_append, List.map_singleton,
      Sheet.Section.draft, hm]

/-- **A header that can stand** opens the section of its name, or a new one; and what is put
into the section is put there in the draft. -/
theorem opens (h : d.Shows S) (hheader : Draft.TakesHeader type name)
    (hname : ∀ n ∈ name, n.head? ≠ some '@') :
    ∃ c, d.Opens type name c (S.draft.entriesAt type name) ∧
      ∀ s m es, givenName? m = name → (c.fill ⟨s, m, es⟩).draft =
        S.draft.put type ⟨name, es.map Sheet.Entry.outline⟩ := by
  obtain ⟨p, groups⟩ := S
  obtain ⟨htype, hne⟩ := hheader
  have hgiven : ∀ n ∈ name, IsGivenName n := by
    intro n hn
    refine ⟨?_, hname n hn⟩
    rintro rfl
    exact hne hn
  cases hgroup : groups.find? (·.type = type) with
  | none =>
    have hnew : ∀ g ∈ groups, g.type ≠ type := fun g hg => by
      simpa using List.find?_eq_none.mp hgroup g hg
    have hdraft : ∀ G ∈ groups.map Sheet.Group.draft, G.type ≠ type :=
      List.forall_mem_map.mpr hnew
    have hopens := h.opens_group htype hnew hgiven
    rw [← Draft.entriesAt_new_group hdraft] at hopens
    refine ⟨_, hopens, fun s m es hm => ?_⟩
    subst hm
    exact (congrArg (Draft.mk p) (List.map_append ..)).trans (Draft.put_new_group hdraft).symm
  | some G =>
    obtain ⟨g, type', secs⟩ := G
    obtain ⟨hG, gs, gs', rfl, hgs⟩ := List.find?_eq_some_iff_append.mp hgroup
    obtain rfl : type' = type := of_decide_eq_true hG
    exact h.opens_in_group htype (fun x hx => by simpa using hgs x hx) hgiven

end Shows

/-- A section comes in only under a header that a draft takes. -/
theorem Accepts.takesHeader {h : Handle} {r : Option Handle}
    (hacc : d.Accepts (.addSection h type name) r d') :
    Draft.TakesHeader type name ∧ ∀ n ∈ name, IsGivenName n := by
  have hboth : isWord type = true ∧ ∀ n ∈ name, IsGivenName n := by
    cases hacc with
    | addSection _ hword hgiven _ _ => exact ⟨hword, hgiven⟩
    | addSectionAndGroup _ hword hgiven _ => exact ⟨hword, hgiven⟩
  exact ⟨⟨hboth.1, fun hnil => (hboth.2 [] hnil).1 rfl⟩, hboth.2⟩

namespace Shows

/-- **No other header opens anything.** -/
theorem takesHeader_of_openSection (h : d.Shows S) {t : Value} {n : Option Value}
    (hname : ∀ v ∈ n, v.text.head? ≠ some '@') (hopen : openSection t n d = .ok (s, d')) :
    Draft.TakesHeader t.text (n.map Value.text) := by
  rcases openSection_cases h.wellFormed hopen with ⟨v, rfl, hreopen, -⟩ | ⟨-, hacc⟩
  · rw [sectionToReopen?_eq h.wellFormed h.tidy, h.sheet_eq] at hreopen
    obtain ⟨x, hx, -⟩ := Option.map_eq_some_iff.mp hreopen
    obtain ⟨g, hg, hx⟩ := Option.bind_eq_some_iff.mp hx
    -- the names of a section that is there were checked before
    have hgroup := h.writable.groups g.draft (List.mem_map_of_mem (List.mem_of_find?_eq_some hg))
    have hsection := hgroup.sections x.draft (List.mem_map_of_mem (List.mem_of_find?_eq_some hx))
    have htype : g.type = t.text := by simpa using List.find?_some hg
    have hxname : x.name = v.text := by simpa using List.find?_some hx
    refine ⟨htype ▸ hgroup.type_word, fun hnil => ?_⟩
    have hempty : v.text = [] := Option.some.inj hnil
    exact (hsection.name_given v.text
      (mem_givenName?_iff.mpr ⟨hxname ▸ hname v rfl, hxname⟩)).1 hempty
  · exact hacc.takesHeader.1

end Shows

end Document
end Uci
