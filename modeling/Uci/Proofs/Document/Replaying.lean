import Mathlib.Data.List.Nodup
import Uci.Proofs.Document.Reading
import Uci.Proofs.Document.Writing

/-!
# Replaying

A text is replayed on a document whose sheet is known, and the sheet is known after each
line: what the lines below a header do is done in the section of the header, and the rest
of the sheet stays as it is.

## Main definitions

* `Document.Shows` — a document in the course of reading, by its sheet.
* `Sheet.Context` — a sheet around one of its sections.

## Main results

* `Context.onSection_fill`, `Context.onEntry_fill` — an edit of a section, and of an entry of
  it, on the sheet around the section.
* `Shows.addOption`, `Shows.addList`, `Shows.setOptionValue`, `Shows.addElement` — the edits
  that lines are replayed as.
-/

namespace Uci

open Syntax (Value isWord)

/-! ### The sheet around a section -/

namespace Sheet

/-- A sheet around one of its sections: the groups before, the group of the section with the
sections before and behind it, and the groups behind. -/
structure Context where
  package : Option Text
  before : List Group
  group : Handle
  type : Text
  sections : List Section
  sectionsBehind : List Section
  behind : List Group

/-- The sheet with the section in its place. -/
def Context.fill (c : Context) (x : Section) : Sheet :=
  ⟨c.package, c.before ++ ⟨c.group, c.type, c.sections ++ x :: c.sectionsBehind⟩ :: c.behind⟩

/-- A section with one more entry at its end. -/
def Section.push (x : Section) (e : Entry) : Section := { x with entries := x.entries ++ [e] }

/-- The handles of the entries, section after section. -/
def entries (S : Sheet) : List Handle :=
  S.groups.flatMap fun g => g.sections.flatMap fun s => s.entries.map (·.handle)

private theorem map_eq_self {α : Type} {f : α → α} {l : List α} (h : ∀ x ∈ l, f x = x) :
    l.map f = l :=
  (List.map_congr_left h).trans (List.map_id l)

namespace Context

variable (c : Context) (x : Section)

/-- The sections before the place. -/
private def front : List Section := c.before.flatMap (·.sections) ++ c.sections

/-- The sections behind the place. -/
private def back : List Section := c.sectionsBehind ++ c.behind.flatMap (·.sections)

private theorem sections_fill :
    (c.fill x).groups.flatMap (·.sections) = c.front ++ x :: c.back := by
  simp [fill, front, back]

/-- A change that leaves all other sections as they are. -/
private theorem mapSections_fill {F : Section → Section}
    (hF : ∀ s ∈ c.front ++ c.back, F s = s) :
    (c.fill x).mapGroups (·.mapSections F) = c.fill (F x) := by
  obtain ⟨hfront, hback⟩ := List.forall_mem_append.mp hF
  obtain ⟨hbefore, hsections⟩ := List.forall_mem_append.mp hfront
  obtain ⟨hsectionsBehind, hbehind⟩ := List.forall_mem_append.mp hback
  have hgroups : ∀ gs : List Group, (∀ s ∈ gs.flatMap (·.sections), F s = s) →
      gs.map (·.mapSections F) = gs := by
    intro gs hgs
    apply map_eq_self
    intro g hg
    rw [Group.mapSections, map_eq_self fun s hs => hgs s (List.mem_flatMap.mpr ⟨g, hg, hs⟩)]
  unfold mapGroups fill
  rw [List.map_append, List.map_cons, hgroups _ hbefore, hgroups _ hbehind, Group.mapSections,
    List.map_append, List.map_cons, map_eq_self hsections, map_eq_self hsectionsBehind]

/-- A change of the section, and of no other. -/
theorem onSection_fill (h : (c.fill x).sections.Nodup) (f : Section → Section) :
    (c.fill x).onSection x.handle f = c.fill (f x) := by
  have hsplit : (c.fill x).sections =
      c.front.map (·.handle) ++ x.handle :: c.back.map (·.handle) := by
    unfold Sheet.sections
    rw [← List.map_flatMap, sections_fill, List.map_append, List.map_cons]
  -- the handle of the section is not that of any other
  rw [hsplit, List.nodup_middle, List.nodup_cons, ← List.map_append] at h
  have hother : ∀ s ∈ c.front ++ c.back, (if s.handle = x.handle then f s else s) = s := by
    intro s hs
    refine if_neg fun heq => h.1 ?_
    rw [← heq]
    exact List.mem_map_of_mem hs
  have hchange := c.mapSections_fill x hother
  rwa [if_pos rfl] at hchange

/-- An entry of the section has its handle alone. -/
private theorem not_mem_of_entry {e : Entry} {es es' : List Entry}
    (hx : x.entries = es ++ e :: es') (h : (c.fill x).entries.Nodup) :
    (∀ s ∈ c.front ++ c.back, ∀ y ∈ s.entries, y.handle ≠ e.handle) ∧
      ∀ y ∈ es ++ es', y.handle ≠ e.handle := by
  have hsplit : (c.fill x).entries =
      (c.front.flatMap (·.entries.map (·.handle)) ++ es.map (·.handle)) ++
        e.handle :: (es'.map (·.handle) ++ c.back.flatMap (·.entries.map (·.handle))) := by
    unfold Sheet.entries
    rw [← List.flatMap_assoc, sections_fill]
    simp [hx]
  -- the same one level further down
  rw [hsplit, List.nodup_middle, List.nodup_cons] at h
  simp only [List.mem_append, not_or] at h
  obtain ⟨⟨⟨hfront, hes⟩, hes', hback⟩, -⟩ := h
  have hentries : ∀ ys : List Entry, e.handle ∉ ys.map (·.handle) →
      ∀ y ∈ ys, y.handle ≠ e.handle := fun ys hys y hy heq => hys (heq ▸ List.mem_map_of_mem hy)
  have hsection : ∀ ss : List Section, e.handle ∉ ss.flatMap (·.entries.map (·.handle)) →
      ∀ s ∈ ss, ∀ y ∈ s.entries, y.handle ≠ e.handle := fun ss hss s hs =>
    hentries _ fun hmem => hss (List.mem_flatMap.mpr ⟨s, hs, hmem⟩)
  exact ⟨List.forall_mem_append.mpr ⟨hsection _ hfront, hsection _ hback⟩,
    List.forall_mem_append.mpr ⟨hentries _ hes, hentries _ hes'⟩⟩

/-- A change of an entry of the section, and of no other. -/
theorem onEntry_fill {e : Entry} {es es' : List Entry} (hx : x.entries = es ++ e :: es')
    (h : (c.fill x).entries.Nodup) (f : Entry → Entry) :
    (c.fill x).onEntry e.handle f = c.fill { x with entries := es ++ f e :: es' } := by
  obtain ⟨hothers, halone⟩ := c.not_mem_of_entry x hx h
  obtain ⟨hes, hes'⟩ := List.forall_mem_append.mp halone
  have hentries : ∀ ys : List Entry, (∀ y ∈ ys, y.handle ≠ e.handle) →
      ys.map (fun y => if y.handle = e.handle then f y else y) = ys := fun ys hys =>
    map_eq_self fun y hy => if_neg (hys y hy)
  have hchange := c.mapSections_fill x
    (F := (·.mapEntries fun y => if y.handle = e.handle then f y else y)) fun s hs => by
      rw [Section.mapEntries, hentries _ (hothers s hs)]
  rwa [Section.mapEntries, hx, List.map_append, List.map_cons, hentries _ hes, hentries _ hes',
    if_pos rfl] at hchange

/-- The section without one of its entries. -/
theorem without_fill {e : Entry} {es es' : List Entry} (hx : x.entries = es ++ e :: es')
    (h : (c.fill x).entries.Nodup) :
    (c.fill x).mapGroups (·.mapSections (·.without e.handle)) =
      c.fill { x with entries := es ++ es' } := by
  obtain ⟨hothers, halone⟩ := c.not_mem_of_entry x hx h
  obtain ⟨hes, hes'⟩ := List.forall_mem_append.mp halone
  have hentries : ∀ ys : List Entry, (∀ y ∈ ys, y.handle ≠ e.handle) →
      ys.filter (·.handle ≠ e.handle) = ys := fun ys hys =>
    List.filter_eq_self.mpr fun y hy => decide_eq_true (hys y hy)
  have hchange := c.mapSections_fill x (F := (·.without e.handle)) fun s hs => by
    rw [Section.without, hentries _ (hothers s hs)]
  rwa [Section.without, hx, List.filter_append, List.filter_cons_of_neg (by simp),
    hentries _ hes, hentries _ hes'] at hchange

end Context

end Sheet

/-! ### Handles on a sheet -/

namespace Document

open Arena

variable {d d' : Document} {r : Option Handle} {S : Sheet} {n v : Text}

/-- No node hangs below two parents. -/
private theorem nodup_flatMap_liveChildren (hw : d.arena.WellFormed) {l : List Handle}
    (hl : l.Nodup) : (l.flatMap d.arena.liveChildren).Nodup := by
  refine List.nodup_flatMap.mpr ⟨fun p _ => hw.nodup_liveChildren p, ?_⟩
  refine hl.imp fun {p q} hpq x hp hq => hpq ?_
  exact Option.some.inj ((hw.mem_liveChildren_iff.mp hp).symm.trans (hw.mem_liveChildren_iff.mp hq))

theorem nodup_groups (hw : d.arena.WellFormed) : (d.sheet.groups.map (·.handle)).Nodup := by
  unfold sheet
  rw [List.map_map]
  exact (List.map_id (d.arena.liveChildren 1)).symm ▸ hw.nodup_liveChildren 1

theorem nodup_sections (hw : d.arena.WellFormed) : d.sheet.sections.Nodup := by
  rw [← sections_eq_sheet hw, sections_eq hw]
  exact nodup_flatMap_liveChildren hw (hw.nodup_liveChildren 1)

private theorem nodup_entries (hw : d.arena.WellFormed) : d.sheet.entries.Nodup := by
  have hentries : d.sheet.entries = d.sections.flatMap d.arena.liveChildren := by
    rw [sections_eq hw, List.flatMap_assoc]
    unfold Sheet.entries sheet
    rw [List.flatMap_map]
    apply List.flatMap_congr
    intro g _
    show ((d.arena.liveChildren g).map d.arena.sheetSection).flatMap _ = _
    rw [List.flatMap_map]
    apply List.flatMap_congr
    intro s _
    show ((d.arena.liveChildren s).map d.arena.sheetEntry).map _ = _
    rw [List.map_map]
    exact List.map_id _
  rw [hentries]
  refine nodup_flatMap_liveChildren hw ?_
  rw [sections_eq_sheet hw]
  exact nodup_sections hw

/-! ### Documents in the course of reading -/

/-- **A document in the course of reading**, by its sheet. -/
structure Shows (d : Document) (S : Sheet) : Prop where
  built : d.Built OnReading
  sheet_eq : d.sheet = S

theorem shows_empty : empty.Shows ⟨none, []⟩ := ⟨.empty, by decide⟩

namespace Shows

variable (h : d.Shows S)
include h

theorem wellFormed : d.arena.WellFormed := h.built.wellFormed

theorem tidy : d.arena.Tidy := h.built.tidy fun _ _ hop => hop.1

/-- An operation that is accepted succeeds, and is an edit of the sheet. -/
theorem perform (op : Operation) (hop : d.OnReading op) (hacc : d.Accepts op r d') :
    op.edit.run d = (.ok r, d') ∧ d'.Shows (S.edited d.allocated d.nextNumber op) := by
  have hrun := (Operation.run_eq_ok_iff h.wellFormed).mpr hacc
  have hafter : op.after d = d' := congrArg Prod.snd hrun
  refine ⟨hrun, hafter ▸ h.built.edited op hop, ?_⟩
  rw [hacc.sheet h.wellFormed h.tidy hop.1 hop.2, h.sheet_eq]

end Shows

/-- An edit that succeeds is accepted, whatever value would be to blame. -/
theorem exists_accept_of_run {α β : Type} {e : Edit α} {f : α → β} {b : β}
    (h : (f <$> e).run d = (.ok b, d')) :
    ∃ a, f a = b ∧ ∀ v : Value, accept v e d = .ok (a, d') := by
  rw [Edit.run_map] at h
  obtain ⟨a, ha, hab⟩ := map_eq_ok_iff.mp (congrArg Prod.fst h)
  have hleft : (e.run d).2 = d' := congrArg Prod.snd h
  exact ⟨a, hab, fun v => accept_eq_ok_iff.mpr (Prod.ext ha hleft)⟩

/-! ### Inside of a section -/

variable {c : Sheet.Context} {x : Sheet.Section} {e : Sheet.Entry} {es es' : List Sheet.Entry}
  {l : Handle} {xs : List Sheet.Element}

namespace Shows

/-- The section is a live one, and stands on the sheet as it does in the arena. -/
theorem open_section (h : d.Shows (c.fill x)) :
    d.isLive x.handle = true ∧ d.arena.kind? x.handle = some .section ∧
      x = d.arena.sheetSection x.handle := by
  have hmem : (⟨c.group, c.type, c.sections ++ x :: c.sectionsBehind⟩ : Sheet.Group) ∈
      d.sheet.groups := by
    rw [h.sheet_eq]
    exact List.mem_append_right _ (List.mem_cons_self ..)
  obtain ⟨g, hg, hgroup⟩ := List.mem_map.mp hmem
  have hsections : (d.arena.liveChildren g).map d.arena.sheetSection =
      c.sections ++ x :: c.sectionsBehind := congrArg Sheet.Group.sections hgroup
  have hx : x ∈ (d.arena.liveChildren g).map d.arena.sheetSection := by
    rw [hsections]
    exact List.mem_append_right _ (List.mem_cons_self ..)
  obtain ⟨s, hs, rfl⟩ := List.mem_map.mp hx
  exact ⟨(isLive_of_mem_sections h.wellFormed hg hs).2,
    h.wellFormed.kind?_of_mem_sections h.tidy (h.wellFormed.kind?_of_mem_groups hg) hs, rfl⟩

/-- Its entries are live, and of the kind that the sheet says. -/
theorem entry_live (h : d.Shows (c.fill x)) (he : e ∈ x.entries) :
    d.isLive e.handle = true ∧ d.arena.kind? e.handle = some (Sheet.Item.entry e).kind := by
  obtain ⟨hlive, hk, hx⟩ := h.open_section
  rw [hx] at he
  obtain ⟨y, hy, rfl⟩ := List.mem_map.mp he
  refine ⟨(h.wellFormed.isLive_of_parent (h.wellFormed.mem_liveChildren_iff.mp hy)).trans hlive, ?_⟩
  show d.arena.kind? y = _
  rcases h.wellFormed.kind?_of_mem_entries hk hy with hy | hy
  · simp [sheetEntry, sheetBody, Sheet.Item.kind, hy]
  · simp [sheetEntry, sheetBody, Sheet.Item.kind, hy]

/-- An entry of the section, found by its name. -/
theorem entryOf?_eq (h : d.Shows (c.fill x)) (n : Text) :
    d.entryOf? x.handle n =
      (x.entries.find? (·.name = n)).map fun e => (e.handle, (Sheet.Item.entry e).kind) := by
  obtain ⟨-, hk, hx⟩ := h.open_section
  have hfind : x.entries.find? (·.name = n) =
      (d.arena.childNamed? x.handle n).map d.arena.sheetEntry :=
    (congrArg (·.entries.find? (·.name = n)) hx).trans (find?_entries h.wellFormed h.tidy hk n)
  unfold entryOf?
  cases hchild : d.arena.childNamed? x.handle n with
  | none =>
    rw [hchild] at hfind
    rw [hfind]
    rfl
  | some y =>
    rw [hchild] at hfind
    obtain ⟨-, hkind⟩ := h.entry_live (List.mem_of_find?_eq_some hfind)
    obtain ⟨m, hm⟩ : ∃ m, d.arena.get? y = some m :=
      Option.isSome_iff_exists.mp ((get?_isSome_iff d.arena y).mpr (lt_size_of_kind? hkind))
    have hsame := (kind?_of_get? hm).symm.trans hkind
    rw [hfind]
    show (d.arena.get? y).bind (fun m => some (y, m.kind)) = some (y, _)
    rw [hm, Option.bind_some, Option.some.inj hsame]

/-- A name that no entry has is free. -/
theorem unused (h : d.Shows (c.fill x)) (hun : ∀ e ∈ x.entries, e.name ≠ n) :
    d.arena.Unused x.handle n none ∧ d.entryOf? x.handle n = none := by
  constructor
  · obtain ⟨-, -, hx⟩ := h.open_section
    intro y hy _ hname
    have hmem : d.arena.sheetEntry y ∈ x.entries := by
      rw [hx]
      exact List.mem_map_of_mem hy
    refine hun _ hmem ?_
    rw [sheetEntry, hname]
    rfl
  · rw [h.entryOf?_eq, List.find?_eq_none.mpr fun e he => by simpa using hun e he]
    rfl

/-- The section takes one more entry. -/
theorem push_entry (h : d.Shows (c.fill x)) (op : Operation) {e : Sheet.Entry}
    (hop : op.target? = some x.handle) (hretypes : op.retypes = false)
    (hadds : ∀ S, Sheet.edited d.allocated d.nextNumber S op = S.addEntry x.handle e)
    (hacc : d.Accepts op r d') : op.edit.run d = (.ok r, d') ∧ d'.Shows (c.fill (x.push e)) := by
  obtain ⟨-, hk, -⟩ := h.open_section
  have hissued : d.OnReading op := by
    refine ⟨?_, hretypes⟩
    intro y hy
    rw [hop] at hy
    cases hy
    exact ⟨.section, hk, by nofun⟩
  obtain ⟨hrun, hshows⟩ := h.perform op hissued hacc
  have hnodup : (c.fill x).sections.Nodup := h.sheet_eq ▸ nodup_sections h.wellFormed
  rw [hadds, Sheet.addEntry, c.onSection_fill x hnodup] at hshows
  exact ⟨hrun, hshows⟩

/-- A new option at the end of the section. -/
theorem addOption (h : d.Shows (c.fill x)) (hn : isWord n = true)
    (hun : ∀ e ∈ x.entries, e.name ≠ n) (v : Text) :
    ∃ d', (∀ blame, accept blame (addOption x.handle n v) d = .ok (d.allocated, d')) ∧
      d'.Shows (c.fill (x.push ⟨d.allocated, n, .option v⟩)) := by
  obtain ⟨hlive, hk, -⟩ := h.open_section
  obtain ⟨hrun, hshows⟩ := h.push_entry (.addOption x.handle n v) rfl rfl (fun _ => rfl)
    (.addOption ⟨hlive, _, hk, rfl⟩ hn (h.unused hun).1)
  obtain ⟨y, hy, hadd⟩ := exists_accept_of_run hrun
  cases hy
  exact ⟨_, hadd, hshows⟩

/-- A new list at the end of the section, without elements. -/
theorem addList (h : d.Shows (c.fill x)) (hn : isWord n = true)
    (hun : ∀ e ∈ x.entries, e.name ≠ n) :
    ∃ d', (∀ blame, accept blame (addList x.handle n) d = .ok (d.allocated, d')) ∧
      d'.Shows (c.fill (x.push ⟨d.allocated, n, .list []⟩)) := by
  obtain ⟨hlive, hk, -⟩ := h.open_section
  obtain ⟨hrun, hshows⟩ := h.push_entry (.addList x.handle n) rfl rfl (fun _ => rfl)
    (.addList ⟨hlive, _, hk, rfl⟩ hn (h.unused hun).1)
  obtain ⟨y, hy, hadd⟩ := exists_accept_of_run hrun
  cases hy
  exact ⟨_, hadd, hshows⟩

/-- Another value for an option. -/
theorem setOptionValue (h : d.Shows (c.fill x)) {v : Text}
    (hx : x.entries = es ++ ⟨l, n, .option v⟩ :: es') (w : Text) :
    ∃ d', (∀ blame, accept blame (setOptionValue l w) d = .ok ((), d')) ∧
      d'.Shows (c.fill { x with entries := es ++ ⟨l, n, .option w⟩ :: es' }) := by
  obtain ⟨hlive, hk⟩ := h.entry_live (hx ▸ List.mem_append_right es (List.mem_cons_self ..))
  obtain ⟨hrun, hshows⟩ := h.perform (.setOptionValue l w)
    ⟨fun z hz => by cases hz; exact ⟨.option, hk, by decide⟩, rfl⟩ (.setOptionValue hlive hk)
  obtain ⟨_, -, hset⟩ := exists_accept_of_run hrun
  have hnodup : (c.fill x).entries.Nodup := h.sheet_eq ▸ nodup_entries h.wellFormed
  have hsheet : (c.fill x).edited d.allocated d.nextNumber (.setOptionValue l w) =
      c.fill { x with entries := es ++ ⟨l, n, .option w⟩ :: es' } :=
    c.onEntry_fill x hx hnodup (·.withValue w)
  rw [hsheet] at hshows
  exact ⟨_, hset, hshows⟩

/-- One of the entries is gone. -/
theorem removeEntry (h : d.Shows (c.fill x)) (hx : x.entries = es ++ e :: es') :
    d.Accepts (.remove e.handle) none (d.mapArena (·.detach e.handle)) ∧
      (d.mapArena (·.detach e.handle)).sheet =
        d.sheet.mapGroups (·.mapSections (·.without e.handle)) ∧
      (d.mapArena (·.detach e.handle)).Shows (c.fill { x with entries := es ++ es' }) := by
  have hmem : e ∈ x.entries := hx ▸ List.mem_append_right es (List.mem_cons_self ..)
  obtain ⟨-, hk⟩ := h.entry_live hmem
  have hentry : (Sheet.Item.entry e).kind = .option ∨ (Sheet.Item.entry e).kind = .list := by
    obtain ⟨l, m, _ | _⟩ := e
    · exact Or.inl rfl
    · exact Or.inr rfl
  have hacc : d.Accepts (.remove e.handle) none (d.mapArena (·.detach e.handle)) :=
    .remove hk (by rcases hentry with h | h <;> rw [h] <;> nofun)
      (by rcases hentry with h | h <;> rw [h] <;> nofun)
  obtain ⟨hrun, hshows⟩ := h.perform (.remove e.handle)
    ⟨fun z hz => by cases hz; exact ⟨_, hk, by rcases hentry with h | h <;> rw [h] <;> nofun⟩, rfl⟩ hacc
  have hsheet := sheet_removeEntry h.wellFormed h.tidy
    (hentry.imp (fun h => h ▸ hk) fun h => h ▸ hk)
  refine ⟨hacc, hsheet, hshows.built, ?_⟩
  have hnodup : (c.fill x).entries.Nodup := h.sheet_eq ▸ nodup_entries h.wellFormed
  rw [hsheet, h.sheet_eq, c.without_fill x hx hnodup]

/-- A new element at the end of a list. -/
theorem addElement (h : d.Shows (c.fill x)) (hx : x.entries = es ++ ⟨l, n, .list xs⟩ :: es')
    (v : Text) :
    ∃ d' y, (∀ blame, accept blame (addElement l v) d = .ok (y, d')) ∧
      d'.Shows (c.fill { x with entries := es ++ ⟨l, n, .list (xs ++ [⟨y, v⟩])⟩ :: es' }) := by
  obtain ⟨hlive, hk⟩ := h.entry_live (hx ▸ List.mem_append_right es (List.mem_cons_self ..))
  obtain ⟨hrun, hshows⟩ := h.perform (.addElement l v)
    ⟨fun z hz => by cases hz; exact ⟨.list, hk, by decide⟩, rfl⟩
    (.addElement ⟨hlive, _, hk, rfl⟩)
  obtain ⟨z, hz, hadd⟩ := exists_accept_of_run hrun
  cases hz
  have hnodup : (c.fill x).entries.Nodup := h.sheet_eq ▸ nodup_entries h.wellFormed
  have hsheet : (c.fill x).edited d.allocated d.nextNumber (.addElement l v) =
      c.fill { x with entries := es ++ ⟨l, n, .list (xs ++ [⟨d.allocated, v⟩])⟩ :: es' } :=
    c.onEntry_fill x hx hnodup _
  rw [hsheet] at hshows
  exact ⟨_, d.allocated, hadd, hshows⟩

end Shows

/-! ### Lines -/

theorem replayEntry_skip (s : Handle) (d : Document) (e : Syntax.Entry)
    (he : e.line? = none) : replayEntry s d e = .ok d := by
  unfold Syntax.Entry.line? at he
  split at he
  · cases he
  · cases he
  · next hoption hlist =>
    unfold replayEntry
    split
    · exact absurd rfl (hoption _ _)
    · exact absurd rfl (hlist _ _)
    · rfl

theorem eq_option_of_line? {e : Syntax.Entry} (he : e.line? = some (.option n v)) :
    ∃ name value : Value,
      e = .option (some name) (some value) ∧ name.text = n ∧ value.text = v := by
  unfold Syntax.Entry.line? at he
  split at he
  · next name value =>
    cases he
    exact ⟨name, value, rfl, rfl, rfl⟩
  · cases he
  · cases he

theorem eq_list_of_line? {e : Syntax.Entry} {o : Option Text}
    (he : e.line? = some (.list n o)) :
    ∃ (name : Value) (value : Option Value),
      e = .list (some name) value ∧ name.text = n ∧ value.map Value.text = o := by
  unfold Syntax.Entry.line? at he
  split at he
  · cases he
  · next name value =>
    cases he
    exact ⟨name, value, rfl, rfl, rfl⟩
  · cases he

end Document

end Uci
