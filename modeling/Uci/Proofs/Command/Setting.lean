import Uci.Proofs.Command.Adding
import Uci.Proofs.Document.Outline

/-!
# Reading what was set

A setting is made in one run and read in another, which has only the text that the first one
wrote.  The value is found again under the path that it was set at, as long as no section has the
whole path for its name; and nothing else on the outline has changed, so that the numbers that
other sections are addressed by are the same as well.

## Main definitions

* `assign` — the entries of a section after an option was given a value.

## Main results

* `setByPath_shows` — what a setting does on the sheet.
* `get_set_of_parse` — **what was set is read again**, and the rest is as it was.
-/

namespace Uci

/-! ### Entries after a setting -/

/-- **The entries of a section after an option was given a value**: it stands in its place, or at
the end if it was not there.  A list of its name makes way. -/
def assign (n v : Text) (es : List EntryOutline) : List EntryOutline :=
  upsert (·.name = n) (fun _ => .option n v) (.option n v)
    (es.filter fun e => e.name ≠ n ∨ e.isList = false)

section Assign

variable {n v w : Text} {vs : List Text} {es es' : List EntryOutline}

private theorem filter_others (h : ∀ e ∈ es, e.name ≠ n) :
    es.filter (fun e => e.name ≠ n ∨ e.isList = false) = es :=
  List.filter_eq_self.mpr fun e he => decide_eq_true (Or.inl (h e he))

theorem assign_new (h : ∀ e ∈ es, e.name ≠ n) : assign n v es = es ++ [.option n v] := by
  rw [assign, filter_others h, upsert_of_forall_not h]

theorem assign_option (h : ∀ e ∈ es ++ es', e.name ≠ n) :
    assign n v (es ++ .option n w :: es') = es ++ .option n v :: es' := by
  obtain ⟨hes, hes'⟩ := List.forall_mem_append.mp h
  have hself : (EntryOutline.option n w :: es').filter (fun e => e.name ≠ n ∨ e.isList = false) =
      .option n w :: es' := by
    rw [List.filter_cons, filter_others hes']
    exact if_pos (decide_eq_true (Or.inr rfl))
  rw [assign, List.filter_append, hself, filter_others hes, upsert_middle hes rfl]

theorem assign_list (h : ∀ e ∈ es ++ es', e.name ≠ n) :
    assign n v (es ++ .list n vs :: es') = (es ++ es') ++ [.option n v] := by
  obtain ⟨hes, hes'⟩ := List.forall_mem_append.mp h
  have hself : (EntryOutline.list n vs :: es').filter (fun e => e.name ≠ n ∨ e.isList = false) =
      es' := by
    rw [List.filter_cons, filter_others hes']
    exact if_neg (by simp [EntryOutline.name, EntryOutline.isList])
  rw [assign, List.filter_append, hself, filter_others hes, upsert_of_forall_not h]

/-- The option is there afterwards. -/
theorem mem_assign (n v : Text) (es : List EntryOutline) : .option n v ∈ assign n v es := by
  unfold assign
  generalize es.filter _ = fs
  induction fs with
  | nil => exact List.mem_singleton_self _
  | cons f fs ih =>
    rw [upsert]
    split
    · exact List.mem_cons_self ..
    · exact List.mem_cons_of_mem _ ih

end Assign

namespace Document

open Arena

variable {d d₁ : Document} {c : Sheet.Context} {X : Sheet.Section} {path n o v : Text}

/-! ### A setting on the sheet -/

/-- The name of an entry is not that of any other one. -/
theorem Shows.name_ne_of_split (h : d.Shows (c.fill X)) {e : Sheet.Entry}
    {es es' : List Sheet.Entry} (hsplit : X.entries = es ++ e :: es') :
    ∀ y ∈ es ++ es', y.name ≠ e.name := by
  have hapart : (X.entries.map Sheet.Entry.outline).Pairwise fun x y => x.name ≠ y.name :=
    h.section_writable.entries_apart
  rw [List.pairwise_map, hsplit, List.pairwise_append, List.pairwise_cons] at hapart
  simp only [Sheet.Entry.name_outline] at hapart
  obtain ⟨-, ⟨hbehind, -⟩, hacross⟩ := hapart
  exact List.forall_mem_append.mpr ⟨fun y hy => hacross y hy e (List.mem_cons_self ..),
    fun y hy heq => hbehind y hy heq.symm⟩

/-- The entry that a setting is about, as it is on the sheet. -/
private theorem entryWithRole?_eq (h : d.Shows (c.fill X)) (hs : d.sectionName X.handle = .ok o)
    (n : Text) : d.entryWithRole? X.handle n =
      .ok ((X.entries.find? (·.name = n)).map fun e =>
        (e.handle, (Sheet.Item.entry e).kind.role)) := by
  obtain ⟨-, hk, hx⟩ := h.open_section
  have hfind : X.entries.find? (·.name = n) =
      (d.arena.childNamed? X.handle n).map d.arena.sheetEntry :=
    (congrArg (·.entries.find? (·.name = n)) hx).trans
      (find?_entries h.wellFormed h.tidy hk n)
  rw [entryWithRole?, entryIn?_eq h.wellFormed h.tidy hs]
  cases hchild : d.arena.childNamed? X.handle n with
  | none =>
    rw [hchild] at hfind
    rw [hfind]
    rfl
  | some y =>
    rw [hchild] at hfind
    obtain ⟨hlive, hky⟩ := h.entry_live (List.mem_of_find?_eq_some hfind)
    rw [hfind]
    dsimp only [bind, Except.bind]
    have hrole : d.role y = _ := role_of_live hlive hky
    rw [hrole]
    rfl

/-- A new option at the end of the section. -/
private theorem addOption_shows (h : d.Shows (c.fill X)) (hc : d.Consecutive)
    (hrun : (do let _ ← addOption X.handle n v : Edit Unit).run d = (.ok (), d₁)) :
    d₁.Shows (c.fill (X.push ⟨d.allocated, n, .option v⟩)) ∧ d₁.Consecutive := by
  obtain ⟨y, d₂, hadd, hpure⟩ := Edit.run_bind_eq_ok_iff.mp hrun
  obtain rfl : d₂ = d₁ := congrArg Prod.snd hpure
  have hacc := ((Operation.addOption X.handle n v).run_eq_ok_iff_of_edit h.wellFormed rfl
    fun _ _ => Option.some.inj).mp hadd
  obtain ⟨-, hk, -⟩ := h.open_section
  have hissued : d.OnIssued (.addOption X.handle n v) :=
    onIssued_of_target rfl (issued_of_kind hk (by decide))
  exact ⟨(h.push_entry _ rfl rfl (fun _ => rfl) hacc).2,
    hacc.consecutive h.wellFormed h.tidy hc ⟨hissued, rfl⟩⟩

section Split

variable {l : Handle} {es es' : List Sheet.Entry} (h : d.Shows (c.fill X)) (hc : d.Consecutive)
include h hc

/-- Another value for an option that is there. -/
private theorem setOptionValue_shows {w : Text}
    (hsplit : X.entries = es ++ ⟨l, n, .option w⟩ :: es')
    (hrun : (setOptionValue l v).run d = (.ok (), d₁)) :
    d₁.Shows (c.fill { X with entries := es ++ ⟨l, n, .option v⟩ :: es' }) ∧ d₁.Consecutive := by
  have hacc := ((Operation.setOptionValue l v).run_eq_ok_iff_of_edit h.wellFormed rfl
    fun _ _ _ => rfl).mp hrun
  obtain ⟨d', haccept, hshows⟩ := h.setOptionValue hsplit v
  obtain rfl : d' = d₁ :=
    congrArg Prod.snd ((accept_eq_ok_iff.mp (haccept ⟨[], 0⟩)).symm.trans hrun)
  obtain ⟨-, hk⟩ := h.entry_live (hsplit ▸ List.mem_append_right es (List.mem_cons_self ..))
  have hissued : d.OnIssued (.setOptionValue l v) :=
    onIssued_of_target rfl (issued_of_kind (k := .option) hk (by decide))
  exact ⟨hshows, hacc.consecutive h.wellFormed h.tidy hc ⟨hissued, rfl⟩⟩

/-- An entry that goes. -/
private theorem remove_shows {e : Sheet.Entry} (hsplit : X.entries = es ++ e :: es')
    (hrun : (remove e.handle).run d = (.ok (), d₁)) :
    d₁.Shows (c.fill { X with entries := es ++ es' }) ∧ d₁.Consecutive := by
  obtain ⟨hacc, hsheet, hshows⟩ := h.removeEntry hsplit
  have hrun' := ((Operation.remove e.handle).run_eq_ok_iff_of_edit h.wellFormed (a := ()) rfl
    fun _ _ _ => rfl).mpr hacc
  obtain rfl := congrArg Prod.snd (hrun'.symm.trans hrun)
  exact ⟨hshows, hc.of_mapSections (F := (·.without e.handle)) (fun _ => rfl) hsheet
    fun g _ => counter_detach ..⟩

end Split

/-- **What a setting does**: the entries of its section are changed, and nothing else. -/
theorem setByPath_shows (h : d.Shows (c.fill X)) (hc : d.Consecutive)
    (hs : d.sectionName X.handle = .ok o) (hquery : d.queryEntry path = .ok (X.handle, n))
    (hrun : (setByPath path v).run d = (.ok (), d₁)) :
    ∃ es, d₁.Shows (c.fill { X with entries := es }) ∧ d₁.Consecutive ∧
      es.map Sheet.Entry.outline = assign n v (X.entries.map Sheet.Entry.outline) := by
  obtain ⟨x, d₂, hread, hrest⟩ := Edit.run_bind_eq_ok_iff.mp hrun
  obtain ⟨hx, rfl⟩ := Edit.run_read_eq_ok_iff.mp hread
  cases hquery.symm.trans hx
  obtain ⟨y, d₂, hread, hrest⟩ := Edit.run_bind_eq_ok_iff.mp hrest
  obtain ⟨hy, rfl⟩ := Edit.run_read_eq_ok_iff.mp hread
  rw [entryWithRole?_eq h hs] at hy
  cases hfind : X.entries.find? (·.name = n) with
  | none =>
    rw [hfind] at hy
    cases hy
    have hnew : ∀ e ∈ X.entries.map Sheet.Entry.outline, e.name ≠ n :=
      List.forall_mem_map.mpr fun e he => by
        simpa using List.find?_eq_none.mp hfind e he
    obtain ⟨hshows, hc₁⟩ := addOption_shows h hc hrest
    exact ⟨_, hshows, hc₁, by rw [assign_new hnew]; exact List.map_append⟩
  | some e =>
    rw [hfind] at hy
    cases hy
    obtain ⟨hname, es, es', hsplit, -⟩ := List.find?_eq_some_iff_append.mp hfind
    obtain ⟨l, m, body⟩ := e
    obtain rfl : m = n := of_decide_eq_true hname
    -- the names of the other entries are other ones
    have hothers : ∀ e ∈ es ++ es', e.name ≠ m := h.name_ne_of_split hsplit
    have hnames : ∀ e ∈ es.map Sheet.Entry.outline ++ es'.map Sheet.Entry.outline, e.name ≠ m := by
      rw [← List.map_append]
      exact List.forall_mem_map.mpr fun e he => by simpa using hothers e he
    rw [hsplit, List.map_append, List.map_cons]
    cases body with
    | option w =>
      obtain ⟨hshows, hc₁⟩ := setOptionValue_shows h hc hsplit hrest
      exact ⟨_, hshows, hc₁, List.map_append.trans (assign_option (w := w) hnames).symm⟩
    | list xs =>
      obtain ⟨_, d', hremove, hadd⟩ := Edit.run_bind_eq_ok_iff.mp hrest
      obtain ⟨hshows, hc'⟩ := remove_shows h hc hsplit hremove
      obtain ⟨hshows₁, hc₁⟩ := addOption_shows hshows hc' hadd
      refine ⟨_, hshows₁, hc₁, ?_⟩
      refine Eq.trans ?_ (assign_list hnames).symm
      show (_ ++ [_]).map _ = _
      rw [List.map_append, List.map_append]
      rfl

/-! ### What is read afterwards -/

/-- The sheet around one of its sections, with the outline around what the section says. -/
private theorem exists_fill (hw : d.arena.WellFormed) {g : Sheet.Group}
    {before behind : List (Sheet.Group × Sheet.Section)}
    (hrows : d.sheet.rows = before ++ (g, X) :: behind) :
    ∃ c : Sheet.Context, d.sheet = c.fill X ∧ c.type = g.type ∧ ∀ Y, (c.fill Y).outline =
      (before.map fun r => r.2.outline r.1.type) ++ Y.outline g.type ::
        behind.map fun r => r.2.outline r.1.type := by
  have hmem : (g, X) ∈ d.sheet.rows := hrows ▸ List.mem_append_right _ (List.mem_cons_self ..)
  obtain ⟨hg, hX⟩ := Sheet.mem_rows_iff.mp hmem
  obtain ⟨gs, gs', hgroups⟩ := List.append_of_mem hg
  obtain ⟨xs, xs', hsections⟩ := List.append_of_mem hX
  have hfill : d.sheet = (⟨d.sheet.package, gs, g.handle, g.type, xs, xs', gs'⟩ :
      Sheet.Context).fill X := by
    show d.sheet = ⟨d.sheet.package, gs ++ ⟨g.handle, g.type, xs ++ X :: xs'⟩ :: gs'⟩
    rw [← hsections, ← hgroups]
  refine ⟨_, hfill, rfl, fun Y => ?_⟩
  -- the section stands once in the list, so that there is one way to take the list apart
  have hnodup : d.sheet.rows.Nodup := by
    have hsections := nodup_sections hw
    rw [Sheet.sections, ← List.map_flatMap, Sheet.sections_rows, List.map_map] at hsections
    exact hsections.of_map
  rw [hrows, List.nodup_middle, List.nodup_cons, List.mem_append, not_or] at hnodup
  have hsplit : before ++ (g, X) :: behind =
      ((gs.flatMap fun g => g.sections.map fun s => (g, s)) ++ xs.map fun s => (g, s)) ++
        (g, X) :: ((xs'.map fun s => (g, s)) ++
          gs'.flatMap fun g => g.sections.map fun s => (g, s)) := by
    rw [← hrows, Sheet.rows, hgroups]
    simp [hsections]
  obtain ⟨rfl, -, rfl⟩ :=
    (List.append_cons_inj_of_notMem hnodup.1.1 hnodup.1.2).mp hsplit
  simp [Sheet.outline, Sheet.Context.fill, List.map_flatMap]
  rfl

/-- **What was set is read again.**  Of a document that was read a value is set at a path that is
the name of no section, and the document is written.  What is written is read, and has the value
at the path.  Apart from the entries of the first section on the path, it says what the document
said at first, generated names included; and of these entries no other one has changed. -/
theorem get_set_of_parse {source : Text} {a : Text} (hparse : parse source = .ok d)
    (hset : (Change.set path v).edit.run d = (.ok a, d₁)) (hno : d.NoSection path) :
    ∃ d₂, parse d₁.print = .ok d₂ ∧ d₂.get path = .ok (v ++ ['\n']) ∧ d₂.package = d.package ∧
      ∃ os n front x back, d.outline = os.map .ok ∧ SplitsAt os path n front x back ∧
        d₂.outline = (front ++ { x with entries := assign n v x.entries } :: back).map .ok := by
  have hb : d.Built OnIssued := (replayed_of_parse hparse).mono fun _ _ hop => hop.1
  have hw := hb.wellFormed
  have ht := hb.tidy fun _ _ hop => hop
  -- the first section on the path, and its place on the sheet
  obtain ⟨⟨⟩, d', hrun, hpure⟩ := Edit.run_bind_eq_ok_iff.mp hset
  obtain rfl : d' = d₁ := congrArg Prod.snd hpure
  obtain ⟨⟨s, n⟩, _, hread, -⟩ := Edit.run_bind_eq_ok_iff.mp hrun
  obtain ⟨hquery, -⟩ := Edit.run_read_eq_ok_iff.mp hread
  obtain ⟨hcheck, o, hfirst⟩ := (queryEntry_eq_ok_iff hw ht).mp hquery
  obtain ⟨before, g, X, behind, hrows, rfl, rfl, hsplits⟩ := splitsAt_of_firstOnPath hw ht hfirst
  obtain ⟨c, hfill, htype, houtline⟩ := exists_fill hw hrows
  have hshows : d.Shows (c.fill X) := ⟨built_of_parse hparse, hfill⟩
  obtain ⟨es, hshows₁, hc₁, hes⟩ := setByPath_shows hshows (consecutive_of_parse hparse)
    (sectionName_of_find hw ht hfirst.found) hquery hrun
  -- the document that is read says what was written
  have hb₁ : d'.Built OnIssued := by
    have hchange := hb.change (.set path v)
    rwa [hset] at hchange
  obtain ⟨d₂, hparse₂, hpackage, hgroups⟩ := hc₁.reload hb₁
  have hb₂ : d₂.Built OnIssued := (replayed_of_parse hparse₂).mono fun _ _ hop => hop.1
  have hsays : Sheet.Section.outline g.type { X with entries := es } =
      { X.outline g.type with entries := assign n v (X.outline g.type).entries } :=
    congrArg (SectionOutline.mk g.type X.name) hes
  have houtline₂ : d₂.sheet.outline = (c.fill { X with entries := es }).outline := by
    rw [Sheet.outline_eq, hgroups, ← Sheet.outline_eq, hshows₁.sheet_eq]
  rw [houtline, hsays] at houtline₂
  have hsplits₂ := hsplits.replace
    (y := { X.outline g.type with entries := assign n v (X.outline g.type).entries }) rfl
  refine ⟨d₂, hparse₂, ?_, ?_, ?_⟩
  · have hnames := (noSection_iff_outline hw ht).mp hno
    rw [hsplits.split] at hnames
    rw [← houtline₂] at hsplits₂
    refine get_of_splitsAt hb₂ hcheck ?_ hsplits₂ (mem_assign ..)
    rw [houtline₂]
    obtain ⟨hfront, hback⟩ := List.forall_mem_append.mp hnames
    obtain ⟨hX, hback⟩ := List.forall_mem_cons.mp hback
    exact List.forall_mem_append.mpr ⟨hfront, List.forall_mem_cons.mpr ⟨hX, hback⟩⟩
  · have hsame : d'.sheet.package = d.sheet.package := by rw [hshows₁.sheet_eq, hfill]; rfl
    exact hpackage.trans hsame
  · refine ⟨_, n, _, _, _, outline_eq_sheet hw ht, hsplits, ?_⟩
    rw [outline_eq_sheet hb₂.wellFormed (hb₂.tidy fun _ _ hop => hop), houtline₂]

/-- A list makes way for an option, in a section whose name has a dot; the value has a quote. -/
theorem get_set_of_list :
    let d := empty.play [.addSection 0 "t".toList none, .addSection 0 "t".toList (some "a.b".toList),
      .addList 4 "l".toList, .addElement 5 "1".toList, .addOption 4 "o".toList "2".toList]
    let d₁ := ((Change.set "a.b.l".toList "it's".toList).edit.run d).2
    parse "config t\nconfig t a.b\n list l 1\n option o 2".toList = .ok d ∧
      (Change.set "a.b.l".toList "it's".toList).edit.run d = (.ok [], d₁) ∧
      d.NoSection "a.b.l".toList ∧
      ∃ d₂, parse d₁.print = .ok d₂ ∧ d₂.get "a.b.l".toList = .ok ("it's".toList ++ ['\n']) ∧
        d₂.package = d.package ∧
        ∃ os n front x back, d.outline = os.map .ok ∧
          SplitsAt os "a.b.l".toList n front x back ∧
          d₂.outline =
            (front ++ { x with entries := assign n "it's".toList x.entries } :: back).map .ok := by
  intro d d₁
  have hparse : parse "config t\nconfig t a.b\n list l 1\n option o 2".toList = .ok d := by
    decide +kernel
  have hset : (Change.set "a.b.l".toList "it's".toList).edit.run d = (.ok [], d₁) := by
    decide +kernel
  have hb := replayed_of_parse hparse
  have hno : d.NoSection "a.b.l".toList :=
    (noSection_iff_outline hb.wellFormed (hb.tidy fun _ _ hop => hop.1)).mpr (by decide +kernel)
  exact ⟨hparse, hset, hno, get_set_of_parse hparse hset hno⟩

end Document

end Uci
