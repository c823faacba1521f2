import Mathlib.Data.List.Find
import Uci.Proofs.Document.Sheet

/-!
# Edits of documents are edits of sheets

An accepted operation changes an arena at few places and leaves lists of children behind
that still name removed nodes.  On the sheet it does what one would expect, and nothing
else.  A change at one level of the sheet is followed upwards: the levels above are the
same as before, up to what they hold.

## Main results

* `sheet_mapGroups`, `sheet_mapSections`, `sheet_mapEntries` — a change that is made at
  one level of the arena is made there on the sheet.
* `Accepts.sheet` — **every accepted operation but the change of a type** is the edit of
  the sheet that `Sheet.edited` says.
-/

namespace Uci

namespace Arena

variable {a b : Arena} {g h k p s x : Handle} {c : Content}

/-! ### Kinds of live nodes -/

/-- The kind of a node is one that may hang below the kind of its parent. -/
theorem WellFormed.mayHold_of_mem (hw : a.WellFormed) (hx : x ∈ a.liveChildren p) {kp : NodeKind}
    (hp : a.kind? p = some kp) : ∃ kx, a.kind? x = some kx ∧ kp.mayHold kx = true := by
  obtain ⟨kp', kx, hkp, hkx, hold⟩ := hw.parent_holds x p (hw.mem_liveChildren_iff.mp hx)
  rw [hp] at hkp
  cases hkp
  exact ⟨kx, hkx, hold⟩

/-- Below a section hang options and lists. -/
theorem WellFormed.kind?_of_mem_entries (hw : a.WellFormed) (hs : a.kind? s = some .section)
    (hx : x ∈ a.liveChildren s) : a.kind? x = some .option ∨ a.kind? x = some .list := by
  obtain ⟨kx, hkx, hold⟩ := hw.mayHold_of_mem hx hs
  rw [hkx]
  cases kx <;> first | exact Or.inl rfl | exact Or.inr rfl | cases hold

/-- Below a list hang elements. -/
theorem WellFormed.kind?_of_mem_elements (hw : a.WellFormed) (hs : a.kind? s = some .list)
    (hx : x ∈ a.liveChildren s) : a.kind? x = some .element := by
  obtain ⟨kx, hkx, hold⟩ := hw.mayHold_of_mem hx hs
  rw [hkx]
  cases kx <;> first | rfl | cases hold

/-- Below a group hang sections. -/
theorem WellFormed.kind?_of_mem_sections (hw : a.WellFormed) (ht : a.Tidy)
    (hg : a.kind? g = some .sectionType) (hx : x ∈ a.liveChildren g) :
    a.kind? x = some .section :=
  ht.kind_section x g (hw.mem_liveChildren_iff.mp hx) hg

/-! ### What a part of the sheet depends on -/

/-- The part of the sheet for a list depends on its elements, that for an option on its
value. -/
theorem sheetBody_congr (hk : b.kind? x = a.kind? x) (hv : b.value? x = a.value? x)
    (hl : b.liveChildren x = a.liveChildren x)
    (he : ∀ e ∈ a.liveChildren x, a.kind? x = some .list → b.value? e = a.value? e) :
    b.sheetBody x = a.sheetBody x := by
  unfold sheetBody
  rw [hk, hv, hl]
  split
  · next hlist =>
    refine congrArg Sheet.Body.list (List.map_congr_left ?_)
    intro e hm
    simp only [sheetElement, he e hm hlist]
  · rfl

/-- What an entry holds does not depend on names. -/
theorem sheetBody_withName (a : Arena) (h x : Handle) (n : Text) :
    (a.modifyContent h (·.withName n)).sheetBody x = a.sheetBody x :=
  sheetBody_congr (kind?_modifyContent (Content.kind_withName n) _ _ _) (value?_withName ..)
    (liveChildren_modifyContent ..) fun _ _ _ => value?_withName ..

theorem sheetSection_mapEntries {F : Sheet.Entry → Sheet.Entry} (hn : b.name? s = a.name? s)
    (hl : b.liveChildren s = a.liveChildren s)
    (he : ∀ x ∈ a.liveChildren s, b.sheetEntry x = F (a.sheetEntry x)) :
    b.sheetSection s = (a.sheetSection s).mapEntries F := by
  simp only [sheetSection, Sheet.Section.mapEntries, hn, hl, List.map_map]
  rw [List.map_congr_left he]
  rfl

theorem sheetGroup_mapSections {F : Sheet.Section → Sheet.Section} (hn : b.name? g = a.name? g)
    (hl : b.liveChildren g = a.liveChildren g)
    (he : ∀ s ∈ a.liveChildren g, b.sheetSection s = F (a.sheetSection s)) :
    b.sheetGroup g = (a.sheetGroup g).mapSections F := by
  simp only [sheetGroup, Sheet.Group.mapSections, hn, hl, List.map_map]
  rw [List.map_congr_left he]
  rfl

/-! ### What a new node leaves alone -/

theorem value?_hang (hp : p < a.size) (c : Content) (k : Handle) :
    (a.hang p c).value? k = if k = a.size then c.value else a.value? k := by
  rw [value?_eq, value?_eq, content?_hang hp]
  split <;> rfl

theorem sheetElement_hang (hp : p < a.size) (hx : x < a.size) (c : Content) :
    (a.hang p c).sheetElement x = a.sheetElement x := by
  simp only [sheetElement, value?_hang hp, if_neg (Nat.ne_of_lt hx)]

/-- An entry that is not the parent of the new node stays what it was. -/
theorem sheetEntry_hang (hw : a.WellFormed) (hp : p < a.size) (hx : x < a.size) (hxp : x ≠ p)
    (c : Content) : (a.hang p c).sheetEntry x = a.sheetEntry x := by
  have hne := Nat.ne_of_lt hx
  have hl : (a.hang p c).liveChildren x = a.liveChildren x := by
    rw [liveChildren_hang hp (hw.child_lt x), if_neg hxp]
  have hbody : (a.hang p c).sheetBody x = a.sheetBody x := by
    refine sheetBody_congr ?_ ?_ hl ?_
    · rw [kind?_hang hp, if_neg hne]
    · rw [value?_hang hp, if_neg hne]
    · intro e he _
      rw [value?_hang hp, if_neg (Nat.ne_of_lt (hw.child_lt x e (mem_liveChildren.mp he).1))]
  simp only [sheetEntry, name?_hang hp, if_neg hne, hbody]

/-- A section that is not the parent of the new node, and has no part in it, stays what it
was. -/
theorem sheetSection_hang (hw : a.WellFormed) (hp : p < a.size) (hs : s < a.size) (hsp : s ≠ p)
    (hent : ∀ x ∈ a.liveChildren s, x ≠ p) (c : Content) :
    (a.hang p c).sheetSection s = a.sheetSection s := by
  have hl : (a.hang p c).liveChildren s = a.liveChildren s := by
    rw [liveChildren_hang hp (hw.child_lt s), if_neg hsp]
  have hmap : (a.liveChildren s).map (a.hang p c).sheetEntry =
      (a.liveChildren s).map a.sheetEntry :=
    List.map_congr_left fun x hx =>
      sheetEntry_hang hw hp (hw.child_lt s x (mem_liveChildren.mp hx).1) (hent x hx) c
  simp only [sheetSection, name?_hang hp, if_neg (Nat.ne_of_lt hs), hl, hmap]

/-- A group that is not the parent of the new node, and has no part in it, stays what it
was. -/
theorem sheetGroup_hang (hw : a.WellFormed) (hp : p < a.size) (hg : g < a.size) (hgp : g ≠ p)
    (hsec : ∀ s ∈ a.liveChildren g, s ≠ p ∧ ∀ x ∈ a.liveChildren s, x ≠ p) (c : Content) :
    (a.hang p c).sheetGroup g = a.sheetGroup g := by
  have hl : (a.hang p c).liveChildren g = a.liveChildren g := by
    rw [liveChildren_hang hp (hw.child_lt g), if_neg hgp]
  have hmap : (a.liveChildren g).map (a.hang p c).sheetSection =
      (a.liveChildren g).map a.sheetSection :=
    List.map_congr_left fun s hs => sheetSection_hang hw hp
      (hw.child_lt g s (mem_liveChildren.mp hs).1) (hsec s hs).1 (hsec s hs).2 c
  simp only [sheetGroup, name?_hang hp, if_neg (Nat.ne_of_lt hg), hl, hmap]

/-- Names, values, kinds and live children are all that a sheet is made of. -/
theorem sheetGroup_congr (hn : ∀ x, b.name? x = a.name? x) (hv : ∀ x, b.value? x = a.value? x)
    (hk : ∀ x, b.kind? x = a.kind? x) (hl : ∀ x, b.liveChildren x = a.liveChildren x)
    (g : Handle) : b.sheetGroup g = a.sheetGroup g := by
  have hentry : ∀ x, b.sheetEntry x = a.sheetEntry x := by
    intro x
    simp only [sheetEntry, hn, sheetBody_congr (hk x) (hv x) (hl x) fun e _ _ => hv e]
  have hsection : ∀ x, b.sheetSection x = a.sheetSection x := by
    intro x
    simp only [sheetSection, hn, hl, List.map_congr_left fun e _ => hentry e]
  simp only [sheetGroup, hn, hl, List.map_congr_left fun s _ => hsection s]

/-- The new node has nothing below it. -/
theorem liveChildren_hang_size (hp : p < a.size) (c : Content) :
    (a.hang p c).liveChildren a.size = [] := by
  have hnone : a.children a.size = [] := children_eq_nil (Nat.le_refl _)
  rw [liveChildren_hang hp (by rw [hnone]; nofun), if_neg (Nat.ne_of_gt hp), liveChildren, hnone]
  rfl

end Arena

namespace Document

variable {d d' : Document} {op : Operation} {r : Option Handle} {f : Arena → Arena}

/-! ### A change at one level -/

theorem sheet_mapGroups {F : Sheet.Group → Sheet.Group}
    (hl : (f d.arena).liveChildren 1 = d.arena.liveChildren 1)
    (hg : ∀ g ∈ d.arena.liveChildren 1, (f d.arena).sheetGroup g = F (d.arena.sheetGroup g)) :
    (d.mapArena f).sheet = d.sheet.mapGroups F := by
  simp only [sheet, Sheet.mapGroups, mapArena, hl, List.map_map]
  rw [List.map_congr_left hg]
  rfl

theorem sheet_mapSections (hw : d.arena.WellFormed) (ht : d.arena.Tidy)
    {F : Sheet.Section → Sheet.Section}
    (hl : (f d.arena).liveChildren 1 = d.arena.liveChildren 1)
    (hg : ∀ g, d.arena.kind? g = some .sectionType →
      (f d.arena).liveChildren g = d.arena.liveChildren g ∧ (f d.arena).name? g = d.arena.name? g)
    (hs : ∀ s, d.arena.kind? s = some .section →
      (f d.arena).sheetSection s = F (d.arena.sheetSection s)) :
    (d.mapArena f).sheet = d.sheet.mapGroups (·.mapSections F) := by
  refine sheet_mapGroups hl ?_
  intro g hm
  have hk := hw.kind?_of_mem_groups hm
  obtain ⟨hlg, hng⟩ := hg g hk
  exact Arena.sheetGroup_mapSections hng hlg fun s hms => hs s (hw.kind?_of_mem_sections ht hk hms)

theorem sheet_mapEntries (hw : d.arena.WellFormed) (ht : d.arena.Tidy)
    {F : Sheet.Entry → Sheet.Entry}
    (hl : (f d.arena).liveChildren 1 = d.arena.liveChildren 1)
    (hg : ∀ g, d.arena.kind? g = some .sectionType ∨ d.arena.kind? g = some .section →
      (f d.arena).liveChildren g = d.arena.liveChildren g ∧ (f d.arena).name? g = d.arena.name? g)
    (he : ∀ x, d.arena.kind? x = some .option ∨ d.arena.kind? x = some .list →
      (f d.arena).sheetEntry x = F (d.arena.sheetEntry x)) :
    (d.mapArena f).sheet = d.sheet.mapGroups (·.mapSections (·.mapEntries F)) := by
  refine sheet_mapSections hw ht hl (fun g hk => hg g (Or.inl hk)) ?_
  intro s hk
  obtain ⟨hls, hns⟩ := hg s (Or.inr hk)
  exact Arena.sheetSection_mapEntries hns hls fun x hx => he x (hw.kind?_of_mem_entries hk hx)

/-! ### Setters -/

section Setters

variable {h : Handle} (hw : d.arena.WellFormed) (ht : d.arena.Tidy)
include hw ht

theorem sheet_setOptionValue (hk : d.arena.kind? h = some .option) (v : Text) :
    (d.mapArena (·.modifyContent h (·.withValue v))).sheet = d.sheet.onEntry h (·.withValue v) := by
  refine sheet_mapEntries hw ht (Arena.liveChildren_modifyContent ..)
    (fun g _ => ⟨Arena.liveChildren_modifyContent .., Arena.name?_withValue ..⟩) fun x hx => ?_
  have hname := Arena.name?_withValue d.arena h v x
  by_cases hxh : x = h
  · -- the option itself
    subst hxh
    have hnolist : d.arena.kind? x ≠ some .list := by rw [hk]; nofun
    have hvalue := Arena.value?_withValue_self hk (Or.inl rfl) v
    simp [Arena.sheetEntry, Arena.sheetBody, Sheet.Entry.withValue, hname, hnolist,
      Arena.kind?_modifyContent (Content.kind_withValue v), hvalue]
  · have hbody : (d.arena.modifyContent h (·.withValue v)).sheetBody x = d.arena.sheetBody x := by
      refine Arena.sheetBody_congr (Arena.kind?_modifyContent (Content.kind_withValue v) _ _ _) ?_
        (Arena.liveChildren_modifyContent ..) fun e he hlist => ?_
      · rw [Arena.value?_modifyContent, if_neg hxh]
      · -- the elements of a list are no options
        have heh : e ≠ h := Arena.ne_of_kind? (hw.kind?_of_mem_elements hlist he) hk (by nofun)
        rw [Arena.value?_modifyContent, if_neg heh]
    simp [Arena.sheetEntry, hname, hbody, hxh]

theorem sheet_setEntryName (hk : d.arena.kind? h = some .option ∨ d.arena.kind? h = some .list)
    (n : Text) :
    (d.mapArena (·.modifyContent h (·.withName n))).sheet =
      d.sheet.onEntry h ({ · with name := n }) := by
  refine sheet_mapEntries hw ht (Arena.liveChildren_modifyContent ..) (fun g hg => ⟨
    Arena.liveChildren_modifyContent .., ?_⟩) ?_
  · have hgh : g ≠ h := by
      rcases hk with hk | hk
      · exact Arena.ne_of_kind?_or hg hk (by nofun) (by nofun)
      · exact Arena.ne_of_kind?_or hg hk (by nofun) (by nofun)
    rw [Arena.name?_modifyContent, if_neg hgh]
  · -- what the entry holds stays, and so do all names but one
    intro x hx
    have hbody := Arena.sheetBody_withName d.arena h x n
    have hname := Arena.name?_withName_entry hk n x
    by_cases hxh : x = h
    · subst hxh
      rw [if_pos rfl] at hname
      simp [Arena.sheetEntry, hbody, hname]
    · rw [if_neg hxh] at hname
      simp [Arena.sheetEntry, hbody, hname, hxh]

theorem sheet_setElementValue (hk : d.arena.kind? h = some .element) (v : Text) :
    (d.mapArena (·.modifyContent h (·.withValue v))).sheet =
      d.sheet.onElement h ({ · with value := v }) := by
  refine sheet_mapEntries hw ht (Arena.liveChildren_modifyContent ..)
    (fun g _ => ⟨Arena.liveChildren_modifyContent .., Arena.name?_withValue ..⟩) fun x hx => ?_
  -- the change is one level below the entries
  have hxh : x ≠ h := Arena.ne_of_kind?_or hx hk (by nofun) (by nofun)
  have hvalue : ∀ e, (d.arena.modifyContent h (·.withValue v)).value? e =
      if e = h then some v else d.arena.value? e := by
    intro e
    by_cases heh : e = h
    · subst heh
      rw [Arena.value?_withValue_self hk (Or.inr rfl), if_pos rfl]
    · rw [Arena.value?_modifyContent, if_neg heh, if_neg heh]
  have helement : ∀ e, (d.arena.modifyContent h (·.withValue v)).sheetElement e =
      if e = h then { d.arena.sheetElement e with value := v } else d.arena.sheetElement e := by
    intro e
    simp only [Arena.sheetElement, hvalue]
    split <;> rfl
  by_cases hlist : d.arena.kind? x = some .list
  · simp only [Arena.sheetEntry, Arena.sheetBody, Sheet.Entry.mapElements, Arena.name?_withValue,
      Arena.kind?_modifyContent (Content.kind_withValue v), hlist, if_true,
      Arena.liveChildren_modifyContent, List.map_map]
    congr 2
    exact List.map_congr_left fun e _ => helement e
  · simp [Arena.sheetEntry, Arena.sheetBody, Sheet.Entry.mapElements, Arena.name?_withValue,
      Arena.kind?_modifyContent (Content.kind_withValue v), hlist, hvalue, hxh]

theorem sheet_setSectionName (hk : d.arena.kind? h = some .section) (n : Text) :
    (d.mapArena (·.modifyContent h (·.withName n))).sheet =
      d.sheet.onSection h ({ · with name := n }) := by
  refine sheet_mapSections hw ht (Arena.liveChildren_modifyContent ..) (fun g hg => ⟨
    Arena.liveChildren_modifyContent .., ?_⟩) ?_
  · have hgh : g ≠ h := Arena.ne_of_kind? hg hk (by nofun)
    rw [Arena.name?_modifyContent, if_neg hgh]
  · -- the entries of every section stay, since none of them is a section
    intro s hs
    have hentry : ∀ x ∈ d.arena.liveChildren s,
        (d.arena.modifyContent h (·.withName n)).sheetEntry x = d.arena.sheetEntry x := by
      intro x hx
      have hxh : x ≠ h :=
        Arena.ne_of_kind?_or (hw.kind?_of_mem_entries hs hx) hk (by nofun) (by nofun)
      simp only [Arena.sheetEntry, Arena.sheetBody_withName, Arena.name?_modifyContent, if_neg hxh]
    have hmap := List.map_congr_left hentry
    by_cases hsh : s = h
    · subst hsh
      have hname := Arena.name?_withName_self hk (Or.inr (Or.inl rfl)) n
      simp [Arena.sheetSection, hname, hmap]
    · simp [Arena.sheetSection, Arena.name?_modifyContent, hmap, hsh]

end Setters

/-! ### Additions -/

section Additions

variable {p : Handle} (hw : d.arena.WellFormed) (ht : d.arena.Tidy)
include hw ht

theorem sheet_addElement (hk : d.arena.kind? p = some .list) (v : Text) :
    (d.mapArena (·.hang p (.element (some v)))).sheet =
      d.sheet.addElement p ⟨d.allocated, v⟩ := by
  have hp := Arena.lt_size_of_kind? hk
  refine sheet_mapEntries hw ht ?_ ?_ ?_
  · have h1p : 1 ≠ p := Arena.ne_of_kind? hw.kind_config hk (by nofun)
    rw [Arena.liveChildren_hang hp (hw.child_lt 1), if_neg h1p]
  · intro g hg
    have hgp : g ≠ p := Arena.ne_of_kind?_or hg hk (by nofun) (by nofun)
    have hlt : g < d.arena.size := by
      rcases hg with hg | hg <;> exact Arena.lt_size_of_kind? hg
    rw [Arena.liveChildren_hang hp (hw.child_lt g), if_neg hgp, Arena.name?_hang hp,
      if_neg (Nat.ne_of_lt hlt)]
    exact ⟨rfl, rfl⟩
  · intro x hx
    have hlt : x < d.arena.size := by
      rcases hx with hx | hx <;> exact Arena.lt_size_of_kind? hx
    by_cases hxp : x = p
    · subst hxp
      have hold : (d.arena.liveChildren x).map (d.arena.hang x (.element (some v))).sheetElement =
          (d.arena.liveChildren x).map d.arena.sheetElement :=
        List.map_congr_left fun e he => Arena.sheetElement_hang hp
          (hw.child_lt x e (Arena.mem_liveChildren.mp he).1) _
      have hnew : (d.arena.hang x (.element (some v))).sheetElement d.arena.size =
          ⟨d.allocated, v⟩ := by
        simp only [Arena.sheetElement, Arena.value?_hang hp, if_pos]
        rfl
      simp only [Arena.sheetEntry, Arena.sheetBody, Arena.name?_hang hp, Arena.kind?_hang hp,
        if_neg (Nat.ne_of_lt hlt), hk, if_true, Arena.liveChildren_hang hp (hw.child_lt x),
        List.map_append, hold, List.map_cons, List.map_nil, hnew]
    · -- any other entry has no part in the new node
      rw [Arena.sheetEntry_hang hw hp hlt hxp,
        if_neg (show (d.arena.sheetEntry x).handle ≠ p from hxp)]

/-- An option or an empty list comes in at the end of its section. -/
theorem sheet_addEntry (hk : d.arena.kind? p = some .section) {c : Content} {e : Sheet.Entry}
    (he : (d.arena.hang p c).sheetEntry d.arena.size = e) :
    (d.mapArena (·.hang p c)).sheet = d.sheet.addEntry p e := by
  have hp := Arena.lt_size_of_kind? hk
  refine sheet_mapSections hw ht ?_ ?_ ?_
  · have h1p : 1 ≠ p := Arena.ne_of_kind? hw.kind_config hk (by nofun)
    rw [Arena.liveChildren_hang hp (hw.child_lt 1), if_neg h1p]
  · intro g hg
    have hgp : g ≠ p := Arena.ne_of_kind? hg hk (by nofun)
    rw [Arena.liveChildren_hang hp (hw.child_lt g), if_neg hgp, Arena.name?_hang hp,
      if_neg (Nat.ne_of_lt (Arena.lt_size_of_kind? hg))]
    exact ⟨rfl, rfl⟩
  · intro s hs
    have hlt := Arena.lt_size_of_kind? hs
    have hent : ∀ x ∈ d.arena.liveChildren s, x ≠ p := by
      intro x hx
      exact Arena.ne_of_kind?_or (hw.kind?_of_mem_entries hs hx) hk (by nofun) (by nofun)
    by_cases hsp : s = p
    · -- the entries that were there stay, and the new one follows them
      subst hsp
      have hold : (d.arena.liveChildren s).map (d.arena.hang s c).sheetEntry =
          (d.arena.liveChildren s).map d.arena.sheetEntry :=
        List.map_congr_left fun x hx => Arena.sheetEntry_hang hw hp
          (hw.child_lt s x (Arena.mem_liveChildren.mp hx).1) (hent x hx) c
      simp only [Arena.sheetSection, Arena.name?_hang hp, if_neg (Nat.ne_of_lt hlt),
        Arena.liveChildren_hang hp (hw.child_lt s), if_true, List.map_append, hold,
        List.map_cons, List.map_nil, he]
    · rw [Arena.sheetSection_hang hw hp hlt hsp hent,
        if_neg (show (d.arena.sheetSection s).handle ≠ p from hsp)]

theorem sheet_addOption (hk : d.arena.kind? p = some .section) (n v : Text) :
    (d.mapArena (·.hang p (.option (some n) (some v)))).sheet =
      d.sheet.addEntry p ⟨d.allocated, n, .option v⟩ := by
  have hp := Arena.lt_size_of_kind? hk
  refine sheet_addEntry hw ht hk ?_
  simp only [Arena.sheetEntry, Arena.sheetBody, Arena.name?_hang hp, Arena.kind?_hang hp,
    Arena.value?_hang hp, if_pos]
  rfl

theorem sheet_addList (hk : d.arena.kind? p = some .section) (n : Text) :
    (d.mapArena (·.hang p (.list (some n)))).sheet =
      d.sheet.addEntry p ⟨d.allocated, n, .list []⟩ := by
  have hp := Arena.lt_size_of_kind? hk
  refine sheet_addEntry hw ht hk ?_
  simp only [Arena.sheetEntry, Arena.sheetBody, Arena.name?_hang hp, Arena.kind?_hang hp,
    Arena.liveChildren_hang_size hp, if_pos]
  rfl

/-- A section comes in at the end of its group. -/
private theorem sheet_hang_section (hk : d.arena.kind? p = some .sectionType) (n : Text) :
    (d.mapArena (·.hang p (.section (some n)))).sheet =
      d.sheet.onGroup p fun g => { g with sections := g.sections ++ [⟨d.allocated, n, []⟩] } := by
  have hp := Arena.lt_size_of_kind? hk
  -- no node of the levels below is a group
  have hnogroup : ∀ g, d.arena.kind? g = some .sectionType → ∀ s ∈ d.arena.liveChildren g,
      s ≠ p ∧ ∀ x ∈ d.arena.liveChildren s, x ≠ p := by
    intro g hg s hs
    have hks := hw.kind?_of_mem_sections ht hg hs
    refine ⟨Arena.ne_of_kind? hks hk (by nofun), ?_⟩
    intro x hx
    exact Arena.ne_of_kind?_or (hw.kind?_of_mem_entries hks hx) hk (by nofun) (by nofun)
  refine sheet_mapGroups ?_ ?_
  · have h1p : 1 ≠ p := Arena.ne_of_kind? hw.kind_config hk (by nofun)
    rw [Arena.liveChildren_hang hp (hw.child_lt 1), if_neg h1p]
  · intro g hm
    have hg := hw.kind?_of_mem_groups hm
    have hlt := Arena.lt_size_of_kind? hg
    by_cases hgp : g = p
    · subst hgp
      have hold : (d.arena.liveChildren g).map (d.arena.hang g (.section (some n))).sheetSection =
          (d.arena.liveChildren g).map d.arena.sheetSection :=
        List.map_congr_left fun s hs => Arena.sheetSection_hang hw hp
          (hw.child_lt g s (Arena.mem_liveChildren.mp hs).1) (hnogroup g hg s hs).1
          (hnogroup g hg s hs).2 _
      have hnew : (d.arena.hang g (.section (some n))).sheetSection d.arena.size =
          ⟨d.allocated, n, []⟩ := by
        simp only [Arena.sheetSection, Arena.name?_hang hp, Arena.liveChildren_hang_size hp, if_pos]
        rfl
      simp only [Arena.sheetGroup, Arena.name?_hang hp, if_neg (Nat.ne_of_lt hlt),
        Arena.liveChildren_hang hp (hw.child_lt g), if_true, List.map_append, hold,
        List.map_cons, List.map_nil, hnew]
    · rw [Arena.sheetGroup_hang hw hp hlt hgp (hnogroup g hg),
        if_neg (show (d.arena.sheetGroup g).handle ≠ p from hgp)]

omit hw ht in
/-- A counter is not on the sheet. -/
theorem sheet_withCounter (d : Document) (g : Handle) (k : Nat) :
    (d.mapArena (·.modifyContent g (·.withCounter k))).sheet = d.sheet := by
  have hgroup := Arena.sheetGroup_congr (a := d.arena)
    (b := d.arena.modifyContent g (·.withCounter k))
    (fun x => by rw [Arena.name?_modifyContent, Arena.name?_eq]; simp)
    (fun x => by rw [Arena.value?_modifyContent, Arena.value?_eq]; simp)
    (Arena.kind?_modifyContent (Content.kind_withCounter k) _ _)
    (Arena.liveChildren_modifyContent _ _ _)
  simp only [sheet, arena_mapArena, package_mapArena, Arena.liveChildren_modifyContent,
    List.map_congr_left fun g _ => hgroup g]

/-- A section comes in at the end of its group, with the name it will have. -/
theorem sheet_hangSection (hk : d.arena.kind? p = some .sectionType) (type : Text)
    (name : Option Text) :
    (d.mapArena (·.hangSection p type name)).sheet =
      d.sheet.onGroup p fun g => { g with
        sections := g.sections ++
          [⟨d.allocated, name.getD (generatedName type (d.arena.counter p)), []⟩] } := by
  cases name with
  | some n => exact sheet_hang_section hw ht hk n
  | none =>
    let bump : Arena → Arena := (·.modifyContent p (·.withCounter (d.arena.counter p + 1)))
    have hw' : (d.mapArena bump).arena.WellFormed := hw.modifyContent (Content.kind_withCounter _) p
    have ht' : (d.mapArena bump).arena.Tidy :=
      ht.modifyContent (Content.kind_withCounter _) (fun _ hc => hc.withCounter _) p
    have hk' : (d.mapArena bump).arena.kind? p = some .sectionType :=
      (Arena.kind?_modifyContent (Content.kind_withCounter _) _ _ _).trans hk
    have hsize : (d.mapArena bump).allocated = d.allocated := Arena.size_modifyContent ..
    have key := sheet_hang_section hw' ht' hk' (generatedName type (d.arena.counter p))
    rw [sheet_withCounter, hsize] at key
    exact key

/-- A group comes in at the end, and is empty. -/
theorem sheet_addGroup (type : Text) :
    (d.mapArena (·.hang 1 (.sectionType (some type) 0))).sheet =
      { d.sheet with groups := d.sheet.groups ++ [⟨d.allocated, type, []⟩] } := by
  have hp := hw.one_lt_size
  have hne : ∀ {x : Handle} {k : NodeKind}, d.arena.kind? x = some k → k ≠ .config → x ≠ 1 :=
    fun hk hconfig => Arena.ne_of_kind? hk hw.kind_config hconfig
  have hold : (d.arena.liveChildren 1).map
      (d.arena.hang 1 (.sectionType (some type) 0)).sheetGroup =
        (d.arena.liveChildren 1).map d.arena.sheetGroup := by
    -- the configuration is no node of the levels below it
    apply List.map_congr_left
    intro g hm
    have hg := hw.kind?_of_mem_groups hm
    refine Arena.sheetGroup_hang hw hp (Arena.lt_size_of_kind? hg) (hne hg (by nofun)) ?_ _
    intro s hs
    have hks := hw.kind?_of_mem_sections ht hg hs
    refine ⟨hne hks (by nofun), ?_⟩
    intro x hx
    rcases hw.kind?_of_mem_entries hks hx with hx | hx
    · exact hne hx (by nofun)
    · exact hne hx (by nofun)
  have hnew : (d.arena.hang 1 (.sectionType (some type) 0)).sheetGroup d.arena.size =
      ⟨d.allocated, type, []⟩ := by
    simp only [Arena.sheetGroup, Arena.name?_hang hp, Arena.liveChildren_hang_size hp, if_pos]
    rfl
  simp only [sheet, arena_mapArena, package_mapArena, Arena.liveChildren_hang hp (hw.child_lt 1),
    if_true, List.map_append, hold, List.map_cons, List.map_nil, hnew]

end Additions

/-! ### Removal -/

/-- The levels below a removed node go with it, and nothing else does. -/
theorem sheet_remove (d : Document) (h : Handle) :
    (d.mapArena (·.detach h)).sheet = d.sheet.remove h := by
  have hname : ∀ x, (d.arena.detach h).name? x = d.arena.name? x := by
    intro x
    rw [Arena.name?_eq, Arena.name?_eq, Arena.content?_detach]
  have hvalue : ∀ x, (d.arena.detach h).value? x = d.arena.value? x := by
    intro x
    rw [Arena.value?_eq, Arena.value?_eq, Arena.content?_detach]
  have helement : ∀ x, (d.arena.detach h).sheetElement x = d.arena.sheetElement x := by
    intro x
    simp only [Arena.sheetElement, hvalue]
  -- level by level, what is filtered out in the arena is filtered out on the sheet
  have hentry : ∀ x, (d.arena.detach h).sheetEntry x = (d.arena.sheetEntry x).remove h := by
    intro x
    by_cases hlist : d.arena.kind? x = some .list
    · simp only [Arena.sheetEntry, Arena.sheetBody, Sheet.Entry.remove, hname, hlist,
        Arena.kind?_detach, Arena.liveChildren_detach, if_true, List.filter_map]
      congr 2
      exact List.map_congr_left fun e _ => helement e
    · simp [Arena.sheetEntry, Arena.sheetBody, Sheet.Entry.remove, hname, hlist, hvalue]
  have hsection : ∀ x, (d.arena.detach h).sheetSection x = (d.arena.sheetSection x).remove h := by
    intro x
    simp only [Arena.sheetSection, Sheet.Section.remove, hname, Arena.liveChildren_detach,
      List.filter_map, List.map_map]
    congr 1
    exact List.map_congr_left fun e _ => hentry e
  have hgroup : ∀ x, (d.arena.detach h).sheetGroup x = (d.arena.sheetGroup x).remove h := by
    intro x
    simp only [Arena.sheetGroup, Sheet.Group.remove, hname, Arena.liveChildren_detach,
      List.filter_map, List.map_map]
    congr 1
    exact List.map_congr_left fun s _ => hsection s
  simp only [sheet, Sheet.remove, arena_mapArena, package_mapArena, Arena.liveChildren_detach,
    List.filter_map, List.map_map]
  congr 1
  exact List.map_congr_left fun g _ => hgroup g

/-- An entry is taken out of its section, and nothing is below it that would be anywhere else. -/
theorem sheet_removeEntry (hw : d.arena.WellFormed) (ht : d.arena.Tidy) {h : Handle}
    (hk : d.arena.kind? h = some .option ∨ d.arena.kind? h = some .list) :
    (d.mapArena (·.detach h)).sheet = d.sheet.mapGroups (·.mapSections (·.without h)) := by
  have hname : ∀ x, (d.arena.detach h).name? x = d.arena.name? x := fun x => by
    rw [Arena.name?_eq, Arena.name?_eq, Arena.content?_detach]
  have hvalue : ∀ x, (d.arena.detach h).value? x = d.arena.value? x := fun x => by
    rw [Arena.value?_eq, Arena.value?_eq, Arena.content?_detach]
  -- only a section can have lost a child
  have hlive : ∀ p, d.arena.kind? p ≠ some .section →
      (d.arena.detach h).liveChildren p = d.arena.liveChildren p := by
    intro p hp
    rw [Arena.liveChildren_detach]
    refine List.filter_eq_self.mpr fun x hx => decide_eq_true ?_
    rintro rfl
    have hpar := hw.mem_liveChildren_iff.mp hx
    obtain ⟨kp, kx, hkp, hkx, hold⟩ := hw.parent_holds x p hpar
    cases kp with
    | «section» => exact hp hkp
    | sectionType =>
      have hsection := ht.kind_section x p hpar hkp
      rcases hk with hk | hk <;> cases hk.symm.trans hsection
    | _ => rcases hk with hk | hk <;> rw [hk] at hkx <;> cases hkx <;> cases hold
  refine sheet_mapSections hw ht (hlive 1 (by rw [hw.kind_config]; nofun))
    (fun g hg => ⟨hlive g (by rw [hg]; nofun), hname g⟩) fun s hs => ?_
  have hentry : ∀ x ∈ d.arena.liveChildren s,
      (d.arena.detach h).sheetEntry x = d.arena.sheetEntry x := by
    intro x hx
    have hl : (d.arena.detach h).liveChildren x = d.arena.liveChildren x := by
      apply hlive
      rcases hw.kind?_of_mem_entries hs hx with hkx | hkx <;> rw [hkx] <;> nofun
    simp only [Arena.sheetEntry, hname, Arena.sheetBody_congr (Arena.kind?_detach _ _ _) (hvalue x)
      hl fun e _ _ => hvalue e]
  simp only [Arena.sheetSection, Sheet.Section.without, hname, Arena.liveChildren_detach,
    List.filter_map]
  congr 1
  exact List.map_congr_left fun x hx => hentry x (List.mem_filter.mp hx).1

/-! ### Every operation -/

/-- The number that the next section without a name gets, if it is of the type `type`. -/
def nextNumber (d : Document) (type : Text) : Nat :=
  ((d.arena.childNamed? 1 type).map d.arena.counter).getD 0

/-- What has a place for a name has one. -/
theorem exists_name_of_tidy (ht : d.arena.Tidy) {x : Handle} {k : NodeKind}
    (hk : d.arena.kind? x = some k)
    (hnamed : k = .sectionType ∨ k = .section ∨ k = .option ∨ k = .list) :
    ∃ n, d.arena.name? x = some n := by
  obtain ⟨c, hc, rfl⟩ := Arena.kind?_eq_some_iff.mp hk
  have hcomplete := ht.complete x c hc
  rw [Arena.name?_eq, hc]
  cases c with
  | root => simp [Content.kind] at hnamed
  | config => simp [Content.kind] at hnamed
  | element v => simp [Content.kind] at hnamed
  | option n v => exact Option.isSome_iff_exists.mp hcomplete.1
  | sectionType n k => exact Option.isSome_iff_exists.mp hcomplete
  | «section» n => exact Option.isSome_iff_exists.mp hcomplete
  | list n => exact Option.isSome_iff_exists.mp hcomplete

theorem exists_name_of_entry (ht : d.arena.Tidy) {x : Handle}
    (hk : d.arena.kind? x = some .option ∨ d.arena.kind? x = some .list) :
    ∃ n, d.arena.name? x = some n := by
  rcases hk with hk | hk
  · exact exists_name_of_tidy ht hk (by simp)
  · exact exists_name_of_tidy ht hk (by simp)

/-- The group of a type, on the sheet and in the arena. -/
theorem find?_groups (hw : d.arena.WellFormed) (ht : d.arena.Tidy) (type : Text) :
    d.sheet.groups.find? (·.type = type) =
      (d.arena.childNamed? 1 type).map d.arena.sheetGroup := by
  unfold sheet Arena.childNamed?
  rw [List.find?_map]
  congr 1
  refine List.find?_congr fun g hg => ?_
  obtain ⟨n, hn⟩ := exists_name_of_tidy ht (hw.kind?_of_mem_groups hg) (Or.inl rfl)
  simp [Arena.sheetGroup, hn]

/-- Below an issued handle, an option or a list can only be hung if it is a section. -/
theorem kind?_of_hosts {p : Handle} {k : NodeKind} (hp : d.Hosts p k)
    (hissued : d.Issued p) (hentry : k = .option ∨ k = .list) :
    d.arena.kind? p = some .section := by
  obtain ⟨-, kp, hkp, hold⟩ := hp
  obtain ⟨kp', hkp', hne⟩ := hissued
  rw [hkp] at hkp' ⊢
  cases hkp'
  cases kp with
  | sectionType => exact absurd rfl hne
  | «section» => rfl
  | _ => rcases hentry with rfl | rfl <;> cases hold

theorem kind?_of_hosts_element {p : Handle} (hp : d.Hosts p .element) :
    d.arena.kind? p = some .list := by
  obtain ⟨-, kp, hkp, hold⟩ := hp
  rw [hkp]
  cases kp <;> first | rfl | cases hold

/-- **An accepted operation is an edit of the sheet**, unless it changes a type. -/
theorem Accepts.sheet (hw : d.arena.WellFormed) (ht : d.arena.Tidy) (hop : d.OnIssued op)
    (hretypes : op.retypes = false) (h : d.Accepts op r d') :
    d'.sheet = d.sheet.edited d.allocated d.nextNumber op := by
  cases h with
  | setPackage _ => rfl
  | @addSection h g type name _ _ _ hg _ =>
    have hk := hw.kind?_of_mem_groups (Arena.childNamed?_eq_some hg).1
    have hfind := find?_groups hw ht type
    rw [hg] at hfind
    rw [sheet_hangSection hw ht hk]
    simp only [Sheet.edited, Sheet.addSection, hfind, Option.map_some, nextNumber, hg,
      Option.getD_some]
    rfl
  | @addSectionAndGroup h type name _ _ _ hg =>
    have hfind := find?_groups hw ht type
    rw [hg] at hfind
    -- the group first, then the section in it
    let grow : Arena → Arena := (·.hang 1 (.sectionType (some type) 0))
    have hw₁ : (d.mapArena grow).arena.WellFormed :=
      hw.hang hw.one_lt_size hw.kind_config rfl (by nofun)
    have ht₁ : (d.mapArena grow).arena.Tidy :=
      ht.hang hw hw.one_lt_size (fun hk => by rw [hw.kind_config] at hk; cases hk) rfl
    have hk₁ : (d.mapArena grow).arena.kind? d.arena.size = some .sectionType :=
      (Arena.kind?_hang hw.one_lt_size _ _).trans (if_pos rfl)
    have hcount : (d.mapArena grow).arena.counter d.arena.size = 0 := by
      rw [Arena.counter_eq, arena_mapArena, Arena.content?_hang hw.one_lt_size, if_pos rfl]
      rfl
    have hsize : (d.mapArena grow).allocated = d.allocated + 1 := Arena.size_hang ..
    have key := sheet_hangSection hw₁ ht₁ hk₁ type name
    rw [sheet_addGroup hw ht, hcount, hsize] at key
    have hcomp : (d.mapArena fun a =>
        (a.hang 1 (.sectionType (some type) 0)).hangSection a.size type name) =
          (d.mapArena grow).mapArena (·.hangSection d.arena.size type name) := by
      simp only [mapArena, grow]
    rw [hcomp, key]
    -- no group that was there has the handle of the new one
    have hold : ∀ g ∈ d.sheet.groups, g.handle ≠ d.arena.size := by
      intro g hg
      obtain ⟨x, hx, rfl⟩ := List.mem_map.mp hg
      exact Nat.ne_of_lt (hw.child_lt 1 x (Arena.mem_liveChildren.mp hx).1)
    simp only [Sheet.edited, Sheet.addSection, hfind, Option.map_none, nextNumber, hg,
      Option.getD_none, Sheet.onGroup, Sheet.mapGroups, List.map_append, List.map_cons,
      List.map_nil]
    rw [List.map_congr_left fun g hg => if_neg (hold g hg), List.map_id']
    simp [allocated]
  | addOption hp _ _ =>
    exact sheet_addOption hw ht (kind?_of_hosts hp (hop _ rfl) (Or.inl rfl)) _ _
  | addList hp _ _ => exact sheet_addList hw ht (kind?_of_hosts hp (hop _ rfl) (Or.inr rfl)) _
  | addElement hp => exact sheet_addElement hw ht (kind?_of_hosts_element hp) _
  | remove _ _ _ => exact sheet_remove d _
  | setSectionType _ _ _ => cases hretypes
  | setSectionName hs _ _ => exact sheet_setSectionName hw ht hs.2.1 _
  | setOptionName hh _ _ => exact sheet_setEntryName hw ht (Or.inl hh.2.1) _
  | setListName hh _ _ => exact sheet_setEntryName hw ht (Or.inr hh.2.1) _
  | setOptionValue _ hk => exact sheet_setOptionValue hw ht hk _
  | setElementValue _ hk => exact sheet_setElementValue hw ht hk _

/-- **The answer of an accepted operation** can be told from the sheet. -/
theorem Accepts.answer (hw : d.arena.WellFormed) (ht : d.arena.Tidy) (h : d.Accepts op r d') :
    r = d.sheet.answer d.allocated op := by
  -- whether there is a group of the type is the same question for both
  have hany : ∀ type, d.sheet.groups.any (·.type = type) = (d.arena.childNamed? 1 type).isSome := by
    intro type
    rw [← List.isSome_find?, find?_groups hw ht, Option.isSome_map]
  cases h with
  | addSection _ _ _ hg _ => simp [Sheet.answer, hany, hg]
  | addSectionAndGroup _ _ _ hg => simp [Sheet.answer, hany, hg]
  | _ => rfl

end Document
end Uci
