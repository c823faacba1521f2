import Mathlib.Data.List.Basic
import Uci.Proofs.Document.Refinement

/-!
# What can be read off a sheet

Sections, walks, lookups, the values of a list and the written form of a document are
those of its sheet.  For walks and lists, which are asked for by handle, the sheet is
asked what has the handle: a node is live exactly if it is on the sheet, and then it
stands there as it does in the arena.

## Main results

* `item?_eq` — what the sheet has for a handle.
* `sections_eq_sheet`, `below_eq_sheet`, `nexts_eq_sheet`, `listValues_eq_sheet`,
  `find_eq_sheet`, `outline_eq_sheet`, `print_eq_sheet` — readings of the document are
  readings of the sheet.
* `refinement_of_reachable` — **documents refine sheets**: edits are edits of the sheet,
  and readings are readings of the sheet.
-/

namespace Uci
namespace Document

variable {d d' : Document} {op : Operation} {r : Option Handle} {h g s x : Handle}

/-! ### Where a live node hangs -/

section Above

variable (hw : d.arena.WellFormed)
include hw

/-- A live node other than the root hangs below a live node that may hold it. -/
private theorem exists_parent (hlive : d.isLive x = true) {k : NodeKind}
    (hk : d.arena.kind? x = some k) (hroot : k ≠ .root) :
    ∃ p kp, x ∈ d.arena.liveChildren p ∧ d.isLive p = true ∧ d.arena.kind? p = some kp ∧
      kp.mayHold k = true := by
  rcases hw.isLive_iff.mp hlive with rfl | ⟨p, hp, hplive⟩
  · rw [hw.kind_root] at hk
    exact absurd (Option.some.inj hk).symm hroot
  · obtain ⟨kp, kx, hkp, hkx, hold⟩ := hw.parent_holds x p hp
    rw [hk] at hkx
    cases hkx
    exact ⟨p, kp, hw.mem_liveChildren_iff.mpr hp, hplive, hkp, hold⟩

theorem mem_groups_of_isLive (hlive : d.isLive g = true)
    (hk : d.arena.kind? g = some .sectionType) : g ∈ d.arena.liveChildren 1 := by
  obtain ⟨p, kp, hmem, -, hkp, hold⟩ := exists_parent hw hlive hk (by nofun)
  have hconfig : kp = .config := by
    cases kp <;> first | rfl | cases hold
  rw [hconfig] at hkp
  rwa [hw.eq_config p hkp] at hmem

theorem exists_group_of_isLive (hlive : d.isLive s = true)
    (hk : d.arena.kind? s = some .section) :
    ∃ g ∈ d.arena.liveChildren 1, s ∈ d.arena.liveChildren g := by
  obtain ⟨g, kp, hmem, hglive, hkp, hold⟩ := exists_parent hw hlive hk (by nofun)
  have hgroup : kp = .sectionType := by
    cases kp <;> first | rfl | cases hold
  rw [hgroup] at hkp
  exact ⟨g, mem_groups_of_isLive hw hglive hkp, hmem⟩

theorem exists_section_of_isLive (ht : d.arena.Tidy) (hlive : d.isLive x = true)
    (hk : d.arena.kind? x = some .option ∨ d.arena.kind? x = some .list) :
    ∃ g ∈ d.arena.liveChildren 1, ∃ s ∈ d.arena.liveChildren g, x ∈ d.arena.liveChildren s := by
  obtain ⟨k, hkx, hentry⟩ : ∃ k, d.arena.kind? x = some k ∧ (k = .option ∨ k = .list) := by
    rcases hk with hk | hk
    · exact ⟨_, hk, Or.inl rfl⟩
    · exact ⟨_, hk, Or.inr rfl⟩
  obtain ⟨s, kp, hmem, hslive, hkp, hold⟩ := exists_parent hw hlive hkx
    (by rcases hentry with rfl | rfl <;> nofun)
  have hsection : kp = .section := by
    cases kp with
    | «section» => rfl
    | sectionType =>
      -- below a group hang sections only
      rw [hw.kind?_of_mem_sections ht hkp hmem] at hkx
      cases hkx
      rcases hentry with h | h <;> cases h
    | _ => rcases hentry with rfl | rfl <;> cases hold
  rw [hsection] at hkp
  obtain ⟨g, hg, hs⟩ := exists_group_of_isLive hw hslive hkp
  exact ⟨g, hg, s, hs, hmem⟩

theorem exists_list_of_isLive (ht : d.arena.Tidy) (hlive : d.isLive x = true)
    (hk : d.arena.kind? x = some .element) :
    ∃ g ∈ d.arena.liveChildren 1, ∃ s ∈ d.arena.liveChildren g, ∃ l ∈ d.arena.liveChildren s,
      d.arena.kind? l = some .list ∧ x ∈ d.arena.liveChildren l := by
  obtain ⟨l, kp, hmem, hllive, hkp, hold⟩ := exists_parent hw hlive hk (by nofun)
  have hlist : kp = .list := by
    cases kp <;> first | rfl | cases hold
  rw [hlist] at hkp
  obtain ⟨g, hg, s, hs, hl⟩ := exists_section_of_isLive hw ht hllive (Or.inr hkp)
  exact ⟨g, hg, s, hs, l, hl, hkp, hmem⟩

end Above

/-! ### What has a handle -/

/-- What a node is on the sheet, if it is there. -/
def itemOf (d : Document) (h : Handle) : Option Sheet.Item :=
  (d.arena.kind? h).map fun
    | .root => .root
    | .config => .config
    | .sectionType => .group
    | .section => .section (d.arena.sheetSection h)
    | .option | .list => .entry (d.arena.sheetEntry h)
    | .element => .element (d.arena.sheetElement h)

private theorem entry_items (hw : d.arena.WellFormed) (hx : d.isLive x = true)
    (hk : d.arena.kind? x = some .option ∨ d.arena.kind? x = some .list) :
    ∀ e ∈ (d.arena.sheetEntry x).items, d.itemOf e.1 = some e.2 ∧ d.isLive e.1 = true := by
  intro e he
  rcases List.mem_cons.mp he with rfl | he
  · refine ⟨?_, hx⟩
    show (d.arena.kind? x).map _ = _
    rcases hk with hk | hk <;> rw [hk] <;> rfl
  · rcases hk with hk | hk
    · -- an option has nothing below it
      simp [Sheet.Entry.elements, Arena.sheetEntry, Arena.sheetBody, hk] at he
    · simp only [Sheet.Entry.elements, Arena.sheetEntry, Arena.sheetBody, hk, if_true,
        List.map_map, List.mem_map] at he
      obtain ⟨y, hy, rfl⟩ := he
      refine ⟨?_, ?_⟩
      · show (d.arena.kind? y).map _ = _
        rw [hw.kind?_of_mem_elements hk hy]
        rfl
      · exact (hw.isLive_of_parent (hw.mem_liveChildren_iff.mp hy)).trans hx

private theorem section_items (hw : d.arena.WellFormed) (hs : d.isLive s = true)
    (hk : d.arena.kind? s = some .section) :
    ∀ e ∈ (d.arena.sheetSection s).items, d.itemOf e.1 = some e.2 ∧ d.isLive e.1 = true := by
  intro e he
  rcases List.mem_cons.mp he with rfl | he
  · refine ⟨?_, hs⟩
    show (d.arena.kind? s).map _ = _
    rw [hk]
    rfl
  · obtain ⟨E, hE, he⟩ := List.mem_flatMap.mp he
    obtain ⟨x, hx, rfl⟩ := List.mem_map.mp hE
    exact entry_items hw ((hw.isLive_of_parent (hw.mem_liveChildren_iff.mp hx)).trans hs)
      (hw.kind?_of_mem_entries hk hx) e he

/-- Everything on the sheet is a live node, and stands there as it does in the arena. -/
theorem items_sound (hw : d.arena.WellFormed) (ht : d.arena.Tidy) :
    ∀ e ∈ d.sheet.items, d.itemOf e.1 = some e.2 ∧ d.isLive e.1 = true := by
  intro e he
  rcases List.mem_cons.mp he with rfl | he
  · refine ⟨?_, hw.isLive_root⟩
    show (d.arena.kind? 0).map _ = _
    rw [hw.kind_root]
    rfl
  rcases List.mem_cons.mp he with rfl | he
  · refine ⟨?_, hw.isLive_config⟩
    show (d.arena.kind? 1).map _ = _
    rw [hw.kind_config]
    rfl
  obtain ⟨G, hG, he⟩ := List.mem_flatMap.mp he
  obtain ⟨g, hg, rfl⟩ := List.mem_map.mp hG
  have hkg := hw.kind?_of_mem_groups hg
  have hlive : d.isLive g = true :=
    (hw.isLive_of_parent (hw.mem_liveChildren_iff.mp hg)).trans hw.isLive_config
  rcases List.mem_cons.mp he with rfl | he
  · refine ⟨?_, hlive⟩
    show (d.arena.kind? g).map _ = _
    rw [hkg]
    rfl
  obtain ⟨S, hS, he⟩ := List.mem_flatMap.mp he
  obtain ⟨s, hs, rfl⟩ := List.mem_map.mp hS
  exact section_items hw ((hw.isLive_of_parent (hw.mem_liveChildren_iff.mp hs)).trans hlive)
    (hw.kind?_of_mem_sections ht hkg hs) e he

/-- Every live node is on the sheet. -/
theorem items_complete (hw : d.arena.WellFormed) (ht : d.arena.Tidy) (hlive : d.isLive h = true) :
    h ∈ d.sheet.items.map Prod.fst := by
  -- what is on the sheet somewhere below a group is on the sheet
  have hup : ∀ {g i}, g ∈ d.arena.liveChildren 1 → (h, i) ∈ (d.arena.sheetGroup g).items →
      h ∈ d.sheet.items.map Prod.fst := by
    intro g i hg hi
    refine List.mem_map.mpr ⟨(h, i), ?_, rfl⟩
    exact List.mem_cons_of_mem _ (List.mem_cons_of_mem _
      (List.mem_flatMap.mpr ⟨_, List.mem_map_of_mem hg, hi⟩))
  have hbelow : ∀ {g s i}, s ∈ d.arena.liveChildren g → (h, i) ∈ (d.arena.sheetSection s).items →
      (h, i) ∈ (d.arena.sheetGroup g).items := fun hs hi =>
    List.mem_cons_of_mem _ (List.mem_flatMap.mpr ⟨_, List.mem_map_of_mem hs, hi⟩)
  have hentry : ∀ {s x i}, x ∈ d.arena.liveChildren s → (h, i) ∈ (d.arena.sheetEntry x).items →
      (h, i) ∈ (d.arena.sheetSection s).items := fun hx hi =>
    List.mem_cons_of_mem _ (List.mem_flatMap.mpr ⟨_, List.mem_map_of_mem hx, hi⟩)
  -- the kind of a live node tells how far below the root it hangs
  obtain ⟨c, hc⟩ := Arena.exists_content? (a := d.arena) (h := h) (by
    rcases hw.isLive_iff.mp hlive with rfl | ⟨p, hp, -⟩
    · exact hw.size_pos
    · exact Arena.lt_size_of_parent? hp)
  have hk : d.arena.kind? h = some c.kind := Arena.kind?_eq_some_iff.mpr ⟨c, hc, rfl⟩
  cases hkind : c.kind with
  | root =>
    rw [hkind] at hk
    rw [hw.eq_root h hk]
    exact List.mem_cons_self ..
  | config =>
    rw [hkind] at hk
    rw [hw.eq_config h hk]
    exact List.mem_cons_of_mem _ (List.mem_cons_self ..)
  | sectionType =>
    rw [hkind] at hk
    exact hup (mem_groups_of_isLive hw hlive hk) (List.mem_cons_self ..)
  | «section» =>
    rw [hkind] at hk
    obtain ⟨g, hg, hs⟩ := exists_group_of_isLive hw hlive hk
    exact hup hg (hbelow hs (List.mem_cons_self ..))
  | option =>
    rw [hkind] at hk
    obtain ⟨g, hg, s, hs, hx⟩ := exists_section_of_isLive hw ht hlive (Or.inl hk)
    exact hup hg (hbelow hs (hentry hx (List.mem_cons_self ..)))
  | list =>
    rw [hkind] at hk
    obtain ⟨g, hg, s, hs, hx⟩ := exists_section_of_isLive hw ht hlive (Or.inr hk)
    exact hup hg (hbelow hs (hentry hx (List.mem_cons_self ..)))
  | element =>
    rw [hkind] at hk
    obtain ⟨g, hg, s, hs, l, hl, hlist, hx⟩ := exists_list_of_isLive hw ht hlive hk
    refine hup hg (hbelow hs (hentry (i := .element (d.arena.sheetElement h)) hl
      (List.mem_cons_of_mem _ ?_)))
    simp only [Sheet.Entry.elements, Arena.sheetEntry, Arena.sheetBody, hlist, if_true,
      List.map_map]
    exact List.mem_map.mpr ⟨h, hx, rfl⟩

/-- Looking up a key in a list whose entries all agree with `f`. -/
private theorem lookup_eq {α β : Type} [BEq α] [LawfulBEq α] {f : α → Option β} {l : List (α × β)}
    (hf : ∀ e ∈ l, f e.1 = some e.2) {k : α} (hk : k ∈ l.map Prod.fst) : l.lookup k = f k := by
  induction l with
  | nil => cases hk
  | cons e l ih =>
    obtain ⟨he, hl⟩ := List.forall_mem_cons.mp hf
    rw [List.lookup_cons]
    by_cases hke : k = e.1
    · rw [hke, beq_self_eq_true]
      exact he.symm
    · rw [beq_eq_false_iff_ne.mpr hke]
      refine ih hl ?_
      rcases List.mem_cons.mp hk with h | h
      · exact absurd h hke
      · exact h

/-- **What the sheet has for a handle**: what the node is, if it is live. -/
theorem item?_eq (hw : d.arena.WellFormed) (ht : d.arena.Tidy) (h : Handle) :
    d.sheet.item? h = if d.isLive h = true then d.itemOf h else none := by
  unfold Sheet.item?
  split
  · next hlive =>
    exact lookup_eq (fun e he => (items_sound hw ht e he).1) (items_complete hw ht hlive)
  · next hdead =>
    rw [List.lookup_eq_none_iff]
    intro e he
    -- what is on the sheet is live, and the node is not
    have hne : h ≠ e.1 := by
      rintro rfl
      exact hdead (items_sound hw ht e he).2
    simpa using hne

/-! ### The readings -/

/-- The node of an issued handle, if it is live. -/
private theorem live_eq (hh : h < d.allocated) :
    (d.isLive h = true ∧ ∃ n, d.arena.get? h = some n ∧ d.live h = .ok n) ∨
      (d.isLive h = false ∧ d.live h = .error (.absence (.removed h))) := by
  obtain ⟨n, hn⟩ := Option.isSome_iff_exists.mp ((Arena.get?_isSome_iff d.arena h).mpr hh)
  have hnode : d.node h = .ok n := node_eq_ok_iff.mpr hn
  cases hlive : d.isLive h with
  | true => exact Or.inl ⟨rfl, n, hn, live_eq_ok_iff.mpr ⟨hn, hlive⟩⟩
  | false =>
    refine Or.inr ⟨rfl, ?_⟩
    unfold live
    rw [hnode]
    show (if d.isLive h = true then _ else _) = _
    rw [hlive]
    rfl

/-- A walk that is at its end has nothing left. -/
private theorem remaining_nextInGroups_none (a : Arena) (c : Handle) (groups : List Handle)
    (h : (Walk.nextInGroups a c groups).1 = none) :
    (Walk.nextInGroups a c groups).2.remaining a = [] := by
  induction groups with
  | nil => rfl
  | cons g groups ih =>
    -- a group without live sections is passed over, and the induction goes on behind it
    unfold Walk.nextInGroups at h ⊢
    split at h
    · next hg =>
      rw [if_pos hg]
      split at h
      · cases h
      · exact ih h
    · next hg =>
      rw [if_neg hg]
      exact ih h

private theorem remaining_of_next_none {a : Arena} {w : Walk} (h : (w.next a).1 = none) :
    (w.next a).2.remaining a = [] := by
  unfold Walk.next at h ⊢
  cases w with
  | children p rest =>
    dsimp only at h ⊢
    split at h
    · cases h
    · rfl
  | sections c groups current =>
    dsimp only at h ⊢
    split at h
    · cases h
    · exact remaining_nextInGroups_none a c groups h

/-- A walk answers what remains of it, node by node. -/
theorem nexts_go_eq (n : Nat) (w : Walk) :
    nexts.go d n w = Sheet.answers n (w.remaining d.arena) := by
  induction n generalizing w with
  | zero => rfl
  | succ n ih =>
    have hrest := Walk.remaining_eq d.arena w
    rw [nexts.go, ih]
    cases hnext : (w.next d.arena).1 with
    | none =>
      -- at the end nothing remains, neither before nor behind the step
      have hend := remaining_of_next_none hnext
      rw [hnext, hend] at hrest
      rw [hrest, hend]
      rfl
    | some x =>
      rw [hnext] at hrest
      rw [hrest]
      rfl

theorem remaining_children (d : Document) (x : Handle) :
    (Walk.children x (d.arena.children x)).remaining d.arena = d.arena.liveChildren x := by
  rw [Walk.remaining, Walk.filter_hangs_children]

/-- Every element of a list has a value. -/
private theorem elements_eq (hw : d.arena.WellFormed) (ht : d.arena.Tidy)
    (hk : d.arena.kind? x = some .list) :
    d.elements x = ((d.arena.liveChildren x).map d.arena.sheetElement).map (·.value) := by
  unfold elements
  rw [List.map_map, ← List.filterMap_eq_map]
  apply List.filterMap_congr
  intro e he
  obtain ⟨v, hc⟩ := ht.content?_element (hw.kind?_of_mem_elements hk he)
  simp [Arena.sheetElement, Arena.value?_eq, hc, Content.value]

/-- A node that has a name has the one on the sheet. -/
private theorem name?_eq_some_iff {n : Text} (hname : ∃ m, d.arena.name? x = some m) :
    d.arena.name? x = some n ↔ (d.arena.name? x).getD [] = n := by
  obtain ⟨m, hm⟩ := hname
  simp [hm]

private theorem sectionNamed_mem {n : Text} (hs : d.sectionNamed n = .ok s) : s ∈ d.sections := by
  unfold sectionNamed at hs
  split at hs
  · next x hx =>
    cases hs
    exact List.mem_of_find?_eq_some hx
  · cases hs

section Readings

variable (hw : d.arena.WellFormed)
include hw

theorem sections_eq_sheet : d.sections = d.sheet.sections := by
  rw [sections_eq hw]
  unfold Sheet.sections sheet
  rw [List.flatMap_map]
  apply List.flatMap_congr
  intro g _
  simp only [Arena.sheetGroup, List.map_map]
  exact (List.map_id _).symm

/-- What a walk over the sections has to visit at its beginning. -/
theorem remaining_sections :
    (Walk.sections 1 (d.arena.children 1) none).remaining d.arena = d.sheet.sections := by
  rw [← sections_eq_sheet hw, sections_eq hw, Walk.remaining, Walk.filter_hangs_children]
  rfl

theorem below_eq_sheet (ht : d.arena.Tidy) (hh : h < d.allocated) :
    d.below h = d.sheet.below h := by
  unfold below walk Sheet.below
  rw [item?_eq hw ht]
  rcases live_eq hh with ⟨hlive, n, hn, hok⟩ | ⟨hlive, herr⟩
  · have hk := Arena.kind?_of_get? hn
    rw [hok, if_pos hlive, itemOf, hk]
    dsimp only [bind, Except.bind]
    -- the walk and the sheet both go by the kind of the node
    cases hkind : n.kind with
    | root =>
      rw [configuration_eq hw]
      exact congrArg Except.ok (remaining_sections hw)
    | config =>
      rw [hkind] at hk
      rw [hw.eq_config h hk]
      exact congrArg Except.ok (remaining_sections hw)
    | sectionType => rfl
    | «section» =>
      have hlist : (d.arena.sheetSection h).entries.map (·.handle) = d.arena.liveChildren h := by
        simp only [Arena.sheetSection, List.map_map]
        exact List.map_id _
      exact congrArg Except.ok ((remaining_children d h).trans hlist.symm)
    | option =>
      have hnolist : d.arena.kind? h ≠ some .list := by rw [hk, hkind]; simp
      simp only [Option.map_some, Arena.sheetEntry, Arena.sheetBody, if_neg hnolist]
      rfl
    | list =>
      have hlist : ((d.arena.liveChildren h).map d.arena.sheetElement).map (·.handle) =
          d.arena.liveChildren h := by
        rw [List.map_map]
        exact List.map_id _
      rw [hkind] at hk
      simp only [Option.map_some, Arena.sheetEntry, Arena.sheetBody, if_pos hk]
      exact congrArg Except.ok ((remaining_children d h).trans hlist.symm)
    | element => rfl
  · rw [herr, hlive]
    rfl

theorem nexts_eq_sheet (ht : d.arena.Tidy) (hh : h < d.allocated) (count : Nat) :
    d.nexts h count = d.sheet.nexts h count := by
  unfold Sheet.nexts
  rw [← below_eq_sheet hw ht hh]
  unfold nexts below
  cases d.walk h with
  | error e => rfl
  | ok w => exact congrArg Except.ok (nexts_go_eq count w)

theorem listValues_eq_sheet (ht : d.arena.Tidy) (hh : h < d.allocated) :
    d.listValues h = d.sheet.listValues h := by
  unfold listValues liveOf Sheet.listValues
  rw [item?_eq hw ht]
  rcases live_eq hh with ⟨hlive, n, hn, hok⟩ | ⟨hlive, herr⟩
  · have hk := Arena.kind?_of_get? hn
    rw [hok, if_pos hlive, itemOf, hk]
    dsimp only [bind, Except.bind]
    cases hkind : n.kind with
    | list =>
      rw [hkind] at hk
      simp only [Option.map_some, Arena.sheetEntry, Arena.sheetBody, if_pos hk, if_true]
      exact congrArg Except.ok (elements_eq hw ht hk)
    | option =>
      have hnolist : d.arena.kind? h ≠ some .list := by rw [hk, hkind]; simp
      simp only [Option.map_some, Arena.sheetEntry, Arena.sheetBody, if_neg hnolist]
      rfl
    | _ => rfl
  · rw [herr, hlive]
    rfl

/-! ### Lookups -/

/-- The sections on the sheet, as they stand in the arena. -/
private theorem flatMap_sections :
    d.sheet.groups.flatMap (·.sections) = d.sections.map d.arena.sheetSection := by
  rw [sections_eq hw]
  unfold sheet
  rw [List.flatMap_map, List.map_flatMap]
  rfl

theorem kind?_of_mem_sections (ht : d.arena.Tidy) (hs : s ∈ d.sections) :
    d.arena.kind? s = some .section := by
  rw [sections_eq hw] at hs
  obtain ⟨g, hg, hs⟩ := List.mem_flatMap.mp hs
  exact hw.kind?_of_mem_sections ht (hw.kind?_of_mem_groups hg) hs

private theorem sectionNamed_eq_sheet (ht : d.arena.Tidy) (n : Text) :
    (d.sectionNamed n).map d.arena.sheetSection = d.sheet.sectionNamed n := by
  unfold sectionNamed Sheet.sectionNamed
  rw [flatMap_sections hw, List.find?_map]
  have hfind : d.sections.find? (fun s => d.arena.name? s = some n) =
      d.sections.find? ((fun s => decide (s.name = n)) ∘ d.arena.sheetSection) := by
    refine List.find?_congr fun s hs => decide_eq_decide.mpr ?_
    exact name?_eq_some_iff (exists_name_of_tidy ht (kind?_of_mem_sections hw ht hs) (by simp))
  rw [hfind]
  cases d.sections.find? ((fun s => decide (s.name = n)) ∘ d.arena.sheetSection) <;> rfl

/-- The entry of a name, on the sheet and in the arena. -/
theorem find?_entries (ht : d.arena.Tidy) (hk : d.arena.kind? s = some .section) (n : Text) :
    (d.arena.sheetSection s).entries.find? (·.name = n) =
      (d.arena.childNamed? s n).map d.arena.sheetEntry := by
  unfold Arena.sheetSection Arena.childNamed?
  rw [List.find?_map]
  congr 1
  refine List.find?_congr fun x hx => decide_eq_decide.mpr (Iff.symm ?_)
  exact name?_eq_some_iff (exists_name_of_entry ht (hw.kind?_of_mem_entries hk hx))

theorem find_eq_sheet (ht : d.arena.Tidy) (owner name : Option Text) :
    d.find owner name = d.sheet.find owner name := by
  unfold find
  rw [configuration_eq hw]
  cases owner with
  | none => cases name <;> rfl
  | some o =>
    have hsec := sectionNamed_eq_sheet hw ht o
    cases name with
    | none =>
      show d.sectionNamed o = (d.sheet.sectionNamed o).map _
      rw [← hsec]
      cases d.sectionNamed o <;> rfl
    | some n =>
      show d.entryNamed o n = (d.sheet.sectionNamed o >>= _)
      unfold entryNamed
      rw [← hsec]
      cases hs : d.sectionNamed o with
      | error e => rfl
      | ok s =>
        have hk := kind?_of_mem_sections hw ht (sectionNamed_mem hs)
        dsimp only [Except.map, bind, Except.bind]
        rw [find?_entries hw ht hk]
        cases d.arena.childNamed? s n <;> rfl

/-! ### Attributes -/

omit hw in
theorem given_eq_ok_iff {a : Attribute} {o : Option Text} {t : Text} :
    given a o = .ok t ↔ o = some t := by
  cases o <;> simp [given]

omit hw in
/-- An attribute of a live node is the one that the node carries. -/
private theorem given_of_liveOf {k : NodeKind} {f : Content → Option Text} {a : Attribute}
    {t : Text} (hlive : d.isLive x = true) (hk : d.arena.kind? x = some k) :
    (do let n ← d.liveOf x k; given a (f n.content)) = .ok t ↔
      (d.arena.content? x).bind f = some t := by
  obtain ⟨n, hn⟩ := exists_liveOf_iff.mpr ⟨hlive, hk⟩
  have hcontent : d.arena.content? x = some n.content := by
    rw [Arena.content?, (liveOf_eq_ok_iff.mp hn).1]
    rfl
  rw [hn, hcontent]
  exact given_eq_ok_iff

theorem isLive_of_mem_sections (hg : g ∈ d.arena.liveChildren 1)
    (hs : s ∈ d.arena.liveChildren g) : d.isLive g = true ∧ d.isLive s = true := by
  have hlive : d.isLive g = true :=
    (hw.isLive_of_parent (hw.mem_liveChildren_iff.mp hg)).trans hw.isLive_config
  exact ⟨hlive, (hw.isLive_of_parent (hw.mem_liveChildren_iff.mp hs)).trans hlive⟩

/-- The type of a live section is the name of its group. -/
theorem sectionType_of_live (hslive : d.isLive s = true) (hks : d.arena.kind? s = some .section)
    (hp : d.arena.parent? s = some g) (type : Text) :
    d.sectionType s = .ok type ↔ d.arena.name? g = some type := by
  have hgroup : d.groupOf s = .ok g := groupOf_eq_ok_iff.mpr ⟨hslive, hks, hp⟩
  obtain ⟨n, hn⟩ := exists_liveOf_iff.mpr
    ⟨(hw.isLive_of_parent hp).symm.trans hslive, hw.kind?_group hks hp⟩
  obtain ⟨hget, hglive, -⟩ := liveOf_eq_ok_iff.mp hn
  have hname : d.arena.name? g = n.content.name := by
    rw [Arena.name?, hget]
    rfl
  rw [hname]
  unfold sectionType
  rw [hgroup]
  change (do let n ← d.live g; given .type n.content.name) = _ ↔ _
  rw [live_eq_ok_iff.mpr ⟨hget, hglive⟩]
  exact given_eq_ok_iff

omit hw in
theorem sectionName_of_live (hslive : d.isLive s = true) (hks : d.arena.kind? s = some .section)
    (name : Text) : d.sectionName s = .ok name ↔ d.arena.name? s = some name := by
  rw [Arena.name?_eq]
  exact given_of_liveOf hslive hks

omit hw in
theorem optionName_of_live (hlive : d.isLive x = true) (hk : d.arena.kind? x = some .option)
    (name : Text) : d.optionName x = .ok name ↔ d.arena.name? x = some name := by
  rw [Arena.name?_eq]
  exact given_of_liveOf hlive hk

omit hw in
theorem listName_of_live (hlive : d.isLive x = true) (hk : d.arena.kind? x = some .list)
    (name : Text) : d.listName x = .ok name ↔ d.arena.name? x = some name := by
  rw [Arena.name?_eq]
  exact given_of_liveOf hlive hk

theorem sectionType_eq_ok_iff (ht : d.arena.Tidy) (hg : g ∈ d.arena.liveChildren 1)
    (hs : s ∈ d.arena.liveChildren g) (type : Text) :
    d.sectionType s = .ok type ↔ d.arena.name? g = some type :=
  sectionType_of_live hw (isLive_of_mem_sections hw hg hs).2
    (hw.kind?_of_mem_sections ht (hw.kind?_of_mem_groups hg) hs)
    (hw.mem_liveChildren_iff.mp hs) type

theorem sectionName_eq_ok_iff (ht : d.arena.Tidy) (hg : g ∈ d.arena.liveChildren 1)
    (hs : s ∈ d.arena.liveChildren g) (name : Text) :
    d.sectionName s = .ok name ↔ d.arena.name? s = some name :=
  sectionName_of_live (isLive_of_mem_sections hw hg hs).2
    (hw.kind?_of_mem_sections ht (hw.kind?_of_mem_groups hg) hs) name

/-! ### The outline -/

omit hw in
/-- A computation that succeeds on every element succeeds on the list. -/
theorem mapM_eq_ok {α β ε : Type} {f : α → Except ε β} {v : α → β} {l : List α}
    (h : ∀ y ∈ l, f y = .ok (v y)) : l.mapM f = .ok (l.map v) := by
  induction l with
  | nil => rfl
  | cons y l ih =>
    obtain ⟨hy, hl⟩ := List.forall_mem_cons.mp h
    rw [List.mapM_cons, hy, ih hl]
    rfl

omit hw in
/-- The role of a live node is that of its kind. -/
theorem role_of_live (hlive : d.isLive x = true) {k : NodeKind} (hk : d.arena.kind? x = some k) :
    d.role x = .ok k.role := by
  obtain ⟨n, hn, rfl⟩ := live_of_kind hlive hk
  rw [role, hn]
  rfl

omit hw in
/-- Below a section or a list a walk visits the live children. -/
theorem below_children (hlive : d.isLive x = true)
    (hk : d.arena.kind? x = some .section ∨ d.arena.kind? x = some .list) :
    d.below x = .ok (d.arena.liveChildren x) := by
  rcases hk with hk | hk <;> obtain ⟨n, hn, hkind⟩ := live_of_kind hlive hk
  all_goals
    rw [below, walk, hn]
    dsimp only [bind, Except.bind]
    rw [hkind]
    exact congrArg Except.ok (remaining_children d x)

/-- An entry says what it says on the sheet. -/
theorem outlineEntry?_eq (ht : d.arena.Tidy) (hlive : d.isLive x = true)
    (hk : d.arena.kind? x = some .option ∨ d.arena.kind? x = some .list) :
    d.outlineEntry? x = .ok (some (d.arena.sheetEntry x).outline) := by
  unfold outlineEntry?
  -- the content of a tidy node has all that its kind is asked for
  rcases hk with hk | hk
  · obtain ⟨n, v, hc⟩ := ht.content?_option hk
    have hname : d.optionName x = .ok n := (given_of_liveOf hlive hk).mpr (by rw [hc]; rfl)
    have hvalue : d.optionValue x = .ok v := (given_of_liveOf hlive hk).mpr (by rw [hc]; rfl)
    rw [role_of_live hlive hk]
    show (do return some (EntryOutline.option (← d.optionName x) (← d.optionValue x))) = _
    rw [hname, hvalue]
    simp [Arena.sheetEntry, Arena.sheetBody, Sheet.Entry.outline, hk, Arena.name?_eq,
      Arena.value?_eq, hc, Content.name, Content.value, pure, Except.pure, bind, Except.bind]
  · obtain ⟨n, hc⟩ := ht.content?_list hk
    have hname : d.listName x = .ok n := (given_of_liveOf hlive hk).mpr (by rw [hc]; rfl)
    have hvalues : d.listValues x = .ok (d.elements x) := by
      obtain ⟨m, hm⟩ := exists_liveOf_iff.mpr ⟨hlive, hk⟩
      unfold listValues
      rw [hm]
      rfl
    rw [role_of_live hlive hk]
    show (do return some (EntryOutline.list (← d.listName x) (← d.listValues x))) = _
    rw [hname, hvalues, elements_eq hw ht hk]
    simp [Arena.sheetEntry, Arena.sheetBody, Sheet.Entry.outline, hk, Arena.name?_eq, hc,
      Content.name, pure, Except.pure, bind, Except.bind]

private theorem outlineEntries_eq (ht : d.arena.Tidy) (hlive : d.isLive s = true)
    (hk : d.arena.kind? s = some .section) :
    d.outlineEntries s = .ok ((d.arena.sheetSection s).entries.map Sheet.Entry.outline) := by
  have hall := mapM_eq_ok fun x hx =>
    outlineEntry?_eq hw ht ((hw.isLive_of_parent (hw.mem_liveChildren_iff.mp hx)).trans hlive)
      (hw.kind?_of_mem_entries hk hx)
  unfold outlineEntries
  rw [below_children hlive (Or.inl hk)]
  change (do let outlines ← (d.arena.liveChildren s).mapM d.outlineEntry?
             return outlines.filterMap id) = _
  rw [hall]
  show Except.ok (List.filterMap id _) = Except.ok (((d.arena.liveChildren s).map _).map _)
  rw [List.filterMap_map, List.map_map, ← List.filterMap_eq_map]
  rfl

/-- **The outline of a document** is that of its sheet, and every section of it can be read. -/
theorem outline_eq_sheet (ht : d.arena.Tidy) : d.outline = d.sheet.outline.map .ok := by
  unfold outline Sheet.outline
  rw [sections_eq hw, List.map_flatMap, List.map_flatMap]
  unfold sheet
  rw [List.flatMap_map]
  apply List.flatMap_congr
  intro g hg
  show _ = (((d.arena.liveChildren g).map d.arena.sheetSection).map _).map Except.ok
  rw [List.map_map, List.map_map]
  apply List.map_congr_left
  intro s hs
  have hkg := hw.kind?_of_mem_groups hg
  have hks := hw.kind?_of_mem_sections ht hkg hs
  obtain ⟨type, htype⟩ := exists_name_of_tidy ht hkg (Or.inl rfl)
  obtain ⟨n, hn⟩ := exists_name_of_tidy ht hks (Or.inr (Or.inl rfl))
  unfold outlineSection
  rw [outlineEntries_eq hw ht (isLive_of_mem_sections hw hg hs).2 hks,
    (sectionType_eq_ok_iff hw ht hg hs type).mpr htype,
    (sectionName_eq_ok_iff hw ht hg hs n).mpr hn]
  simp [Sheet.Section.outline, Arena.sheetGroup, Arena.sheetSection, htype, hn, pure, Except.pure,
    bind, Except.bind]

/-! ### The written form -/

private theorem printEntry_eq (ht : d.arena.Tidy)
    (hk : d.arena.kind? x = some .option ∨ d.arena.kind? x = some .list) :
    d.printEntry x = (d.arena.sheetEntry x).print := by
  have hcontent : (d.arena.get? x).map Node.content = d.arena.content? x := rfl
  unfold printEntry
  rw [hcontent]
  rcases hk with hk | hk
  · obtain ⟨n, v, hc⟩ := ht.content?_option hk
    have hname : d.arena.name? x = some n := by rw [Arena.name?_eq, hc]; rfl
    have hvalue : d.arena.value? x = some v := by rw [Arena.value?_eq, hc]; rfl
    simp [hc, Arena.sheetEntry, Arena.sheetBody, hk, Sheet.Entry.print, hname, hvalue]
  · obtain ⟨n, hc⟩ := ht.content?_list hk
    have hname : d.arena.name? x = some n := by rw [Arena.name?_eq, hc]; rfl
    simp only [hc, Arena.sheetEntry, Arena.sheetBody, hk, if_true, Sheet.Entry.print, hname,
      Option.getD_some, elements_eq hw ht hk]

private theorem printSection_eq (ht : d.arena.Tidy) (hg : g ∈ d.arena.liveChildren 1)
    (hs : s ∈ d.arena.liveChildren g) :
    d.printSection s = (d.arena.sheetSection s).print (d.arena.sheetGroup g).type := by
  have hkg := hw.kind?_of_mem_groups hg
  have hks := hw.kind?_of_mem_sections ht hkg hs
  obtain ⟨type, htype⟩ := exists_name_of_tidy ht hkg (Or.inl rfl)
  obtain ⟨n, hn⟩ := exists_name_of_tidy ht hks (Or.inr (Or.inl rfl))
  have hentries : (d.arena.liveChildren s).flatMap d.printEntry =
      ((d.arena.liveChildren s).map d.arena.sheetEntry).flatMap Sheet.Entry.print := by
    rw [List.flatMap_map]
    exact List.flatMap_congr fun x hx => printEntry_eq hw ht (hw.kind?_of_mem_entries hks hx)
  simp only [printSection, hw.mem_liveChildren_iff.mp hs, Option.bind_some, htype, hn, hentries,
    Sheet.Section.print, Arena.sheetSection, Arena.sheetGroup, Option.getD_some]

theorem print_eq_sheet (ht : d.arena.Tidy) : d.print = d.sheet.print := by
  unfold print Sheet.print
  rw [sections_eq hw]
  refine congrArg (printedPackage d.package ++ ·) ?_
  unfold sheet
  rw [List.flatMap_assoc, List.flatMap_map]
  apply List.flatMap_congr
  intro g hg
  show _ = ((d.arena.liveChildren g).map d.arena.sheetSection).flatMap _
  rw [List.flatMap_map]
  exact List.flatMap_congr fun s hs => printSection_eq hw ht hg hs

end Readings

/-! ### Documents refine sheets -/

/-- **Documents refine sheets.**  However a document was reached by operations on issued
handles, an operation that succeeds is the edit of its sheet, if it does not change a type,
and answers what the sheet says; and the sections, the walks, the values of lists, the
lookups and the written form are read off the sheet. -/
theorem refinement_of_reachable (hd : d.Reachable OnIssued) :
    (∀ op r d', d.OnIssued op → op.retypes = false → op.edit.run d = (.ok r, d') →
      d'.sheet = d.sheet.edited d.allocated d.nextNumber op ∧
        r = d.sheet.answer d.allocated op) ∧
    d.sections = d.sheet.sections ∧
    (∀ h < d.allocated, d.below h = d.sheet.below h ∧
      (∀ count, d.nexts h count = d.sheet.nexts h count) ∧
      d.listValues h = d.sheet.listValues h) ∧
    (∀ owner name, d.find owner name = d.sheet.find owner name) ∧
    d.print = d.sheet.print := by
  have hbuilt : d.Built OnIssued := hd.built fun _ _ h => h.1
  have hw := hbuilt.wellFormed
  have ht := hbuilt.tidy fun _ _ h => h
  refine ⟨?_, sections_eq_sheet hw, ?_,
    find_eq_sheet hw ht, print_eq_sheet hw ht⟩
  · intro op r d' hop hretypes hrun
    have hacc := (Operation.run_eq_ok_iff hw).mp hrun
    exact ⟨hacc.sheet hw ht hop hretypes, hacc.answer hw ht⟩
  · intro h hh
    exact ⟨below_eq_sheet hw ht hh, nexts_eq_sheet hw ht hh, listValues_eq_sheet hw ht hh⟩

/-- A section is removed, and its option with it. -/
theorem refinement_of_removal :
    let d := empty.play [.addSection 0 "rule".toList none, .addOption 3 "a".toList "1".toList,
      .addSection 1 "rule".toList (some "x".toList)]
    d.Reachable OnIssued ∧ ((Operation.remove 3).after d).sheet = d.sheet.remove 3 ∧
      d.sections = d.sheet.sections ∧ d.print = d.sheet.print := by
  intro d
  have hd : d.Reachable OnIssued := Reachable.play .empty (by decide)
  obtain ⟨hedit, hsections, -, -, hprint⟩ := refinement_of_reachable hd
  have hrun : (Operation.remove 3).edit.run d = (.ok none, (Operation.remove 3).after d) :=
    Prod.ext (by rfl) rfl
  exact ⟨hd, (hedit (.remove 3) none _ (by decide) rfl hrun).1, hsections, hprint⟩

end Document
end Uci
