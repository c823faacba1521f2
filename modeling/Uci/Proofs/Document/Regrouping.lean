import Uci.Proofs.Document.Names
import Uci.Proofs.Document.Refinement

/-!
# Regrouping

Giving a section another type renames its group, folds groups that came to share the type, and
names the section anew if its name was generated for another type.  On the sheet that is one step:
the group gets the type where it stands, or is made one with the group that has the type already,
in the place of the earlier of the two.

## Main definitions

* `Sheet.Section.retyped` — a section under its new type.
* `Sheet.Retypes` — the groups before and after.

## Main results

* `sheetGroup_withName`, `sheet_absorb`, `sheet_nameSection` — the three steps on the sheet.
* `Retypes.filter_type` — one group has the type afterwards.
* `retypes_of_apart` — **the groups after a change of type**.
-/

namespace Uci

namespace Sheet

/-! ### The groups before and after -/

/-- A section under its new type.  Only the section `s`, whose type was set, may get another name:
if it was generated for another type. -/
def Section.retyped (s : Handle) (type : Text) (number : Nat) (S : Section) : Section :=
  if S.handle = s ∧ needsGeneratedName type (some S.name) = true then
    { S with name := generatedName type number }
  else S

/-- **The groups before and after a change of type.**  `G` is the group of the section `s`, and
`number` tells the counters of the groups. -/
inductive Retypes (number : Handle → Nat) (s : Handle) (type : Text) (G : Group) :
    List Group → List Group → Prop
  /-- No other group has the type. -/
  | alone {front back : List Group} :
    (∀ K ∈ front ++ back, K.type ≠ type) →
    Retypes number s type G (front ++ G :: back)
      (front ++ ⟨G.handle, type, G.sections.map (·.retyped s type (number G.handle))⟩ :: back)
  /-- A later group `H` has the type: its sections go behind those of `G`. -/
  | earlier {front mid back : List Group} {H : Group} :
    H.type = type → (∀ K ∈ front ++ mid ++ back, K.type ≠ type) →
    Retypes number s type G (front ++ G :: mid ++ H :: back)
      (front ++ ⟨G.handle, type, (G.sections ++ H.sections).map
        (·.retyped s type (max (number G.handle) (number H.handle)))⟩ :: mid ++ back)
  /-- An earlier group `H` has the type: the sections of `G` go behind its own. -/
  | later {front mid back : List Group} {H : Group} :
    H.type = type → (∀ K ∈ front ++ mid ++ back, K.type ≠ type) →
    Retypes number s type G (front ++ H :: mid ++ G :: back)
      (front ++ ⟨H.handle, type, (H.sections ++ G.sections).map
        (·.retyped s type (max (number H.handle) (number G.handle)))⟩ :: mid ++ back)

end Sheet

/-- **One group has the type afterwards.** -/
theorem Sheet.Retypes.filter_type {number : Handle → Nat} {s : Handle} {type : Text}
    {G : Sheet.Group} {gs gs' : List Sheet.Group} (h : Sheet.Retypes number s type G gs gs') :
    ∃ K, gs'.filter (·.type = type) = [K] := by
  have hone : ∀ {front back : List Sheet.Group} {K : Sheet.Group},
      (∀ H ∈ front ++ back, H.type ≠ type) → K.type = type →
      (front ++ K :: back).filter (·.type = type) = [K] := by
    intro front back K hne hK
    have hnone : ∀ {l : List Sheet.Group}, (∀ H ∈ l, H.type ≠ type) →
        l.filter (·.type = type) = [] := fun h =>
      List.filter_eq_nil_iff.mpr fun H hH => by simpa using h H hH
    rw [List.forall_mem_append] at hne
    rw [List.filter_append, List.filter_cons_of_pos (by simpa using hK), hnone hne.1, hnone hne.2]
    rfl
  cases h with
  | alone hne => exact ⟨_, hone hne rfl⟩
  | earlier _ hne =>
    rw [List.append_assoc] at hne ⊢
    exact ⟨_, hone hne rfl⟩
  | later _ hne =>
    rw [List.append_assoc] at hne ⊢
    exact ⟨_, hone hne rfl⟩

/-! ### The steps on the sheet -/

namespace Arena

variable {a b : Arena} {g k q s x y : Handle} {type : Text}

/-- A section depends on what hangs below it and its entries, and on nothing about groups. -/
theorem sheetSection_congr (hw : a.WellFormed) (hks : a.kind? s = some .section)
    (hn : ∀ x k, a.kind? x = some k → k ≠ .sectionType → b.name? x = a.name? x)
    (hv : ∀ x, b.value? x = a.value? x) (hk : ∀ x, b.kind? x = a.kind? x)
    (hl : ∀ x k, a.kind? x = some k → k ≠ .config → k ≠ .sectionType →
      b.liveChildren x = a.liveChildren x) :
    b.sheetSection s = a.sheetSection s := by
  have hentry : ∀ x ∈ a.liveChildren s, b.sheetEntry x = a.sheetEntry x := by
    intro x hx
    obtain ⟨k, hkx, hconfig, hgroup⟩ :
        ∃ k, a.kind? x = some k ∧ k ≠ .config ∧ k ≠ .sectionType := by
      rcases hw.kind?_of_mem_entries hks hx with hkx | hkx
      · exact ⟨_, hkx, by decide, by decide⟩
      · exact ⟨_, hkx, by decide, by decide⟩
    simp only [sheetEntry, hn x k hkx hgroup,
      sheetBody_congr (hk x) (hv x) (hl x k hkx hconfig hgroup) fun e _ _ => hv e]
  simp only [sheetSection, hn s _ hks (by decide), hl s _ hks (by decide) (by decide),
    List.map_congr_left hentry]

theorem value?_absorb (a : Arena) (t g k : Handle) : (a.absorb t g).value? k = a.value? k := by
  rw [value?_eq, value?_eq, content?_absorb]
  split
  · cases a.content? k with
    | none => rfl
    | some c => cases c <;> rfl
  · rfl

/-- A group gets another type, and all others stay what they were. -/
theorem sheetGroup_withName (hw : a.WellFormed) (ht : a.Tidy)
    (hg : a.kind? g = some .sectionType) (hq : q ∈ a.liveChildren 1) (type : Text) :
    (a.modifyContent g (·.withName type)).sheetGroup q =
      { a.sheetGroup q with type := if q = g then type else (a.sheetGroup q).type } := by
  have hsection : ∀ s ∈ a.liveChildren q,
      (a.modifyContent g (·.withName type)).sheetSection s = a.sheetSection s := by
    intro s hs
    refine sheetSection_congr hw (hw.kind?_of_mem_sections ht (hw.kind?_of_mem_groups hq) hs)
      (fun x k hx hgroup => ?_) (value?_withName _ _ _)
      (kind?_modifyContent (Content.kind_withName type) _ _)
      fun _ _ _ _ _ => liveChildren_modifyContent ..
    rw [name?_modifyContent, if_neg (ne_of_kind? hx hg hgroup)]
  simp only [sheetGroup, liveChildren_modifyContent, List.map_congr_left hsection,
    name?_withName hg (Or.inl rfl)]
  split <;> rfl

section Absorb

variable (hw : a.WellFormed) (hx : x ∈ a.liveChildren 1) (hy : y ∈ a.liveChildren 1) (hne : y ≠ x)
include hw hx hy hne

/-- Only the configuration and the two groups get other children. -/
theorem liveChildren_absorb_of_ne (h1 : q ≠ 1) (hqx : q ≠ x) (hqy : q ≠ y) :
    (a.absorb x y).liveChildren q = a.liveChildren q := by
  rw [liveChildren_absorb hw hx hy hne, if_neg hqx, if_neg hqy, filter_ne_group hw hy h1]

/-- The later group goes. -/
theorem liveChildren_absorb_config :
    (a.absorb x y).liveChildren 1 = (a.liveChildren 1).filter (· ≠ y) := by
  have h1x := Ne.symm (hw.ne_of_parent (hw.mem_liveChildren_iff.mp hx))
  have h1y := Ne.symm (hw.ne_of_parent (hw.mem_liveChildren_iff.mp hy))
  rw [liveChildren_absorb hw hx hy hne, if_neg h1x, if_neg h1y]

theorem sheetSection_absorb (hks : a.kind? s = some .section) :
    (a.absorb x y).sheetSection s = a.sheetSection s := by
  refine sheetSection_congr hw hks (fun z _ _ _ => name?_absorb a x y z) (value?_absorb a x y)
    (kind?_absorb a x y) fun z k hz hconfig hgroup => ?_
  exact liveChildren_absorb_of_ne hw hx hy hne (ne_of_kind? hz hw.kind_config hconfig)
    (ne_of_kind? hz (hw.kind?_of_mem_groups hx) hgroup)
    (ne_of_kind? hz (hw.kind?_of_mem_groups hy) hgroup)

variable (ht : a.Tidy)
include ht

/-- The earlier group holds the sections of both. -/
theorem sheetGroup_absorb : (a.absorb x y).sheetGroup x =
    { a.sheetGroup x with sections := (a.sheetGroup x).sections ++ (a.sheetGroup y).sections } := by
  have hsection : ∀ q ∈ a.liveChildren 1, ∀ s ∈ a.liveChildren q,
      (a.absorb x y).sheetSection s = a.sheetSection s := fun q hq s hs =>
    sheetSection_absorb hw hx hy hne (hw.kind?_of_mem_sections ht (hw.kind?_of_mem_groups hq) hs)
  have hchildren := (liveChildren_absorb hw hx hy hne x).trans (if_pos rfl)
  simp only [sheetGroup, name?_absorb, hchildren, List.map_append,
    List.map_congr_left (hsection x hx), List.map_congr_left (hsection y hy)]

/-- Any other group stays what it was. -/
theorem sheetGroup_absorb_of_ne (hq : q ∈ a.liveChildren 1) (hqx : q ≠ x) (hqy : q ≠ y) :
    (a.absorb x y).sheetGroup q = a.sheetGroup q := by
  have hq1 := hw.ne_of_parent (hw.mem_liveChildren_iff.mp hq)
  have hsection : ∀ s ∈ a.liveChildren q, (a.absorb x y).sheetSection s = a.sheetSection s :=
    fun s hs => sheetSection_absorb hw hx hy hne
      (hw.kind?_of_mem_sections ht (hw.kind?_of_mem_groups hq) hs)
  simp only [sheetGroup, name?_absorb, liveChildren_absorb_of_ne hw hx hy hne hq1 hqx hqy,
    List.map_congr_left hsection]

end Absorb

end Arena

namespace Document

open Arena

private theorem mapArena_mapArena (d : Document) (f f' : Arena → Arena) :
    (d.mapArena f).mapArena f' = d.mapArena fun a => f' (f a) := rfl

private theorem perm_two {α : Type} (x y : α) (l₁ l₂ l₃ : List α) :
    (l₁ ++ x :: l₂ ++ y :: l₃).Perm (x :: y :: (l₁ ++ l₂ ++ l₃)) := by
  refine List.perm_middle.trans (.trans (.cons y ?_) (.swap x y _))
  rw [List.append_assoc, List.append_assoc]
  exact List.perm_middle

variable {d d' : Document} {g p s x y : Handle} {type : Text} {G : Sheet.Group} {S : Sheet.Section}

/-- Two of the groups, and the others around them. -/
private theorem groups_around (hw : d.arena.WellFormed) {l₁ l₂ l₃ : List Handle}
    (hl : d.arena.liveChildren 1 = l₁ ++ x :: l₂ ++ y :: l₃) :
    y ≠ x ∧ ∀ q ∈ l₁ ++ l₂ ++ l₃, q ∈ d.arena.liveChildren 1 ∧ q ≠ x ∧ q ≠ y := by
  have hperm := perm_two x y l₁ l₂ l₃
  rw [← hl] at hperm
  obtain ⟨hxnot, hrest⟩ := List.nodup_cons.mp (hperm.nodup_iff.mp (hw.nodup_liveChildren 1))
  obtain ⟨hynot, -⟩ := List.nodup_cons.mp hrest
  refine ⟨fun h => hxnot (h ▸ List.mem_cons_self), fun q hq => ⟨?_, ?_, ?_⟩⟩
  · exact hperm.mem_iff.mpr (List.mem_cons_of_mem _ (List.mem_cons_of_mem _ hq))
  · exact fun h => hxnot (h ▸ List.mem_cons_of_mem _ hq)
  · exact fun h => hynot (h ▸ hq)

section Steps

variable (hw : d.arena.WellFormed) (ht : d.arena.Tidy)
include hw ht

/-- A group is folded into an earlier one. -/
theorem sheet_absorb {l₁ l₂ l₃ : List Handle}
    (hl : d.arena.liveChildren 1 = l₁ ++ x :: l₂ ++ y :: l₃) :
    (d.mapArena (·.absorb x y)).sheet = ⟨d.package, l₁.map d.arena.sheetGroup ++
      { d.arena.sheetGroup x with
        sections := (d.arena.sheetGroup x).sections ++ (d.arena.sheetGroup y).sections } ::
      l₂.map d.arena.sheetGroup ++ l₃.map d.arena.sheetGroup⟩ := by
  have hx : x ∈ d.arena.liveChildren 1 := by simp [hl]
  have hy : y ∈ d.arena.liveChildren 1 := by simp [hl]
  obtain ⟨hyx, hothers⟩ := groups_around hw hl
  -- all other groups stay what they were
  have hne : ∀ q ∈ l₁ ++ l₂ ++ l₃, q ≠ y := fun q hq => (hothers q hq).2.2
  have hold : ∀ q ∈ l₁ ++ l₂ ++ l₃, (d.arena.absorb x y).sheetGroup q = d.arena.sheetGroup q := by
    intro q hq
    obtain ⟨hmem, hqx, hqy⟩ := hothers q hq
    exact sheetGroup_absorb_of_ne hw hx hy hyx ht hmem hqx hqy
  rw [List.forall_mem_append, List.forall_mem_append] at hne hold
  obtain ⟨⟨hne₁, hne₂⟩, hne₃⟩ := hne
  obtain ⟨⟨hold₁, hold₂⟩, hold₃⟩ := hold
  have hkeep : ∀ {l : List Handle}, (∀ q ∈ l, q ≠ y) → l.filter (· ≠ y) = l := fun h =>
    List.filter_eq_self.mpr fun q hq => decide_eq_true (h q hq)
  have hgroups : (d.arena.absorb x y).liveChildren 1 = l₁ ++ x :: l₂ ++ l₃ := by
    rw [liveChildren_absorb_config hw hx hy hyx, hl, List.filter_append, List.filter_append,
      List.filter_cons_of_pos (by simpa using Ne.symm hyx), List.filter_cons_of_neg (by simp),
      hkeep hne₁, hkeep hne₂, hkeep hne₃]
  rw [sheet, arena_mapArena, package_mapArena, hgroups, List.map_append, List.map_append,
    List.map_cons, sheetGroup_absorb hw hx hy hyx ht, List.map_congr_left hold₁,
    List.map_congr_left hold₂, List.map_congr_left hold₃]

/-- A section gets the next generated name of its group, if it needs one. -/
theorem sheet_nameSection (hp : p ∈ d.arena.liveChildren 1) (hs : s ∈ d.arena.liveChildren p)
    (htype : d.arena.name? p = some type) :
    (d.mapArena (·.nameSection s)).sheet =
      d.sheet.mapGroups (·.mapSections (·.retyped s type (d.arena.counter p))) := by
  have hkp := hw.kind?_of_mem_groups hp
  have hks := hw.kind?_of_mem_sections ht hkp hs
  obtain ⟨n, hn⟩ := exists_name_of_tidy ht hks (by simp)
  -- the name of the section is the one that stands on the sheet
  have hneeds : ∀ G ∈ d.sheet.groups, ∀ S ∈ G.sections, S.handle = s → S.name = n := by
    intro G hG S hS hSs
    obtain ⟨g, -, rfl⟩ := List.mem_map.mp hG
    obtain ⟨z, -, rfl⟩ := List.mem_map.mp hS
    obtain rfl : z = s := hSs
    simp [sheetSection, hn]
  have hsheet : ∀ F : Sheet.Section → Sheet.Section,
      (∀ G ∈ d.sheet.groups, ∀ S ∈ G.sections,
        F S = S.retyped s type (d.arena.counter p)) →
      d.sheet.mapGroups (·.mapSections F) =
        d.sheet.mapGroups (·.mapSections (·.retyped s type (d.arena.counter p))) := by
    intro F hF
    unfold Sheet.mapGroups Sheet.Group.mapSections
    congr 1
    refine List.map_congr_left fun G hG => ?_
    rw [List.map_congr_left (hF G hG)]
  have heq := nameSection_eq (hw.mem_liveChildren_iff.mp hs) htype
  rw [hn] at heq
  cases hyes : needsGeneratedName type (some n) with
  | false =>
    rw [hyes, if_neg Bool.false_ne_true] at heq
    have hsame : d.mapArena (·.nameSection s) = d := by rw [mapArena, heq]
    rw [hsame, ← hsheet id]
    · unfold Sheet.mapGroups Sheet.Group.mapSections
      simp
    · intro G hG S hS
      refine (if_neg ?_).symm
      rintro ⟨hSs, hSn⟩
      rw [hneeds G hG S hS hSs, hyes] at hSn
      cases hSn
  | true =>
    rw [hyes, if_pos rfl] at heq
    let bump : Arena → Arena := (·.modifyContent p (·.withCounter (d.arena.counter p + 1)))
    have hw' : (d.mapArena bump).arena.WellFormed := hw.modifyContent (Content.kind_withCounter _) p
    have ht' : (d.mapArena bump).arena.Tidy :=
      ht.modifyContent (Content.kind_withCounter _) (fun _ hc => hc.withCounter _) p
    have hks' : (d.mapArena bump).arena.kind? s = some .section :=
      (kind?_modifyContent (Content.kind_withCounter _) _ _ _).trans hks
    have key := sheet_setSectionName hw' ht' hks' (generatedName type (d.arena.counter p))
    rw [sheet_withCounter] at key
    have hsame : d.mapArena (·.nameSection s) = (d.mapArena bump).mapArena
        (·.modifyContent s (·.withName (generatedName type (d.arena.counter p)))) := by
      simp only [mapArena, heq, bump]
    rw [hsame, key, Sheet.onSection]
    refine hsheet _ fun G hG S hS => ?_
    unfold Sheet.Section.retyped
    by_cases hSs : S.handle = s
    · rw [if_pos hSs, if_pos ⟨hSs, by rw [hneeds G hG S hS hSs, hyes]⟩]
    · rw [if_neg hSs, if_neg fun h => hSs h.1]

/-- Naming a section changes one section of one group. -/
private theorem groups_nameSection (hp : p ∈ d.arena.liveChildren 1)
    (hs : s ∈ d.arena.liveChildren p) (htype : d.arena.name? p = some type)
    {front back : List Sheet.Group} (hgroups : d.sheet.groups = front ++ G :: back)
    (hG : G.handle = p) :
    (d.mapArena (·.nameSection s)).sheet.groups =
      front ++ G.mapSections (·.retyped s type (d.arena.counter p)) :: back := by
  have hhandles : d.sheet.groups.map (·.handle) = d.arena.liveChildren 1 := by
    rw [sheet, List.map_map]
    exact List.map_id _
  have hnodup := hw.nodup_liveChildren 1
  rw [← hhandles, hgroups, List.map_append, List.map_cons, List.nodup_middle, hG,
    ← List.map_append] at hnodup
  have hnot := (List.nodup_cons.mp hnodup).1
  -- the section hangs below no other group
  have hother : ∀ K ∈ front ++ back,
      K.mapSections (·.retyped s type (d.arena.counter p)) = K := by
    intro K hK
    obtain ⟨q, hq, rfl⟩ : ∃ q ∈ d.arena.liveChildren 1, d.arena.sheetGroup q = K := by
      refine List.mem_map.mp (show K ∈ d.sheet.groups from ?_)
      rw [hgroups]
      exact List.perm_middle.mem_iff.mpr (List.mem_cons_of_mem _ hK)
    have hqp : q ≠ p := by
      rintro rfl
      exact hnot (List.mem_map.mpr ⟨_, hK, rfl⟩)
    have hsame : ∀ x ∈ (d.arena.sheetGroup q).sections,
        x.retyped s type (d.arena.counter p) = x := by
      intro x hx
      obtain ⟨z, hz, rfl⟩ := List.mem_map.mp hx
      refine if_neg fun h => hqp ?_
      obtain rfl : z = s := h.1
      exact Option.some.inj
        ((hw.mem_liveChildren_iff.mp hz).symm.trans (hw.mem_liveChildren_iff.mp hs))
    rw [Sheet.Group.mapSections, List.map_congr_left hsame, List.map_id']
  rw [List.forall_mem_append] at hother
  rw [sheet_nameSection hw ht hp hs htype, Sheet.mapGroups, hgroups, List.map_append,
    List.map_cons, List.map_congr_left hother.1, List.map_congr_left hother.2, List.map_id',
    List.map_id']

/-- A group is folded into an earlier one, and a section of one of the two is named. -/
private theorem groups_absorb {l₁ l₂ l₃ : List Handle}
    (hl : d.arena.liveChildren 1 = l₁ ++ x :: l₂ ++ y :: l₃) (hlt : x < y)
    (htype : d.arena.name? x = some type)
    (hs : s ∈ d.arena.liveChildren x ∨ s ∈ d.arena.liveChildren y) :
    (d.mapArena fun a => (a.absorb x y).nameSection s).sheet.groups =
      l₁.map d.arena.sheetGroup ++
        ⟨x, type, ((d.arena.sheetGroup x).sections ++ (d.arena.sheetGroup y).sections).map
          (·.retyped s type (max (d.arena.counter x) (d.arena.counter y)))⟩ ::
        (l₂.map d.arena.sheetGroup ++ l₃.map d.arena.sheetGroup) := by
  have hyx := Nat.ne_of_gt hlt
  have hx : x ∈ d.arena.liveChildren 1 := by simp [hl]
  have hy : y ∈ d.arena.liveChildren 1 := by simp [hl]
  have hkx := hw.kind?_of_mem_groups hx
  have hky := hw.kind?_of_mem_groups hy
  let fold : Arena → Arena := (·.absorb x y)
  have hw' : (d.mapArena fold).arena.WellFormed := hw.absorb hkx hky hlt
  have ht' : (d.mapArena fold).arena.Tidy := ht.absorb ⟨x, y, hkx, hky, hlt, rfl⟩
  have hp : x ∈ (d.mapArena fold).arena.liveChildren 1 := by
    refine (liveChildren_absorb_config hw hx hy hyx).symm ▸ ?_
    exact List.mem_filter.mpr ⟨hx, decide_eq_true (Ne.symm hyx)⟩
  have hsx : s ∈ (d.mapArena fold).arena.liveChildren x := by
    refine ((liveChildren_absorb hw hx hy hyx x).trans (if_pos rfl)).symm ▸ ?_
    exact List.mem_append.mpr hs
  have hcounter : (d.mapArena fold).arena.counter x =
      max (d.arena.counter x) (d.arena.counter y) := (counter_absorb hkx y x).trans (if_pos rfl)
  have hgroups : (d.mapArena fold).sheet.groups = l₁.map d.arena.sheetGroup ++
      ⟨x, type, (d.arena.sheetGroup x).sections ++ (d.arena.sheetGroup y).sections⟩ ::
      (l₂.map d.arena.sheetGroup ++ l₃.map d.arena.sheetGroup) := by
    rw [sheet_absorb hw ht hl]
    simp [sheetGroup, htype]
  have key := groups_nameSection hw' ht' hp hsx ((name?_absorb ..).trans htype) hgroups rfl
  rw [hcounter, mapArena_mapArena] at key
  exact key

end Steps

/-! ### What a change of type comes to on the sheet -/

section Change

/-- What is not of a type does not show it on the sheet. -/
private theorem sheetGroup_type_ne (hw : d.arena.WellFormed) (ht : d.arena.Tidy)
    {l : List Handle} (hl : ∀ q ∈ l, q ∈ d.arena.liveChildren 1 ∧ d.arena.name? q ≠ some type) :
    ∀ K ∈ l.map d.arena.sheetGroup, K.type ≠ type := by
  intro K hK
  obtain ⟨q, hq, rfl⟩ := List.mem_map.mp hK
  obtain ⟨hmem, hne⟩ := hl q hq
  obtain ⟨t, htype⟩ := exists_name_of_tidy ht (hw.kind?_of_mem_groups hmem) (Or.inl rfl)
  rw [htype] at hne
  simpa [sheetGroup, htype] using hne

variable (hw : d.arena.WellFormed) (ht : d.arena.Tidy) (hg : g ∈ d.arena.liveChildren 1)
include hw ht hg

/-- The other groups stay what they were when `g` gets another type. -/
private theorem map_sheetGroup_withName {l : List Handle}
    (hl : ∀ q ∈ l, q ∈ d.arena.liveChildren 1) (hne : g ∉ l) :
    l.map (d.arena.modifyContent g (·.withName type)).sheetGroup = l.map d.arena.sheetGroup := by
  refine List.map_congr_left fun q hq => ?_
  have hqg : q ≠ g := by
    rintro rfl
    exact hne hq
  rw [sheetGroup_withName hw ht (hw.kind?_of_mem_groups hg) (hl q hq), if_neg hqg]

variable (hs : s ∈ d.arena.liveChildren g)
include hs

/-- No other group has the type. -/
private theorem groups_alone (type : Text) {l₁ l₂ : List Handle}
    (hl : d.arena.liveChildren 1 = l₁ ++ g :: l₂) :
    (d.mapArena fun a => (a.modifyContent g (·.withName type)).nameSection s).sheet.groups =
      l₁.map d.arena.sheetGroup ++
        ⟨g, type, (d.arena.sheetGroup g).sections.map
          (·.retyped s type (d.arena.counter g))⟩ :: l₂.map d.arena.sheetGroup := by
  have hkg := hw.kind?_of_mem_groups hg
  let rename : Arena → Arena := (·.modifyContent g (·.withName type))
  have hw' : (d.mapArena rename).arena.WellFormed := hw.modifyContent (Content.kind_withName type) g
  have ht' : (d.mapArena rename).arena.Tidy :=
    ht.modifyContent (Content.kind_withName type) (fun _ hc => hc.withName type) g
  have hchildren : ∀ k, (d.mapArena rename).arena.liveChildren k = d.arena.liveChildren k :=
    fun k => liveChildren_modifyContent ..
  have hnodup := hw.nodup_liveChildren 1
  rw [hl, List.nodup_middle, List.nodup_cons, List.mem_append, not_or] at hnodup
  have hself := sheetGroup_withName hw ht hkg hg type
  rw [if_pos rfl] at hself
  have hgroups : (d.mapArena rename).sheet.groups = l₁.map d.arena.sheetGroup ++
      ⟨g, type, (d.arena.sheetGroup g).sections⟩ :: l₂.map d.arena.sheetGroup := by
    rw [sheet, hchildren, hl, List.map_append, List.map_cons, arena_mapArena, hself,
      map_sheetGroup_withName hw ht hg (by simp +contextual [hl]) hnodup.1.1,
      map_sheetGroup_withName hw ht hg (by simp +contextual [hl]) hnodup.1.2]
    rfl
  have key := groups_nameSection hw' ht' (p := g) (s := s) (by rwa [hchildren])
    (by rwa [hchildren]) (name?_withName_self hkg (Or.inl rfl) type) hgroups rfl
  rw [arena_mapArena, counter_withName, mapArena_mapArena] at key
  exact key

/-- Two groups are folded, of which one is that of the section, and the other has the type. -/
private theorem groups_folded {other : Handle} {l₁ l₂ l₃ : List Handle}
    (hl : d.arena.liveChildren 1 = l₁ ++ x :: l₂ ++ y :: l₃)
    (hxy : x = g ∧ y = other ∨ x = other ∧ y = g) (hother : d.arena.name? other = some type)
    (hlt : x < y) :
    (d.mapArena fun a => ((a.modifyContent g (·.withName type)).absorb x y).nameSection s
      ).sheet.groups =
      l₁.map d.arena.sheetGroup ++
        ⟨x, type, ((d.arena.sheetGroup x).sections ++ (d.arena.sheetGroup y).sections).map
          (·.retyped s type (max (d.arena.counter x) (d.arena.counter y)))⟩ ::
        (l₂.map d.arena.sheetGroup ++ l₃.map d.arena.sheetGroup) := by
  have hkg := hw.kind?_of_mem_groups hg
  let rename : Arena → Arena := (·.modifyContent g (·.withName type))
  have hw' : (d.mapArena rename).arena.WellFormed := hw.modifyContent (Content.kind_withName type) g
  have ht' : (d.mapArena rename).arena.Tidy :=
    ht.modifyContent (Content.kind_withName type) (fun _ hc => hc.withName type) g
  have hchildren : ∀ k, (d.mapArena rename).arena.liveChildren k = d.arena.liveChildren k :=
    fun k => liveChildren_modifyContent ..
  have htype : (d.mapArena rename).arena.name? x = some type := by
    refine (name?_withName hkg (Or.inl rfl) type x).trans ?_
    rcases hxy with ⟨rfl, -⟩ | ⟨rfl, -⟩
    · exact if_pos rfl
    · rw [hother, ite_self]
  have key := groups_absorb hw' ht' ((hchildren 1).trans hl) hlt htype (s := s) (by
    rw [hchildren, hchildren]
    rcases hxy with ⟨rfl, -⟩ | ⟨-, rfl⟩
    · exact Or.inl hs
    · exact Or.inr hs)
  -- one of the two is the section's own group, so that no other is
  obtain ⟨-, hothers⟩ := groups_around hw hl
  have hnot : g ∉ l₁ ++ l₂ ++ l₃ := by
    intro hgl
    obtain ⟨-, hgx, hgy⟩ := hothers g hgl
    rcases hxy with ⟨rfl, -⟩ | ⟨-, rfl⟩
    · exact hgx rfl
    · exact hgy rfl
  simp only [List.mem_append, not_or] at hnot
  have hsections : ∀ q ∈ d.arena.liveChildren 1,
      ((d.mapArena rename).arena.sheetGroup q).sections = (d.arena.sheetGroup q).sections :=
    fun q hq => by rw [arena_mapArena, sheetGroup_withName hw ht hkg hq]
  have hsub : ∀ {l : List Handle}, (∀ q ∈ l, q ∈ l₁ ++ l₂ ++ l₃) →
      ∀ q ∈ l, q ∈ d.arena.liveChildren 1 := fun h q hq => (hothers q (h q hq)).1
  rw [hsections x (by simp [hl]), hsections y (by simp [hl]), arena_mapArena,
    map_sheetGroup_withName hw ht hg (hsub (by simp +contextual)) hnot.1.1,
    map_sheetGroup_withName hw ht hg (hsub (by simp +contextual)) hnot.1.2,
    map_sheetGroup_withName hw ht hg (hsub (by simp +contextual)) hnot.2,
    counter_withName, counter_withName, mapArena_mapArena] at key
  exact key

variable (hapart : d.arena.Apart 1 fun _ => True)
include hapart

/-- The section's own group is the only one that comes to have the type. -/
private theorem retypes_alone
    (hall : ∀ other, d.arena.childNamed? 1 type = some other → other = g) :
    Sheet.Retypes d.arena.counter s type (d.arena.sheetGroup g) d.sheet.groups
      (d.mapArena fun a =>
        (a.modifyContent g (·.withName type)).nameSection s).sheet.groups := by
  obtain ⟨l₁, l₂, hl⟩ := List.append_of_mem hg
  have hnodup := hw.nodup_liveChildren 1
  rw [hl, List.nodup_middle, List.nodup_cons] at hnodup
  rw [groups_alone hw ht hg hs type hl, sheet, hl, List.map_append, List.map_cons]
  refine .alone ?_
  rw [← List.map_append]
  refine sheetGroup_type_ne hw ht fun q hq => ?_
  have hmem : q ∈ d.arena.liveChildren 1 := by
    rw [hl]
    exact List.perm_middle.mem_iff.mpr (List.mem_cons_of_mem _ hq)
  refine ⟨hmem, fun hqt => hnodup.1 ?_⟩
  -- the first group of the type would be another than `g`
  cases hchild : d.arena.childNamed? 1 type with
  | none => exact absurd hqt (childNamed?_eq_none_iff.mp hchild q hmem)
  | some other =>
    obtain ⟨homem, hotype⟩ := childNamed?_eq_some hchild
    rwa [← hall other hchild, ← hapart type trivial q hmem other homem hqt hotype]

/-- The section's own group and the one that has the type already become one. -/
private theorem retypes_folded {other : Handle}
    (hchild : d.arena.childNamed? 1 type = some other)
    (hxy : x = g ∧ y = other ∨ x = other ∧ y = g) (hlt : x < y) :
    Sheet.Retypes d.arena.counter s type (d.arena.sheetGroup g) d.sheet.groups
      (d.mapArena fun a =>
        ((a.modifyContent g (·.withName type)).absorb x y).nameSection s).sheet.groups := by
  obtain ⟨homem, hotype⟩ := childNamed?_eq_some hchild
  have hmem : x ∈ d.arena.liveChildren 1 ∧ y ∈ d.arena.liveChildren 1 := by
    rcases hxy with ⟨rfl, rfl⟩ | ⟨rfl, rfl⟩
    · exact ⟨hg, homem⟩
    · exact ⟨homem, hg⟩
  obtain ⟨l₁, l₂, l₃, hl⟩ := exists_split_of_sorted (hw.groups_sorted.filter _) hmem.1 hmem.2 hlt
  change d.arena.liveChildren 1 = _ at hl
  obtain ⟨-, hothers⟩ := groups_around hw hl
  -- a third group of the type would be `other`
  have hrest : ∀ K ∈ (l₁ ++ l₂ ++ l₃).map d.arena.sheetGroup, K.type ≠ type := by
    refine sheetGroup_type_ne hw ht fun q hq => ?_
    obtain ⟨hqmem, hqx, hqy⟩ := hothers q hq
    refine ⟨hqmem, fun hqt => ?_⟩
    obtain rfl := hapart type trivial q hqmem other homem hqt hotype
    rcases hxy with ⟨-, rfl⟩ | ⟨rfl, -⟩
    · exact hqy rfl
    · exact hqx rfl
  have hotherType : (d.arena.sheetGroup other).type = type := by simp [sheetGroup, hotype]
  rw [groups_folded hw ht hg hs hl hxy hotype hlt, ← List.cons_append, ← List.append_assoc, sheet,
    hl, List.map_append, List.map_append, List.map_cons, List.map_cons]
  rw [List.map_append, List.map_append] at hrest
  rcases hxy with ⟨rfl, rfl⟩ | ⟨rfl, rfl⟩
  · exact .earlier hotherType hrest
  · exact .later hotherType hrest

/-- **The groups after a change of type.** -/
theorem retypes_of_apart (type : Text) :
    Sheet.Retypes d.arena.counter s type (d.arena.sheetGroup g) d.sheet.groups
      (d.mapArena fun a =>
        ((a.modifyContent g (·.withName type)).mergeGroups 1).nameSection s).sheet.groups := by
  have hname : ∀ q ∈ d.arena.liveChildren 1, ∃ t, d.arena.name? q = some t := fun q hq =>
    exists_name_of_tidy ht (hw.kind?_of_mem_groups hq) (Or.inl rfl)
  rcases mergeGroups_rename hw hname hapart hg type with
    ⟨hall, hmerge⟩ | ⟨other, x, y, hchild, -, hxy, hlt, hmerge⟩
  · rw [mapArena, hmerge]
    exact retypes_alone hw ht hg hs hapart hall
  · rw [mapArena, hmerge]
    exact retypes_folded hw ht hg hs hapart hchild hxy hlt

end Change

end Document
end Uci
