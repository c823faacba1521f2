import Uci.Proofs.Arena.Liveness
import Uci.Proofs.Command.Change

/-!
# Changes are made as a whole

An operation makes its checks before it writes, but a change by path may be two operations: a list
makes way for an option, or is made and then gets its first value.  What the first one wrote is
not taken back, so that such a change is made as a whole only because the second one cannot be
refused.  This rests on the names of a document being in order: the list that made way leaves a
word behind that no sibling has, and a section that is still there to hang the option below.

## Main definitions

* `Edit.WholeOn` — an edit that, if it refuses, leaves this one document as it was.
* `Document.ChangesWhole` — what holds of the changes of a document.

## Main results

* `Edit.WholeOn.bind` — what cannot be refused may follow.
* `section_of_entryIn?` — an entry that a change comes to hangs below a live section.
* `accepts_replacement`, `hosts_of_addList`, `exists_sectionName_of_addSection` — the second step
  of each change that has two.
* `changesWhole_of_reachable` — **a refused change leaves the document as it was**, in every
  document.
-/

namespace Uci

open Document

variable {α β : Type} {d d' d₁ : Document}

/-! ### Edits of two steps -/

namespace Edit

theorem run_bind_of_ok {e : Edit α} {a : α} (h : e.run d = (.ok a, d')) (f : α → Edit β) :
    (e >>= f).run d = (f a).run d' := by
  rw [run_bind, h]

theorem run_read_bind_of_ok {r : Document → Except Refusal α} {a : α} (h : r d = .ok a)
    (f : α → Edit β) : (read r >>= f).run d = (f a).run d := by
  rw [run_bind, run_read, h]

/-- **An edit that is made as a whole or not at all**, on this document.  On another one it may
well stop half way. -/
def WholeOn (e : Edit α) (d : Document) : Prop := ∀ r d', e.run d = (.error r, d') → d' = d

theorem Atomic.wholeOn {e : Edit α} (he : e.Atomic) (d : Document) : e.WholeOn d := he d

theorem wholeOn_guarded (check : Document → Except Refusal α)
    (change : α → Document → β × Document) : (guarded check change).WholeOn d :=
  (atomic_guarded check change).wholeOn d

theorem wholeOn_read (r : Document → Except Refusal α) : (read r).WholeOn d :=
  fun _ _ hrun => (congrArg Prod.snd hrun).symm

/-- **What cannot be refused may follow.** -/
theorem WholeOn.bind {e : Edit α} {f : α → Edit β} (he : e.WholeOn d)
    (hf : ∀ a d₁, e.run d = (.ok a, d₁) → ∃ b d₂, (f a).run d₁ = (.ok b, d₂)) :
    (e >>= f).WholeOn d := by
  intro r d' hrun
  rw [run_bind] at hrun
  rcases hstep : run e d with ⟨r' | a, d₁⟩ <;> rw [hstep] at hrun
  · cases hrun
    exact he _ _ hstep
  · obtain ⟨b, d₂, hok⟩ := hf a _ hstep
    cases congrArg Prod.fst (hok.symm.trans hrun)

/-- What is made as a whole may follow a lookup. -/
theorem WholeOn.of_read {r : Document → Except Refusal α} {f : α → Edit β}
    (hf : ∀ a, r d = .ok a → (f a).WholeOn d) : (read r >>= f).WholeOn d := by
  intro e d' hrun
  rw [run_bind, run_read] at hrun
  cases hr : r d with
  | error e' =>
    rw [hr] at hrun
    exact (congrArg Prod.snd hrun).symm
  | ok a =>
    rw [hr] at hrun
    exact hf a hr e d' hrun

end Edit

namespace Document

open Arena

variable {g l s x : Handle} {n path type : Text} {name : Option Text}

/-! ### Where a change comes to -/

section

variable (hw : d.arena.WellFormed)
include hw

/-- The section that a change is made in is one of the document. -/
theorem mem_sections_of_queryEntry (hquery : d.queryEntry path = .ok (s, n)) : s ∈ d.sections := by
  obtain ⟨⟨⟩, -, hsearch⟩ := bind_eq_ok_iff.mp hquery
  split at hsearch
  · cases hsearch
  · obtain ⟨⟨o, r⟩, -, hlook, -⟩ := (firstPresent_eq_ok_iff (pairwise_splits path)).mp hsearch
    obtain ⟨s', hfind, heq⟩ := map_eq_ok_iff.mp hlook
    cases heq
    rw [find_section hw, sectionNamed] at hfind
    split at hfind
    · next hsome =>
      cases hfind
      exact List.mem_of_find?_eq_some hsome
    · cases hfind

/-- Whatever hangs right below a group, sections and entries alike, is no group itself and not
above one. -/
theorem exists_group_of_mem_sections (hs : s ∈ d.sections) :
    ∃ g ∈ d.arena.liveChildren 1, d.arena.parent? s = some g ∧
      ∃ k, d.arena.kind? s = some k ∧ NodeKind.sectionType.mayHold k = true := by
  rw [sections_eq hw] at hs
  obtain ⟨g, hg, hs⟩ := List.mem_flatMap.mp hs
  have hparent := hw.mem_liveChildren_iff.mp hs
  obtain ⟨kg, k, hkg, hk, hholds⟩ := hw.parent_holds s g hparent
  rw [hw.kind?_of_mem_groups hg] at hkg
  cases hkg
  exact ⟨g, hg, hparent, k, hk, hholds⟩

end

/-- A walk that is none over the sections visits the live children. -/
private theorem eq_liveChildren_of_below {hs : List Handle} (hroot : d.arena.kind? s ≠ some .root)
    (hconfig : d.arena.kind? s ≠ some .config) (h : d.below s = .ok hs) :
    hs = d.arena.liveChildren s := by
  obtain ⟨w, hwalk, hrest⟩ := bind_eq_ok_iff.mp h
  obtain ⟨m, hm, hkind⟩ := bind_eq_ok_iff.mp hwalk
  have hk : d.arena.kind? s = some m.kind := kind?_of_get? (live_eq_ok_iff.mp hm).1
  cases hrest
  split at hkind
  · next h0 => exact absurd (h0 ▸ hk) hroot
  · next h1 => exact absurd (h1 ▸ hk) hconfig
  · cases hkind
    exact Walk.filter_hangs_children _ _
  · cases hkind
    exact Walk.filter_hangs_children _ _
  · cases hkind

/-- What a search ends at passed its test. -/
private theorem of_findM?_eq_some {γ : Type} {f : γ → Except Refusal Bool} {xs : List γ} {y : γ}
    (h : xs.findM? f = .ok (some y)) : y ∈ xs ∧ f y = .ok true := by
  induction xs with
  | nil => cases h
  | cons z zs ih =>
    rw [List.findM?] at h
    obtain ⟨b, hb, hrest⟩ := bind_eq_ok_iff.mp h
    cases b with
    | true =>
      cases hrest
      exact ⟨List.mem_cons_self, hb⟩
    | false =>
      obtain ⟨hmem, htest⟩ := ih hrest
      exact ⟨List.mem_cons_of_mem _ hmem, htest⟩

/-- Only options and lists have a name that counts. -/
private theorem named_of_entryName (h : d.entryName x = .ok (some n)) :
    d.optionName x = .ok n ∨ d.listName x = .ok n := by
  obtain ⟨role, -, hrest⟩ := bind_eq_ok_iff.mp h
  cases role with
  | option =>
    obtain ⟨m, hm, heq⟩ := bind_eq_ok_iff.mp hrest
    cases heq
    exact Or.inl hm
  | list =>
    obtain ⟨m, hm, heq⟩ := bind_eq_ok_iff.mp hrest
    cases heq
    exact Or.inr hm
  | _ => cases hrest

/-- Of what may hang below a group only a section holds entries. -/
private theorem eq_section_of_mayHold (k k' : NodeKind) : NodeKind.sectionType.mayHold k = true →
    k.mayHold k' = true → k' = .option ∨ k' = .list → k = .section := by
  cases k <;> cases k' <;> decide

/-- **An entry that a change comes to hangs below a live section.**  What looks like a section to
a lookup may be an option or a list right below a group; no entry is found there. -/
theorem section_of_entryIn? (hw : d.arena.WellFormed) (hs : s ∈ d.sections)
    (hx : d.entryIn? s n = .ok (some x)) :
    d.arena.kind? s = some .section ∧ x ∈ d.arena.liveChildren s ∧
      (d.arena.kind? x = some .option ∨ d.arena.kind? x = some .list) ∧
      d.arena.name? x = some n := by
  obtain ⟨g, -, -, k, hk, hholds⟩ := exists_group_of_mem_sections hw hs
  obtain ⟨xs, hbelow, hfind⟩ := bind_eq_ok_iff.mp hx
  obtain ⟨hmem, htest⟩ := of_findM?_eq_some hfind
  obtain ⟨m, hm, heq⟩ := bind_eq_ok_iff.mp htest
  have hname : m = some n := of_decide_eq_true (Except.ok.inj heq)
  subst hname
  obtain ⟨-, hkx, hnx⟩ := named_entry_iff.mp (named_of_entryName hm)
  have hxs : xs = d.arena.liveChildren s := by
    refine eq_liveChildren_of_below ?_ ?_ hbelow <;> rw [hk] <;> rintro ⟨⟩ <;> cases hholds
  rw [hxs] at hmem
  obtain ⟨k', kx, hk', hkx', hholds'⟩ := hw.parent_holds x s (hw.mem_liveChildren_iff.mp hmem)
  have hentry : kx = .option ∨ kx = .list := by simpa [hkx'] using hkx
  rw [hk] at hk'
  cases hk'
  rw [hk, eq_section_of_mayHold k kx hholds hholds' hentry]
  exact ⟨rfl, hmem, hkx, hnx⟩

/-! ### The second steps -/

/-- **An option takes the place of what was removed**: the name is a word that nothing in the
section has any more, and the section is still there. -/
theorem accepts_replacement (hd : d.Built OnAny) (hs : s ∈ d.sections)
    (hx : d.entryIn? s n = .ok (some x)) (value : Text) :
    ∃ d₁ o d₂, d.Accepts (.remove x) none d₁ ∧ d₁.Accepts (.addOption s n value) (some o) d₂ := by
  have hw := hd.wellFormed
  obtain ⟨-, hproper, hexclusive⟩ := hd.names
  obtain ⟨hk, hmem, hkx, hnx⟩ := section_of_entryIn? hw hs hx
  obtain ⟨g, hg, hparent, -⟩ := exists_group_of_mem_sections hw hs
  have hne : ∀ {y : Handle} {k : NodeKind}, d.arena.kind? y = some k → k ≠ .option → k ≠ .list →
      y ≠ x := by
    rintro y k hky hoption hlist rfl
    rcases hkx with hkx | hkx <;> rw [hky] at hkx <;> cases hkx
    · exact hoption rfl
    · exact hlist rfl
  obtain ⟨kx, hkx', hroot, hconfig⟩ : ∃ k, d.arena.kind? x = some k ∧ k ≠ .root ∧ k ≠ .config := by
    rcases hkx with hkx | hkx <;> exact ⟨_, hkx, by decide, by decide⟩
  have hremove : d.Accepts (.remove x) none (d.mapArena (·.detach x)) :=
    .remove hkx' hroot hconfig
  have hw₁ : (d.arena.detach x).WellFormed := hremove.wellFormed hw
  have hlive : (d.arena.detach x).isLive s = true := by
    have hpg : (d.arena.detach x).parent? s = some g := by
      rw [parent?_detach, if_neg (hne hk (by decide) (by decide)), hparent]
    have hp1 : (d.arena.detach x).parent? g = some 1 := by
      rw [parent?_detach, if_neg (hne (hw.kind?_of_mem_groups hg) (by decide) (by decide))]
      exact hw.mem_liveChildren_iff.mp hg
    rw [hw₁.isLive_of_parent hpg, hw₁.isLive_of_parent hp1, hw₁.isLive_config]
  have hword : Syntax.isWord n = true := by
    obtain ⟨m, hm, hword⟩ := hproper.exists_word (Or.inr hkx)
    rw [hnx] at hm
    cases hm
    exact hword
  have hunused : (d.arena.detach x).Unused s n none := by
    intro y hy _ hny
    rw [liveChildren_detach, List.mem_filter] at hy
    rw [name?_eq, content?_detach, ← name?_eq] at hny
    exact of_decide_eq_true hy.2 (hexclusive s _ hk n trivial y hy.1 x hmem hny hnx)
  refine ⟨_, _, _, hremove, .addOption ⟨hlive, .section, ?_, rfl⟩ hword hunused⟩
  exact (kind?_detach _ _ _).trans hk

/-- A list that comes in takes a value. -/
theorem hosts_of_addList (hw : d.arena.WellFormed) (hrun : (addList s n).run d = (.ok l, d₁)) :
    d₁.Hosts l .element := by
  refine ⟨?_, .list, kind?_of_addList hw hrun, rfl⟩
  have hacc := ((Operation.addList s n).run_eq_ok_iff_of_edit hw rfl
    fun _ _ => Option.some.inj).mp hrun
  have hw₁ := hacc.wellFormed hw
  cases hacc with
  | addList hp _ _ =>
    exact (hw₁.isLive_of_parent (parent?_hang_size hp.lt_size _)).trans
      ((isLive_hang hw hw₁ hp.lt_size hp.lt_size).trans hp.1)

private theorem sectionName_hangSection {a : Arena} (hw : a.WellFormed)
    (hg : g ∈ a.liveChildren 1) (hd : d.arena = a.hangSection g type name) :
    d.sectionName a.size = .ok (name.getD (generatedName type (a.counter g))) := by
  have hkg := hw.kind?_of_mem_groups hg
  have hlt := lt_size_of_kind? hkg
  have hparent : (a.hangSection g type name).parent? a.size = some g := by
    rw [parent?_hangSection hlt, if_pos rfl]
  have hlive : (a.hangSection g type name).isLive a.size = true := by
    rw [(hw.hangSection hkg type name).isLive_of_parent hparent, isLive_hangSection hw hkg hlt,
      hw.isLive_of_parent (hw.mem_liveChildren_iff.mp hg), hw.isLive_config]
  rw [sectionName_eq_ok, isLive, hd]
  refine ⟨hlive, ?_, ?_⟩
  · exact (kind?_hangSection hlt name _).trans (if_pos rfl)
  · exact (name?_hangSection hlt name _).trans (if_pos rfl)

/-- A section that comes in has a name. -/
theorem exists_sectionName_of_addSection (hw : d.arena.WellFormed)
    (hrun : (addSection x type name).run d = (.ok s, d₁)) : ∃ m, d₁.sectionName s = .ok m := by
  have hacc := ((Operation.addSection x type name).run_eq_ok_iff_of_edit hw rfl
    fun _ _ => Option.some.inj).mp hrun
  cases hacc with
  | addSection _ _ _ hg _ =>
    exact ⟨_, sectionName_hangSection hw (childNamed?_eq_some hg).1 (arena_mapArena _ d)⟩
  | addSectionAndGroup _ _ _ _ =>
    -- the group comes in first, and the section next to it
    obtain ⟨hwg, -⟩ := wellFormed_hang_group hw type
    have hg := hwg.mem_liveChildren_iff.mpr
      (parent?_hang_size hw.one_lt_size (.sectionType (some type) 0))
    have hsize : (d.arena.hang 1 (.sectionType (some type) 0)).size = d.allocated + 1 :=
      size_hang _ _ _
    rw [← hsize]
    exact ⟨_, sectionName_hangSection hwg hg (arena_mapArena _ d)⟩

/-! ### Changes of two operations -/

section

variable (hd : d.Built OnAny)
include hd

/-- **A list makes way for an option**, both in one. -/
theorem exists_run_replacement (hquery : d.queryEntry path = .ok (s, n))
    (hentry : d.entryIn? s n = .ok (some l)) (value : Text) :
    ∃ d₁ o d₂, (remove l).run d = (.ok (), d₁) ∧ (addOption s n value).run d₁ = (.ok o, d₂) := by
  have hw := hd.wellFormed
  obtain ⟨d₁, o, d₂, hremove, hadd⟩ :=
    accepts_replacement hd (mem_sections_of_queryEntry hw hquery) hentry value
  refine ⟨d₁, o, d₂, ?_, ?_⟩
  · exact ((Operation.remove l).run_eq_ok_iff_of_edit hw rfl fun _ _ _ => rfl).mpr hremove
  · exact ((Operation.addOption s n value).run_eq_ok_iff_of_edit (hremove.wellFormed hw) rfl
      fun _ _ => Option.some.inj).mpr hadd

/-- A list that was made takes its first value. -/
theorem exists_run_addElement (hrun : (addList s n).run d = (.ok l, d₁)) (value : Text) :
    ∃ x d₂, (addElement l value).run d₁ = (.ok x, d₂) := by
  have hw := hd.wellFormed
  have hacc := ((Operation.addList s n).run_eq_ok_iff_of_edit hw rfl
    fun _ _ => Option.some.inj).mp hrun
  exact ⟨_, _, ((Operation.addElement l value).run_eq_ok_iff_of_edit (hacc.wellFormed hw) rfl
    fun _ _ => Option.some.inj).mpr (.addElement (hosts_of_addList hw hrun))⟩

private theorem wholeOn_setByPath (path value : Text) : (setByPath path value).WholeOn d := by
  unfold setByPath
  refine .of_read fun ⟨s, n⟩ hquery => .of_read fun x hx => ?_
  have hadd : (do let _ ← addOption s n value : Edit Unit).WholeOn d :=
    (Edit.wholeOn_guarded _ _).bind fun _ d₂ _ => ⟨(), d₂, rfl⟩
  unfold entryWithRole? at hx
  obtain ⟨o, hentry, hrole⟩ := bind_eq_ok_iff.mp hx
  cases o with
  | none =>
    cases hrole
    exact hadd
  | some y =>
    obtain ⟨role, -, hsome⟩ := bind_eq_ok_iff.mp hrole
    cases hsome
    have hreplace : (do remove y; let _ ← addOption s n value : Edit Unit).WholeOn d := by
      refine (Edit.wholeOn_guarded _ _).bind fun _ d₁ hrun => ?_
      obtain ⟨d₁', o, d₂, hremove, hadded⟩ := exists_run_replacement hd hquery hentry value
      cases hrun.symm.trans hremove
      exact ⟨(), d₂, Edit.run_bind_of_ok hadded _⟩
    cases role with
    | option => exact Edit.wholeOn_guarded _ _
    | _ => exact hreplace

private theorem wholeOn_appendByPath (path value : Text) :
    (appendByPath path value).WholeOn d := by
  unfold appendByPath
  refine .of_read fun ⟨s, n⟩ hquery => .of_read fun x hx => ?_
  cases x with
  | some y => exact (Edit.wholeOn_guarded _ _).bind fun _ d₂ _ => ⟨(), d₂, rfl⟩
  | none =>
    refine (Edit.wholeOn_guarded _ _).bind fun l d₁ hrun => ?_
    obtain ⟨x, d₂, hadded⟩ := exists_run_addElement hd hrun value
    exact ⟨(), d₂, Edit.run_bind_of_ok hadded _⟩

private theorem wholeOn_addAndName (type : Text) (name : Option Text) :
    (addAndName type name).WholeOn d := by
  refine ((atomic_addSection _ _ _).wholeOn d).bind fun s d₁ hrun => ?_
  obtain ⟨m, hm⟩ := exists_sectionName_of_addSection hd.wellFormed hrun
  exact ⟨m, d₁, Edit.run_read_eq_ok_iff.mpr ⟨hm, rfl⟩⟩

end

private theorem wholeOn_removeByPath (path : Text) : (removeByPath path).WholeOn d :=
  .of_read fun _ _ => Edit.wholeOn_guarded _ _

private theorem wholeOn_renameByPath (path name : Text) : (renameByPath path name).WholeOn d := by
  refine .of_read fun x _ => .of_read fun role _ => ?_
  cases role with
  | «section» | option | list => exact Edit.wholeOn_guarded _ _
  | _ => exact Edit.wholeOn_read _

end Document

/-- **A change is made as a whole or not at all.** -/
theorem Change.wholeOn (hd : d.Built OnAny) (c : Change) : c.edit.WholeOn d := by
  cases c with
  | set path value => exact (wholeOn_setByPath hd path value).bind fun _ d₂ _ => ⟨[], d₂, rfl⟩
  | add type name => exact (wholeOn_addAndName hd type name).bind fun _ d₂ _ => ⟨_, d₂, rfl⟩
  | append path value =>
    exact (wholeOn_appendByPath hd path value).bind fun _ d₂ _ => ⟨[], d₂, rfl⟩
  | delete path => exact (wholeOn_removeByPath path).bind fun _ d₂ _ => ⟨[], d₂, rfl⟩
  | rename path name => exact (wholeOn_renameByPath path name).bind fun _ d₂ _ => ⟨[], d₂, rfl⟩

/-! ### Every document -/

namespace Document

/-- **Changes are made as a whole or not at all.** -/
structure ChangesWhole (d : Document) : Prop where
  /-- A change that is refused leaves the document as it was: its nodes, removed ones included,
  their number, the counters and the package. -/
  refused : ∀ (c : Change) e d', c.edit.run d = (.error e, d') → d' = d
  /-- Once a list has made way for an option, the option comes in. -/
  replaced : ∀ path value s n l, d.queryEntry path = .ok (s, n) → d.entryIn? s n = .ok (some l) →
    d.role l = .ok .list → ∃ d₁ o d₂, (remove l).run d = (.ok (), d₁) ∧
      (addOption s n value).run d₁ = (.ok o, d₂) ∧ (Change.set path value).edit.run d = (.ok [], d₂)
  /-- Once a list was made, it takes its first value. -/
  appended : ∀ path value s n l d₁, d.queryEntry path = .ok (s, n) → d.entryIn? s n = .ok none →
    (addList s n).run d = (.ok l, d₁) → ∃ x d₂, (addElement l value).run d₁ = (.ok x, d₂) ∧
      (Change.append path value).edit.run d = (.ok [], d₂)

/-- **A refused change leaves every document as it was**, and of a change of two operations the
second one is not refused after the first. -/
theorem changesWhole_of_reachable (hd : d.Reachable OnAny) : d.ChangesWhole := by
  have hb := hd.built fun _ _ _ => trivial
  refine
    { refused := fun c e d' hrun => c.wholeOn hb e d' hrun
      replaced := fun path value s n l hquery hentry hrole => ?_
      appended := fun path value s n l d₁ hquery hentry hlist => ?_ }
  · obtain ⟨d₁, o, d₂, hremove, hadd⟩ := exists_run_replacement hb hquery hentry value
    have hfound : d.entryWithRole? s n = .ok (some (l, .list)) := by
      refine bind_eq_ok_iff.mpr ⟨some l, hentry, ?_⟩
      exact bind_eq_ok_iff.mpr ⟨.list, hrole, rfl⟩
    have hset : (setByPath path value).run d = (.ok (), d₂) :=
      (Edit.run_read_bind_of_ok hquery _).trans <| (Edit.run_read_bind_of_ok hfound _).trans <|
        (Edit.run_bind_of_ok hremove _).trans (Edit.run_bind_of_ok hadd _)
    exact ⟨d₁, o, d₂, hremove, hadd, Edit.run_bind_of_ok hset _⟩
  · obtain ⟨x, d₂, helement⟩ := exists_run_addElement hb hlist value
    have happend : (appendByPath path value).run d = (.ok (), d₂) :=
      (Edit.run_read_bind_of_ok hquery _).trans <| (Edit.run_read_bind_of_ok hentry _).trans <|
        (Edit.run_bind_of_ok hlist _).trans (Edit.run_bind_of_ok helement _)
    exact ⟨x, d₂, helement, Edit.run_bind_of_ok happend _⟩

/-- A list makes way for an option.  Nothing is appended under a name of two words, and nothing in
the option right below a group that a lookup takes for a section. -/
theorem changesWhole_beside_option :
    let d := empty.play [.addSection 0 "a".toList (some "x".toList), .addOption 2 "y".toList [],
      .addSection 1 "b".toList (some "y".toList), .addList 3 "l".toList,
      .addElement 7 "v".toList]
    d.Reachable OnAny ∧ d.queryEntry "x.l".toList = .ok (3, "l".toList) ∧
      d.entryIn? 3 "l".toList = .ok (some 7) ∧ d.role 7 = .ok .list ∧
      ((Change.set "x.l".toList []).edit.run d).1 = .ok [] ∧
      ((Change.append "x.b d".toList []).edit.run d).2 = d ∧
      ((Change.append "y.l".toList []).edit.run d).2 = d ∧ d.ChangesWhole := by
  intro d
  have hd : d.Reachable OnAny :=
    Reachable.play .empty ⟨trivial, trivial, trivial, trivial, trivial, trivial⟩
  have hword : ((Change.append "x.b d".toList []).edit.run d).1 =
      .error (.misuse (.notAWord .listName "b d".toList)) := by rfl
  have hwalk : ((Change.append "y.l".toList []).edit.run d).1 =
      .error (.mismatch (.walk .option)) := by rfl
  have hwhole := changesWhole_of_reachable hd
  have hquery : d.queryEntry "x.l".toList = .ok (3, "l".toList) := by rfl
  have hentry : d.entryIn? 3 "l".toList = .ok (some 7) := by rfl
  have hrole : d.role 7 = .ok .list := by rfl
  have hset : ((Change.set "x.l".toList []).edit.run d).1 = .ok [] := by rfl
  refine ⟨hd, hquery, hentry, hrole, hset, ?_, ?_, hwhole⟩
  · exact hwhole.refused _ _ _ (Prod.ext hword rfl)
  · exact hwhole.refused _ _ _ (Prod.ext hwalk rfl)

end Document
end Uci
