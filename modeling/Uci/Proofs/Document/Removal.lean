import Uci.Proofs.Arena.Liveness
import Uci.Proofs.Document.Naming
import Uci.Document.Walk

/-!
# Removed for good

A node that was removed stays removed, whatever is done to the document after that.  Its
handle still names it, and so do the lists of children it stands in; it is even handed over
when its group is folded into another.  What no edit does is to give a node that has lost
its parent another one, so no way up is ever mended.  There is one other way for a node to
go, that of a group which is folded into another; nothing else goes with it.

## Main definitions

* `Document.Ends d op x` — the operation, if it is accepted, takes the node `x` away.
* `Document.Unreadable d x e` — every question about `x` ends in the refusal `e`.
* `Document.Gone d x` — nothing can be read from `x` or done to it but to remove it again.
* `Document.Folded d d' g target` — the group `g` went, and all it held is below `target`.
* `Document.RemovedForGood` — what holds of removals in a document.

## Main results

* `Accepts.isLive_iff` — **what an accepted operation takes away**.
* `gone_of_dead`, `Built.gone_play` — a node that is not live is gone, now and ever after.
* `Accepts.folded` — a group that goes without being removed hands over what it held.
* `removedForGood_of_reachable` — removals are for good in every document, whatever handles
  the operations named.
-/

namespace Uci
namespace Document

open Arena

variable {d d' : Document} {op : Operation} {ops : List Operation} {r : Option Handle}
  {g h n s x y : Handle} {k : NodeKind} {type : Text}

/-! ### What an operation takes away -/

/-- **The operation takes the node away**, if it is accepted. -/
inductive Ends (d : Document) : Operation → Handle → Prop
  /-- A node is removed with all that hangs below it. -/
  | removed {n x : Handle} : d.arena.Within n x → Ends d (.remove n) x
  /-- Of two groups that would be of one type the younger goes. -/
  | absorbed {s g other : Handle} {type : Text} : d.arena.parent? s = some g →
    d.arena.childNamed? 1 type = some other → other ≠ g →
    Ends d (.setSectionType s type) (max g other)

theorem ends_remove_iff : d.Ends (.remove n) x ↔ d.arena.Within n x := by
  constructor
  · intro h
    cases h with
    | removed hwithin => exact hwithin
  · exact .removed

theorem ends_setSectionType_iff :
    d.Ends (.setSectionType s type) x ↔ ∃ g other, d.arena.parent? s = some g ∧
      d.arena.childNamed? 1 type = some other ∧ other ≠ g ∧ x = max g other := by
  constructor
  · intro h
    cases h with
    | absorbed hp hchild hne => exact ⟨_, _, hp, hchild, hne, rfl⟩
  · rintro ⟨g, other, hp, hchild, hne, rfl⟩
    exact .absorbed hp hchild hne

/-- One of two groups goes, and it is known which. -/
theorem ends_iff_eq_max {other : Handle} (hp : d.arena.parent? s = some g)
    (hchild : d.arena.childNamed? 1 type = some other) (hne : other ≠ g) :
    d.Ends (.setSectionType s type) x ↔ x = max g other := by
  refine ends_setSectionType_iff.trans ⟨?_, fun hx => ⟨g, other, hp, hchild, hne, hx⟩⟩
  rintro ⟨g', other', hp', hchild', -, rfl⟩
  rw [Option.some.inj (hp'.symm.trans hp), Option.some.inj (hchild'.symm.trans hchild)]

section

variable (hw : d.arena.WellFormed)
include hw

/-- What a change of type does to groups, before the section is named. -/
private theorem merged_cases (hp : d.arena.Proper) (he : d.arena.Exclusive)
    (hs : d.HangsLive s .section g) (type : Text) :
    ((∀ other, d.arena.childNamed? 1 type = some other → other = g) ∧
      (d.arena.modifyContent g (·.withName type)).mergeGroups 1 =
        d.arena.modifyContent g (·.withName type)) ∨
    ∃ other x, d.arena.childNamed? 1 type = some other ∧ other ≠ g ∧ x < max g other ∧
      x ∈ d.arena.liveChildren 1 ∧ max g other ∈ d.arena.liveChildren 1 ∧
      (d.arena.modifyContent g (·.withName type)).mergeGroups 1 =
        (d.arena.modifyContent g (·.withName type)).absorb x (max g other) := by
  have hg : g ∈ d.arena.liveChildren 1 := mem_groups_of_isLive hw
    ((hw.isLive_of_parent hs.2.2).symm.trans hs.1) (hw.kind?_group hs.2.1 hs.2.2)
  have hnames : ∀ q ∈ d.arena.liveChildren 1, ∃ t, d.arena.name? q = some t := by
    intro q hq
    obtain ⟨t, ht, -⟩ := hp.exists_word (Or.inl (hw.kind?_of_mem_groups hq))
    exact ⟨t, ht⟩
  rcases mergeGroups_rename hw hnames (he 1 _ hw.kind_config) hg type with
    halone | ⟨other, x, y, hchild, hne, hxy, hlt, hmerge⟩
  · exact Or.inl halone
  · have hother := (childNamed?_eq_some hchild).1
    refine Or.inr ⟨other, x, hchild, hne, ?_⟩
    rcases hxy with ⟨rfl, rfl⟩ | ⟨rfl, rfl⟩
    · rw [Nat.max_eq_right (Nat.le_of_lt hlt)]
      exact ⟨hlt, hg, hother, hmerge⟩
    · rw [Nat.max_eq_left (Nat.le_of_lt hlt)]
      exact ⟨hlt, hother, hg, hmerge⟩

/-- Of a change of type nobody goes but the younger of two groups that meet. -/
private theorem isLive_retyped (hp : d.arena.Proper) (he : d.arena.Exclusive)
    (hs : d.HangsLive s .section g) (type : Text) (x : Handle) :
    (((d.arena.modifyContent g (·.withName type)).mergeGroups 1).nameSection s).isLive x = true ↔
      d.isLive x = true ∧ ¬d.Ends (.setSectionType s type) x := by
  have hb := hw.modifyContent (Content.kind_withName type) g
  have hrename := isLive_modifyContent hw (Content.kind_withName type) g x
  -- the last step names the section, which changes no parent
  rw [isLive_nameSection hb.mergeGroups]
  rcases merged_cases hw hp he hs type with
    ⟨hall, hmerge⟩ | ⟨other, y, hchild, hne, hlt, hy, hz, hmerge⟩
  · rw [hmerge, hrename]
    refine (and_iff_left fun hends => ?_).symm
    obtain ⟨g', other, hp', hchild, hne, -⟩ := ends_setSectionType_iff.mp hends
    exact hne ((hall other hchild).trans (Option.some.inj (hs.2.2.symm.trans hp')))
  · rw [hmerge, isLive_absorb hb (by rwa [liveChildren_modifyContent])
      (by rwa [liveChildren_modifyContent]) hlt, hrename]
    exact and_congr_right' (not_congr (ends_iff_eq_max hs.2.2 hchild hne).symm)

/-- **What an accepted operation takes away**: the nodes that it ends, and no others; and it
brings no node back. -/
theorem Accepts.isLive_iff (hp : d.arena.Proper) (he : d.arena.Exclusive) (h : d.Accepts op r d')
    (hx : x < d.allocated) : d'.isLive x = true ↔ d.isLive x = true ∧ ¬d.Ends op x := by
  have hsame : d'.isLive x = d.isLive x → ¬d.Ends op x →
      (d'.isLive x = true ↔ d.isLive x = true ∧ ¬d.Ends op x) := by
    intro heq hno
    rw [heq]
    exact (and_iff_left hno).symm
  have hhang : ∀ {p : Handle} {k : NodeKind} {c : Content}, d.Hosts p k →
      (d.arena.hang p c).WellFormed → (d.arena.hang p c).isLive x = d.arena.isLive x :=
    fun hp hb => isLive_hang hw hb hp.lt_size hx
  have hrename : ∀ {f : Content → Content}, (∀ c, (f c).kind = c.kind) → ∀ y,
      (d.arena.modifyContent y f).isLive x = d.arena.isLive x :=
    fun hf y => isLive_modifyContent hw hf y x
  have hwd' := h.wellFormed hw
  cases h with
  | setPackage _ => exact hsame rfl nofun
  | addSection _ _ _ hg _ =>
    exact hsame (isLive_hangSection hw (hw.kind?_of_mem_groups (childNamed?_eq_some hg).1) hx) nofun
  | @addSectionAndGroup h type name _ _ _ _ =>
    obtain ⟨hw₁, hk⟩ := wellFormed_hang_group hw type
    have hx₁ : x < (d.arena.hang 1 (.sectionType (some type) 0)).size := by
      rw [size_hang]
      exact Nat.lt_succ_of_lt hx
    exact hsame ((isLive_hangSection hw₁ hk hx₁).trans (isLive_hang hw hw₁ hw.one_lt_size hx)) nofun
  | addOption hp _ _ => exact hsame (hhang hp hwd') nofun
  | addList hp _ _ => exact hsame (hhang hp hwd') nofun
  | addElement hp => exact hsame (hhang hp hwd') nofun
  | @remove n k hk hroot hconfig =>
    have hn0 : n ≠ 0 := ne_of_kind? hk hw.kind_root hroot
    have hn1 : n ≠ 1 := ne_of_kind? hk hw.kind_config hconfig
    exact (isLive_detach hw hn0 hn1 x).trans (and_congr_right' (not_congr ends_remove_iff.symm))
  | setSectionType hs _ _ => exact isLive_retyped hw hp he hs _ x
  | setSectionName _ _ _ => exact hsame (hrename (Content.kind_withName _) _) nofun
  | setOptionName _ _ _ => exact hsame (hrename (Content.kind_withName _) _) nofun
  | setListName _ _ _ => exact hsame (hrename (Content.kind_withName _) _) nofun
  | setOptionValue _ _ => exact hsame (hrename (Content.kind_withValue _) _) nofun
  | setElementValue _ _ => exact hsame (hrename (Content.kind_withValue _) _) nofun

theorem Accepts.lt_allocated (h : d.Accepts op r d') (hx : x < d.allocated) : x < d'.allocated := by
  obtain ⟨c, hc⟩ := exists_content? hx
  exact lt_size_of_kind? (h.kind? hw (kind?_eq_some_iff.mpr ⟨c, hc, rfl⟩))

end

/-! ### What is gone -/

/-- **Nothing can be read from the node**: every question ends in the same refusal. -/
structure Unreadable (d : Document) (x : Handle) (e : Refusal) : Prop where
  role : d.role x = .error e
  sectionType : d.sectionType x = .error e
  sectionName : d.sectionName x = .error e
  optionName : d.optionName x = .error e
  optionValue : d.optionValue x = .error e
  listName : d.listName x = .error e
  listValues : d.listValues x = .error e
  elementValue : d.elementValue x = .error e
  /-- No walk begins there. -/
  walk : d.walk x = .error e

/-- **Gone**: nothing can be read from the node or done to it but to remove it again, which
changes nothing that is live. -/
structure Gone (d : Document) (x : Handle) : Prop where
  dead : d.isLive x = false
  unreadable : d.Unreadable x (.absence (.removed x))
  /-- Every operation on it but its removal is refused, and leaves the document as it was. -/
  refuses : ∀ op : Operation, op.target? = some x → op ≠ .remove x →
    op.edit.run d = (.error (.absence (.removed x)), d)
  /-- To remove it is accepted. -/
  removes : ((Operation.remove x).edit.run d).1 = .ok none
  /-- The same nodes are live after that. -/
  isLive_after : ∀ y, ((Operation.remove x).after d).isLive y = d.isLive y
  /-- No other node has changed. -/
  get?_after : ∀ y, y ≠ x → ((Operation.remove x).after d).arena.get? y = d.arena.get? y

section

variable (hx : x < d.allocated) (hdead : d.isLive x = false)
include hx hdead

private theorem live_of_dead : d.live x = .error (.absence (.removed x)) := by
  obtain ⟨n, hn⟩ := Option.isSome_iff_exists.mp ((get?_isSome_iff d.arena x).mpr hx)
  unfold live
  rw [node_eq_ok_iff.mpr hn]
  show (if d.isLive x then _ else _) = _
  rw [hdead]
  rfl

private theorem liveOf_of_dead (k : NodeKind) : d.liveOf x k = .error (.absence (.removed x)) := by
  rw [liveOf, live_of_dead hx hdead]
  rfl

private theorem parentOf_of_dead (k : NodeKind) :
    d.parentOf x k = .error (.absence (.removed x)) := by
  rw [parentOf, liveOf_of_dead hx hdead]
  rfl

theorem unreadable_of_dead : d.Unreadable x (.absence (.removed x)) := by
  have hlive := live_of_dead hx hdead
  have hof := liveOf_of_dead hx hdead
  refine
    { role := ?_, sectionType := ?_, sectionName := ?_, optionName := ?_, optionValue := ?_
      listName := ?_, listValues := ?_, elementValue := ?_, walk := ?_ }
  · rw [role, hlive]; rfl
  · rw [sectionType, groupOf, parentOf_of_dead hx hdead]; rfl
  · rw [sectionName, hof]; rfl
  · rw [optionName, hof]; rfl
  · rw [optionValue, hof]; rfl
  · rw [listName, hof]; rfl
  · rw [listValues, hof]; rfl
  · rw [elementValue, hof]; rfl
  · rw [walk, hlive]; rfl

omit hx hdead in
/-- An edit whose check refuses ends there. -/
private theorem run_guarded_of_error {α β γ : Type} {check : Document → Except Refusal α}
    {change : α → Document → β × Document} {f : β → γ} {e : Refusal} (hcheck : check d = .error e) :
    Edit.run (f <$> Edit.guarded check change) d = (.error e, d) := by
  rw [Edit.run_map, Edit.run_guarded, hcheck]
  rfl

/-- Every operation on a node that is not live, but its removal, begins with the check that it
is. -/
theorem refuses_of_dead (htarget : op.target? = some x) (hop : op ≠ .remove x) :
    op.edit.run d = (.error (.absence (.removed x)), d) := by
  have hlive := live_of_dead hx hdead
  have hof := liveOf_of_dead hx hdead
  have hparent := parentOf_of_dead hx hdead
  cases op with
  | setPackage => cases htarget
  | addSection h type name =>
    cases htarget
    rw [Operation.edit, Edit.run_map, run_addSection, ← Edit.run_map]
    refine run_guarded_of_error ?_
    rw [checkAddSection, sectionParent, hlive]
    rfl
  | addOption h name value =>
    cases htarget
    refine run_guarded_of_error ?_
    rw [checkHolds, hlive]
    rfl
  | addList h name =>
    cases htarget
    refine run_guarded_of_error ?_
    rw [checkHolds, hlive]
    rfl
  | addElement h value =>
    cases htarget
    refine run_guarded_of_error ?_
    rw [checkHolds, hlive]
    rfl
  | remove h =>
    cases htarget
    exact absurd rfl hop
  | setSectionType h type =>
    cases htarget
    rw [Operation.edit, Edit.run_map, run_setSectionType, ← Edit.run_map]
    refine run_guarded_of_error ?_
    rw [checkSetSectionType, groupOf, hparent]
    rfl
  | setSectionName h name =>
    cases htarget
    refine run_guarded_of_error ?_
    rw [groupOf, hparent]
    rfl
  | setOptionName h name =>
    cases htarget
    refine run_guarded_of_error ?_
    rw [hparent]
    rfl
  | setListName h name =>
    cases htarget
    refine run_guarded_of_error ?_
    rw [hparent]
    rfl
  | setOptionValue h value =>
    cases htarget
    exact run_guarded_of_error (hof .option)
  | setElementValue h value =>
    cases htarget
    exact run_guarded_of_error (hof .element)

/-- **What is not live is gone.** -/
theorem gone_of_dead (hw : d.arena.WellFormed) : d.Gone x := by
  obtain ⟨c, hc⟩ := exists_content? hx
  have hk : d.arena.kind? x = some c.kind := kind?_eq_some_iff.mpr ⟨c, hc, rfl⟩
  have hne : ∀ {y}, d.isLive y = true → x ≠ y := by
    rintro y hy rfl
    rw [hdead] at hy
    cases hy
  have h0 : x ≠ 0 := hne hw.isLive_root
  have h1 : x ≠ 1 := hne hw.isLive_config
  have hrun : (Operation.remove x).edit.run d = (.ok none, d.mapArena (·.detach x)) :=
    (Operation.run_eq_ok_iff hw).mpr (.remove hk (fun h => h0 (hw.eq_root x (h ▸ hk)))
      fun h => h1 (hw.eq_config x (h ▸ hk)))
  have hafter : ((Operation.remove x).after d).arena = d.arena.detach x := by
    rw [Operation.after, hrun]
    rfl
  refine
    { dead := hdead
      unreadable := unreadable_of_dead hx hdead
      refuses := fun op htarget hop => refuses_of_dead hx hdead htarget hop
      removes := by rw [hrun]
      isLive_after := fun y => ?_
      get?_after := fun y hy => ?_ }
  · unfold isLive
    rw [hafter, Bool.eq_iff_iff, isLive_detach hw h0 h1]
    refine and_iff_left_of_imp fun hlive hwithin => ?_
    exact hne (hwithin.isLive hw hlive) rfl
  · rw [hafter, Arena.detach, get?_modify, if_neg (Ne.symm hy)]

end

/-! ### Removals are for good -/

/-- **The group was folded into another one**, which has what hung below it. -/
structure Folded (d d' : Document) (g target : Handle) : Prop where
  kind : d.arena.kind? g = some .sectionType
  target_live : d'.isLive target = true
  parent? : ∀ y, d.arena.parent? y = some g → d'.arena.parent? y = some target
  /-- No other node goes with it. -/
  isLive : ∀ y, y ≠ g → d.isLive y = true → d'.isLive y = true

/-- **Removals are for good.** -/
structure RemovedForGood (d : Document) : Prop where
  /-- Any node below the configuration can be removed, and then the live nodes are those that
  were live and do not hang below it. -/
  removal : ∀ n k, d.arena.kind? n = some k → k ≠ .root → k ≠ .config →
    ((Operation.remove n).edit.run d).1 = .ok none ∧
      ((Operation.remove n).after d).allocated = d.allocated ∧
      ∀ x, ((Operation.remove n).after d).isLive x = true ↔ d.isLive x = true ∧ ¬d.arena.Within n x
  /-- What is not live is gone, whatever operations follow. -/
  gone : ∀ x ops, x < d.allocated → d.isLive x = false → (d.play ops).Gone x
  /-- A node that goes was removed, or was a group and folded into another one. -/
  ended : ∀ (op : Operation) x, d.isLive x = true → (op.after d).isLive x = false →
    (∃ n, op = .remove n ∧ d.arena.Within n x) ∨
      ∃ s type target, op = .setSectionType s type ∧ d.Folded (op.after d) x target

/-- **What goes without being removed** is a group, and hands over what hung below it. -/
theorem Accepts.folded (hw : d.arena.WellFormed) (hp : d.arena.Proper) (he : d.arena.Exclusive)
    (h : d.Accepts (.setSectionType s type) r d') (hends : d.Ends (.setSectionType s type) x) :
    ∃ target, d.Folded d' x target := by
  have hlive := fun {y} (hy : y < d.allocated) => h.isLive_iff hw hp he hy
  obtain ⟨g, other, hpar, hchild, hne, rfl⟩ := ends_setSectionType_iff.mp hends
  cases h with
  | @setSectionType _ g' _ hs _ _ =>
    obtain rfl : g' = g := Option.some.inj (hs.2.2.symm.trans hpar)
    rcases merged_cases hw hp he hs type with
      ⟨hall, -⟩ | ⟨other', target, hchild', -, hlt, htarget, hgroup, hmerge⟩
    · exact absurd (hall other hchild) hne
    · obtain rfl : other' = other := Option.some.inj (hchild'.symm.trans hchild)
      have hstays := fun y (hy : y ≠ max g' other') (hylive : d.isLive y = true) =>
        (hlive (lt_size_of_isLive hw hylive)).mpr
          ⟨hylive, mt (ends_iff_eq_max hpar hchild hne).mp hy⟩
      refine ⟨target, hw.kind?_of_mem_groups hgroup, ?_, fun y hy => ?_, hstays⟩
      · refine hstays target (Nat.ne_of_lt hlt) ?_
        exact (hw.isLive_of_parent (hw.mem_liveChildren_iff.mp htarget)).trans hw.isLive_config
      · rw [arena_mapArena, parent?_nameSection, hmerge, parent?_absorb (Nat.ne_of_gt hlt),
          if_neg (Nat.ne_of_gt (hw.parent_lt y _ hy)), if_pos]
        rw [children_modifyContent, parent?_modifyContent]
        exact ⟨hw.mem_of_parent y _ hy, hy⟩

/-- What is gone stays so. -/
theorem Built.gone_play (hd : d.Built OnAny) (ops : List Operation) (hx : x < d.allocated)
    (hdead : d.isLive x = false) : (d.play ops).Gone x := by
  induction ops generalizing d with
  | nil => exact gone_of_dead hx hdead hd.wellFormed
  | cons op ops ih =>
    obtain ⟨-, hp, he⟩ := hd.names
    rcases Operation.after_cases hd.wellFormed op with hsame | ⟨r, hacc⟩
    · rw [play, List.foldl_cons, hsame]
      exact ih hd hx hdead
    · refine ih (hd.edited op trivial) (hacc.lt_allocated hd.wellFormed hx) ?_
      rw [← Bool.not_eq_true, hacc.isLive_iff hd.wellFormed hp he hx, hdead]
      exact fun h => Bool.false_ne_true h.1

/-- **Removals are for good in every document**, whatever handles the operations named. -/
theorem removedForGood_of_reachable (hd : d.Reachable OnAny) : d.RemovedForGood := by
  have hb := hd.built fun _ _ _ => trivial
  have hw := hb.wellFormed
  obtain ⟨-, hp, he⟩ := hb.names
  refine
    { removal := fun n k hk hroot hconfig => ?_
      gone := fun x ops hx hdead => hb.gone_play ops hx hdead
      ended := fun op x hx hdead => ?_ }
  · have hacc : d.Accepts (.remove n) none (d.mapArena (·.detach n)) := .remove hk hroot hconfig
    have hrun := (Operation.run_eq_ok_iff hw).mpr hacc
    rw [Operation.after, hrun]
    refine ⟨rfl, size_detach _ _, fun x => ?_⟩
    exact isLive_detach hw (ne_of_kind? hk hw.kind_root hroot)
      (ne_of_kind? hk hw.kind_config hconfig) x
  · rcases Operation.after_cases hw op with hsame | ⟨r, hacc⟩
    · rw [hsame, hx] at hdead
      cases hdead
    · have hends : d.Ends op x := by
        by_contra hno
        rw [(hacc.isLive_iff hw hp he (lt_size_of_isLive hw hx)).mpr ⟨hx, hno⟩] at hdead
        cases hdead
      cases op with
      | remove n => exact Or.inl ⟨n, rfl, ends_remove_iff.mp hends⟩
      | setSectionType s type =>
        obtain ⟨target, hfolded⟩ := hacc.folded hw hp he hends
        exact Or.inr ⟨s, type, target, rfl, hfolded⟩
      | _ => cases hends

/-- A section with an option is removed, and then its group is folded into another one, which
takes over the place of the removed section among the children. -/
theorem removedForGood_after_folding :
    let d := empty.play [.addSection 0 "a".toList none, .addSection 0 "b".toList none,
      .addSection 0 "b".toList none, .addOption 6 "o".toList [], .remove 6,
      .setSectionType 5 "a".toList]
    d.Reachable OnAny ∧ 6 ∈ d.arena.children 2 ∧
      [4, 5, 6, 7].map d.isLive = [false, true, false, false] ∧ d.RemovedForGood := by
  intro d
  have hd : d.Reachable OnAny :=
    Reachable.play .empty ⟨trivial, trivial, trivial, trivial, trivial, trivial, trivial⟩
  exact ⟨hd, by decide +kernel, by decide +kernel, removedForGood_of_reachable hd⟩

end Document
end Uci
