import Uci.Proofs.Document.Regrouping

/-!
# Changes of type

Giving a section another type is declined for one reason only, a name that was given and is in
use in the group that has the type already.  Otherwise the groups are regrouped, and doing it again
changes nothing.

## Main definitions

* `Sheet.Clashes` — a section is in the way.
* `Document.RetypedTo` — a document before and after a change of type.
* `Document.Retyping` — what a change of type comes to.

## Main results

* `retyping_of_reachable` — **what a change of type comes to**, in every document.
-/

namespace Uci

namespace Sheet

/-- **A section of `G` is in the way**: it has a name that was given, and that is the name of a
section of the group that has the type. -/
def Clashes (S : Sheet) (G : Group) (type : Text) : Prop :=
  ∃ H ∈ S.groups, H.handle ≠ G.handle ∧ H.type = type ∧
    ∃ x ∈ G.sections, x.name.head? ≠ some '@' ∧ ∃ y ∈ H.sections, y.name = x.name

end Sheet

namespace Arena

variable {a : Arena} {g : Handle} {type : Text}

/-- A name that a node has can be given to it again. -/
theorem modifyContent_withName_self (hn : a.name? g = some type) :
    a.modifyContent g (·.withName type) = a := by
  refine ext_parts (fun k => ?_) (fun k => parent?_modifyContent ..)
    fun k => children_modifyContent ..
  rw [content?_modifyContent]
  split
  · next hk =>
    rw [hk]
    rw [name?_eq] at hn
    cases hc : a.content? g with
    | none => rfl
    | some c =>
      rw [hc, Option.bind_some] at hn
      cases c <;> first | rfl | (cases hn; rfl)
  · rfl

end Arena

namespace Document

open Arena

variable {d d' : Document} {g s : Handle} {type : Text} {G : Sheet.Group} {S : Sheet.Section}

/-- A section with a place on the sheet hangs below its group. -/
private theorem hangsLive_of_mem_sections (hw : d.arena.WellFormed) (ht : d.arena.Tidy)
    (hg : g ∈ d.arena.liveChildren 1) (hs : s ∈ d.arena.liveChildren g) :
    d.HangsLive s .section g :=
  ⟨(isLive_of_mem_sections hw hg hs).2,
    hw.kind?_of_mem_sections ht (hw.kind?_of_mem_groups hg) hs, hw.mem_liveChildren_iff.mp hs⟩

/-! ### When a change of type is declined -/

/-- A check of a list refuses what it refuses for one of the elements. -/
private theorem forM_error {α ε : Type} {P : ε → Prop} {f : α → Except ε Unit} {l : List α} {e : ε}
    (hf : ∀ x ∈ l, ∀ e, f x = .error e → P e) (h : l.forM f = .error e) : P e := by
  induction l with
  | nil => cases h
  | cons x l ih =>
    change (f x >>= fun _ => l.forM f) = .error e at h
    cases hx : f x with
    | error e' =>
      rw [hx] at h
      cases h
      exact hf x List.mem_cons_self e hx
    | ok u =>
      rw [hx] at h
      exact ih (fun z hz => hf z (List.mem_cons_of_mem _ hz)) h

/-- All that merging is declined for is a name in use. -/
private theorem exists_duplicate_of_checkMerge {source target : Handle} {e : Refusal}
    (h : d.checkMerge source target = .error e) : ∃ n, e = .duplicate n target := by
  refine forM_error (P := fun e => ∃ n, e = .duplicate n target) (fun z _ e hz => ?_) h
  cases hname : d.arena.name? z with
  | none =>
    rw [hname] at hz
    cases hz
  | some n =>
    rw [hname] at hz
    dsimp only at hz
    unfold checkUnused at hz
    split at hz
    · cases hz
    · split at hz
      · exact ⟨n, (Except.error.inj hz).symm⟩
      · cases hz

section Declined

variable (hw : d.arena.WellFormed) (hs : d.HangsLive s .section g)
  (hword : Syntax.isWord type = true)
include hw hs hword

/-- What decides about a change of type to a word. -/
private theorem checkSetSectionType_eq :
    checkSetSectionType s type d =
      ((d.arena.childNamed? 1 type).elim (.ok ()) fun other =>
        if other ≠ g then d.checkMerge g other else .ok ()).map fun _ => (g, 1) := by
  have hgroup : d.groupNamed? 1 type = d.arena.childNamed? 1 type := rfl
  rw [checkSetSectionType, groupOf_eq_ok_iff.mpr hs, checkWord_eq_ok_iff.mpr hword,
    configuration_eq hw, ← hgroup]
  cases hchild : d.groupNamed? 1 type with
  | none =>
    simp only [bind, Except.bind, hchild]
    rfl
  | some other =>
    simp only [bind, Except.bind, hchild, Option.elim_some]
    by_cases hne : other ≠ g
    · rw [if_pos hne, if_pos hne]
      cases d.checkMerge g other <;> rfl
    · rw [if_neg hne, if_neg hne]
      rfl

/-- **A change of type to a word** is declined for a name in use, or made. -/
private theorem run_setSectionType_cases :
    (∃ other n, d.arena.childNamed? 1 type = some other ∧ other ≠ g ∧
      d.checkMerge g other ≠ .ok () ∧
      (setSectionType s type).run d = (.error (.duplicate n other), d)) ∨
    (∀ other, d.arena.childNamed? 1 type = some other → other ≠ g →
      d.checkMerge g other = .ok ()) ∧
      (setSectionType s type).run d = (.ok (), d.mapArena fun a =>
        ((a.modifyContent g (·.withName type)).mergeGroups 1).nameSection s) := by
  rw [run_setSectionType, Edit.run_guarded, checkSetSectionType_eq hw hs hword]
  cases hchild : d.arena.childNamed? 1 type with
  | none =>
    refine Or.inr ⟨fun _ h => ?_, rfl⟩
    cases h
  | some other =>
    rw [Option.elim_some]
    by_cases hne : other ≠ g
    · rw [if_pos hne]
      cases hmerge : d.checkMerge g other with
      | ok u =>
        refine Or.inr ⟨fun k hk _ => ?_, rfl⟩
        rw [← Option.some.inj hk, hmerge]
      | error e =>
        obtain ⟨n, rfl⟩ := exists_duplicate_of_checkMerge hmerge
        refine Or.inl ⟨other, n, rfl, hne, fun hok => ?_, rfl⟩
        cases hmerge.symm.trans hok
    · rw [if_neg hne]
      exact Or.inr ⟨fun k hk hkg => absurd (Option.some.inj hk ▸ hkg) hne, rfl⟩

end Declined

/-- The check that declines a change of type, on the sheet. -/
private theorem clashes_iff (hw : d.arena.WellFormed) (ht : d.arena.Tidy)
    (hapart : d.arena.Apart 1 fun _ => True) (hg : g ∈ d.arena.liveChildren 1) (type : Text) :
    d.sheet.Clashes (d.arena.sheetGroup g) type ↔ ∃ other,
      d.arena.childNamed? 1 type = some other ∧ other ≠ g ∧ d.checkMerge g other ≠ .ok () := by
  have hname : ∀ q ∈ d.arena.liveChildren 1, ∀ s ∈ d.arena.liveChildren q,
      d.arena.name? s = some (d.arena.sheetSection s).name := by
    intro q hq s hs
    obtain ⟨n, hn⟩ := exists_name_of_tidy ht
      (hw.kind?_of_mem_sections ht (hw.kind?_of_mem_groups hq) hs) (by simp)
    simp [sheetSection, hn]
  constructor
  · rintro ⟨H, hH, hne, htype, x, hx, hgiven, y, hy, hxy⟩
    obtain ⟨other, homem, rfl⟩ := List.mem_map.mp hH
    obtain ⟨u, hu, rfl⟩ := List.mem_map.mp hx
    obtain ⟨v, hv, rfl⟩ := List.mem_map.mp hy
    have hotype : d.arena.name? other = some type := by
      obtain ⟨t, ht⟩ := exists_name_of_tidy ht (hw.kind?_of_mem_groups homem) (Or.inl rfl)
      rw [ht, ← htype]
      simp [sheetGroup, ht]
    -- the group of the type is the one that is found
    obtain ⟨other', hchild⟩ : ∃ other', d.arena.childNamed? 1 type = some other' := by
      refine Option.ne_none_iff_exists'.mp fun hnone => ?_
      exact childNamed?_eq_none_iff.mp hnone other homem hotype
    obtain ⟨homem', hotype'⟩ := childNamed?_eq_some hchild
    obtain rfl := hapart type trivial other homem other' homem' hotype hotype'
    refine ⟨other, hchild, hne, fun hok => ?_⟩
    have hunused := checkMerge_eq_ok_iff.mp hok u hu _ (hname g hg u hu) hgiven
    exact hunused v hv (Option.some_ne_none v) (hxy ▸ hname other homem v hv)
  · rintro ⟨other, hchild, hne, hno⟩
    obtain ⟨homem, hotype⟩ := childNamed?_eq_some hchild
    rw [Ne, checkMerge_eq_ok_iff] at hno
    simp only [Arena.Unused, not_forall, not_not] at hno
    obtain ⟨u, hu, n, hun, hgiven, v, hv, -, hvn⟩ := hno
    refine ⟨d.arena.sheetGroup other, List.mem_map_of_mem homem, hne, by simp [sheetGroup, hotype],
      d.arena.sheetSection u, List.mem_map_of_mem hu, ?_,
      d.arena.sheetSection v, List.mem_map_of_mem hv, ?_⟩
    · rwa [← Option.some.inj ((hname g hg u hu).symm.trans hun)] at hgiven
    · rw [hname g hg u hu] at hun
      rw [hname other homem v hv, ← hun] at hvn
      exact Option.some.inj hvn

/-! ### What a change of type comes to -/

/-- **A changed type**, `G` being the group of the section `S` before.  What has a place on the
sheet keeps its handle and all it holds, up to the name of the section. -/
structure RetypedTo (d d' : Document) (G : Sheet.Group) (S : Sheet.Section) (type : Text) : Prop where
  package : d'.package = d.package
  groups : Sheet.Retypes d.arena.counter S.handle type G d.sheet.groups d'.sheet.groups
  one_group : ∃ K, d'.sheet.groups.filter (·.type = type) = [K]
  /-- Groups of other types keep their numbers. -/
  counter : ∀ K ∈ d'.sheet.groups, K.type ≠ type →
    d'.arena.counter K.handle = d.arena.counter K.handle
  /-- Changed again, nothing changes. -/
  again : (setSectionType S.handle type).run d' = (.ok (), d')

/-- **What giving a section another type comes to.** -/
structure Retyping (d : Document) (G : Sheet.Group) (S : Sheet.Section) (type : Text) : Prop where
  /-- It is declined exactly if a section with a name of its own is in the way. -/
  declined : (∃ n h, (setSectionType S.handle type).run d = (.error (.duplicate n h), d)) ↔
    d.sheet.Clashes G type
  /-- Otherwise it is made. -/
  made : ¬d.sheet.Clashes G type → ∃ d',
    (setSectionType S.handle type).run d = (.ok (), d') ∧ d.RetypedTo d' G S type

/-- A section of the type whose name needs no change is set to the type without effect. -/
private theorem run_setSectionType_self (hb : d.Built OnIssued) (hg : g ∈ d.arena.liveChildren 1)
    (hs : s ∈ d.arena.liveChildren g) (htype : d.arena.name? g = some type)
    (hneeds : needsGeneratedName type (d.arena.name? s) = false) :
    (setSectionType s type).run d = (.ok (), d) := by
  have hw := hb.wellFormed
  have ht := hb.tidy fun _ _ hop => hop
  have hgroups := hb.named.groups
  have hlive := hangsLive_of_mem_sections hw ht hg hs
  have hfirst : ∀ other, d.arena.childNamed? 1 type = some other → other = g := by
    intro other hchild
    obtain ⟨homem, hotype⟩ := childNamed?_eq_some hchild
    exact hgroups.types_apart type trivial other homem g hg hotype htype
  rcases run_setSectionType_cases hw hlive (hgroups.type_word g hg type htype) with
    ⟨other, n, hchild, hne, -⟩ | ⟨-, hrun⟩
  · exact absurd (hfirst other hchild) hne
  · have hname : ∀ q ∈ d.arena.liveChildren 1, ∃ t, d.arena.name? q = some t := fun q hq =>
      exists_name_of_tidy ht (hw.kind?_of_mem_groups hq) (Or.inl rfl)
    have hmerge : (d.arena.modifyContent g (·.withName type)).mergeGroups 1 = d.arena := by
      rcases mergeGroups_rename hw hname hgroups.types_apart hg type with
        ⟨-, hsame⟩ | ⟨other, x, y, hchild, hne, -⟩
      · rw [hsame, modifyContent_withName_self htype]
      · exact absurd (hfirst other hchild) hne
    rw [hrun, mapArena, hmerge, nameSection_eq (hw.mem_liveChildren_iff.mp hs) htype, hneeds]
    rfl

/-- A change of type that passes the check. -/
private theorem retypedTo_of_check (hb : d.Built OnIssued) (hg : g ∈ d.arena.liveChildren 1)
    (hs : s ∈ d.arena.liveChildren g) (hword : Syntax.isWord type = true)
    (hok : ∀ other, d.arena.childNamed? 1 type = some other → other ≠ g →
      d.checkMerge g other = .ok ()) :
    d.RetypedTo (d.mapArena fun a =>
      ((a.modifyContent g (·.withName type)).mergeGroups 1).nameSection s)
      (d.arena.sheetGroup g) (d.arena.sheetSection s) type := by
  have hw := hb.wellFormed
  have ht := hb.tidy fun _ _ hop => hop
  have hgroups := hb.named.groups
  have hlive := hangsLive_of_mem_sections hw ht hg hs
  have hretypes := retypes_of_apart hw ht hg hs hgroups.types_apart type
  obtain ⟨-, -, p, sources, hr⟩ := Accepts.exists_retyped hw ht hgroups hlive type
  have hacc : d.Accepts (.setSectionType s type) none _ := .setSectionType hlive hword hok
  generalize hd' : (d.mapArena fun a =>
    ((a.modifyContent g (·.withName type)).mergeGroups 1).nameSection s) = d' at *
  have hb' : d'.Built OnIssued := by
    have hafter : (Operation.setSectionType s type).after d = d' :=
      congrArg Prod.snd ((Operation.run_eq_ok_iff hw).mpr hacc)
    rw [← hafter]
    refine hb.edited _ fun x hx => ?_
    cases hx
    exact ⟨_, hlive.2.1, by decide⟩
  have harena : d'.arena =
      ((d.arena.modifyContent g (·.withName type)).mergeGroups 1).nameSection s := by
    rw [← hd', arena_mapArena]
  rw [← harena] at hr
  have hsp : s ∈ d'.arena.liveChildren p := by
    rw [hr.group_children]
    exact List.mem_flatMap.mpr ⟨g, hr.mem_sources, hs⟩
  refine ⟨by rw [← hd', package_mapArena], hretypes, hretypes.filter_type, fun K hK htype => ?_,
    run_setSectionType_self hb' hr.group_mem hsp hr.group_name ?_⟩
  · obtain ⟨q, hq, rfl⟩ := List.mem_map.mp hK
    refine (hr.other q hq ?_).2.2.2
    rintro rfl
    exact htype (by simp [sheetGroup, hr.group_name])
  · -- either the name was one of the type before, or it was generated for it
    change needsGeneratedName type (d'.arena.name? s) = false
    rcases hr.self_name with ⟨hneeds, hsame, -⟩ | ⟨-, n, hname, -⟩
    · rw [hsame, hneeds]
    · rw [hname]
      simp [needsGeneratedName, isGeneratedName_generatedName]

/-- **What giving a section another type comes to**, in every document. -/
theorem retyping_of_reachable (hd : d.Reachable OnIssued) (hG : G ∈ d.sheet.groups)
    (hS : S ∈ G.sections) (hword : Syntax.isWord type = true) : d.Retyping G S type := by
  have hb := hd.built fun _ _ hop => hop.1
  have hw := hb.wellFormed
  have ht := hb.tidy fun _ _ hop => hop
  have hgroups := hb.named.groups
  obtain ⟨g, hg, rfl⟩ := List.mem_map.mp hG
  obtain ⟨s, hs, rfl⟩ := List.mem_map.mp hS
  have hlive := hangsLive_of_mem_sections hw ht hg hs
  have hclash := clashes_iff hw ht hgroups.types_apart hg type
  rcases run_setSectionType_cases hw hlive hword with
    ⟨other, n, hchild, hne, hno, hrun⟩ | ⟨hok, hrun⟩
  · have hyes := hclash.mpr ⟨other, hchild, hne, hno⟩
    exact ⟨iff_of_true ⟨n, other, hrun⟩ hyes, fun hnot => absurd hyes hnot⟩
  · have hnot : ¬d.sheet.Clashes (d.arena.sheetGroup g) type := by
      rw [hclash]
      rintro ⟨other, hchild, hne, hno⟩
      exact hno (hok other hchild hne)
    refine ⟨iff_of_false ?_ hnot, fun _ => ⟨_, hrun, ?_⟩⟩
    · rintro ⟨n, h, herror⟩
      cases congrArg Prod.fst (hrun.symm.trans herror)
    · exact retypedTo_of_check hb hg hs hword hok

/-- A section without a name of its own moves into an earlier group, and its neighbour with it. -/
theorem retyping_of_earlierType :
    let d := empty.play [.addSection 0 "a".toList none, .addSection 0 "b".toList (some "x".toList),
      .addSection 0 "b".toList none]
    let S : Sheet.Section := ⟨6, "@b[0]".toList, []⟩
    let G : Sheet.Group := ⟨4, "b".toList, [⟨5, "x".toList, []⟩, S]⟩
    d.Reachable OnIssued ∧ G ∈ d.sheet.groups ∧ S ∈ G.sections ∧
      Syntax.isWord "a".toList = true ∧ d.Retyping G S "a".toList := by
  intro d S G
  have hd : d.Reachable OnIssued := Reachable.play .empty (by decide)
  have hG : G ∈ d.sheet.groups := by decide
  have hS : S ∈ G.sections := by decide
  exact ⟨hd, hG, hS, by decide, retyping_of_reachable hd hG hS (by decide)⟩

/-- The section gets the next number of the two groups, which is `1`. -/
example :
    let d := empty.play [.addSection 0 "a".toList none, .addSection 0 "b".toList (some "x".toList),
      .addSection 0 "b".toList none]
    ((Operation.setSectionType 6 "a".toList).after d).sheet.groups =
      [⟨2, "a".toList, [⟨3, "@a[0]".toList, []⟩, ⟨5, "x".toList, []⟩,
        ⟨6, "@a[1]".toList, []⟩]⟩] := by
  decide

end Document
end Uci
