import Mathlib.Data.List.Nodup
import Mathlib.Data.List.Pairwise
import Uci.Proofs.Arena.WellFormed

/-!
# Merging groups

Giving a section another type renames its group and then folds groups of one type
together.  As long as the types of all groups differ there is nothing to fold; when the
new type is that of another group, these two are the only ones to be folded, the later
one into the earlier.  The module makes both cases explicit.

## Main definitions

* `Arena.Apart` — no two live children of a node have the same name.

## Main results

* `mergeGroups_eq_self`, `mergeGroups_eq_absorb` — the two cases.
* `mergeGroups_rename` — **what giving a group another type comes to**.
* `liveChildren_absorb` — what is where after a group was folded into another.
-/

namespace Uci
namespace Arena

variable {a b : Arena} {g h k p s t x y : Handle} {P : Text → Prop}

/-- **Names apart**: no two live children of `p` share a name that satisfies `P`. -/
def Apart (a : Arena) (p : Handle) (P : Text → Prop) : Prop :=
  ∀ n, P n → ∀ x ∈ a.liveChildren p, ∀ y ∈ a.liveChildren p,
    a.name? x = some n → a.name? y = some n → x = y

/-- Fewer children, under the names they had. -/
theorem Apart.sub (ha : a.Apart p P)
    (hsub : ∀ x ∈ b.liveChildren p, x ∈ a.liveChildren p ∧ b.name? x = a.name? x) :
    b.Apart p P := by
  intro n hn x hx y hy hnx hny
  obtain ⟨hx', hxname⟩ := hsub x hx
  obtain ⟨hy', hyname⟩ := hsub y hy
  exact ha n hn x hx' y hy' (hxname ▸ hnx) (hyname ▸ hny)

/-- One child, new or old, under a name that no other child has. -/
theorem Apart.change (ha : a.Apart p P) {z : Handle}
    (hold : ∀ x ∈ b.liveChildren p, x ≠ z → x ∈ a.liveChildren p ∧ b.name? x = a.name? x)
    (hz : ∀ n, P n → b.name? z = some n → ∀ x ∈ b.liveChildren p, x ≠ z → b.name? x ≠ some n) :
    b.Apart p P := by
  intro n hn x hx y hy hnx hny
  by_cases hxz : x = z
  · by_cases hyz : y = z
    · rw [hxz, hyz]
    · exact absurd hny (hz n hn (hxz ▸ hnx) y hy hyz)
  · by_cases hyz : y = z
    · exact absurd hnx (hz n hn (hyz ▸ hny) x hx hxz)
    · obtain ⟨hx', hxname⟩ := hold x hx hxz
      obtain ⟨hy', hyname⟩ := hold y hy hyz
      exact ha n hn x hx' y hy' (hxname ▸ hnx) (hyname ▸ hny)

/-! ### The two cases of merging -/

/-- Groups of types that were not met before are all first of their type. -/
private theorem foldl_mergeStep_new (l : List Handle) (acc : Arena × List (Text × Handle))
    (hname : ∀ g ∈ l, ∃ t, acc.1.name? g = some t ∧ ∀ e ∈ acc.2, e.1 ≠ t)
    (hl : l.Pairwise fun g g' => acc.1.name? g ≠ acc.1.name? g') :
    ∃ firsts, l.foldl mergeStep acc = (acc.1, firsts) ∧
      ∀ e, e ∈ firsts ↔ e ∈ acc.2 ∨ e.2 ∈ l ∧ acc.1.name? e.2 = some e.1 := by
  induction l generalizing acc with
  | nil => exact ⟨acc.2, rfl, by simp⟩
  | cons g l ih =>
    obtain ⟨hg, hname'⟩ := List.forall_mem_cons.mp hname
    obtain ⟨hgl, hl'⟩ := List.pairwise_cons.mp hl
    obtain ⟨t, ht, hfirst⟩ := hg
    -- so the table knows no group of its type, and it is entered
    have hlookup : acc.2.lookup t = none :=
      List.lookup_eq_none_iff.mpr fun e he => bne_iff_ne.mpr (Ne.symm (hfirst e he))
    have hstep : mergeStep acc g = (acc.1, (t, g) :: acc.2) := by
      unfold mergeStep
      simp only [ht, hlookup]
    -- those still to come differ from it too
    obtain ⟨firsts, hfold, hmem⟩ := ih (acc.1, (t, g) :: acc.2) (by
      intro g' hg'
      obtain ⟨t', ht', hne⟩ := hname' g' hg'
      refine ⟨t', ht', List.forall_mem_cons.mpr ⟨?_, hne⟩⟩
      rintro rfl
      exact hgl g' hg' (ht.trans ht'.symm)) hl'
    refine ⟨firsts, ?_, ?_⟩
    · rw [List.foldl_cons, hstep, hfold]
    · intro e
      rw [hmem e, List.mem_cons, List.mem_cons]
      constructor
      · rintro ((rfl | he) | ⟨he, hn⟩)
        · exact Or.inr ⟨Or.inl rfl, ht⟩
        · exact Or.inl he
        · exact Or.inr ⟨Or.inr he, hn⟩
      · rintro (he | ⟨he | he, hn⟩)
        · exact Or.inl (Or.inr he)
        · refine Or.inl (Or.inl ?_)
          rw [he, ht] at hn
          exact Prod.ext (Option.some.inj hn).symm he
        · exact Or.inr ⟨he, hn⟩

/-- Groups whose types differ stay as they are. -/
theorem mergeGroups_eq_self (hname : ∀ g ∈ a.liveChildren 1, ∃ t, a.name? g = some t)
    (hl : (a.liveChildren 1).Pairwise fun g g' => a.name? g ≠ a.name? g') :
    a.mergeGroups 1 = a := by
  obtain ⟨firsts, hfold, -⟩ := foldl_mergeStep_new (a.liveChildren 1) (a, [])
    (fun g hg => by simpa using hname g hg) hl
  unfold mergeGroups
  rw [hfold]

/-- **Two groups of one type**, and no others: the later is folded into the earlier. -/
theorem mergeGroups_eq_absorb {l₁ l₂ l₃ : List Handle} {type : Text}
    (hname : ∀ g ∈ a.liveChildren 1, ∃ t, a.name? g = some t)
    (hl : a.liveChildren 1 = l₁ ++ x :: l₂ ++ y :: l₃) (hx : a.name? x = some type)
    (hy : a.name? y = some type)
    (hne : (l₁ ++ x :: l₂ ++ l₃).Pairwise fun g g' => a.name? g ≠ a.name? g') :
    a.mergeGroups 1 = a.absorb x y := by
  obtain ⟨hfront, hback, hcross⟩ := List.pairwise_append.mp hne
  have hxmem : x ∈ l₁ ++ x :: l₂ := by simp
  obtain ⟨firsts, hfold, hmem⟩ := foldl_mergeStep_new (l₁ ++ x :: l₂) (a, [])
    (fun g hg => by simpa using hname g (by rw [hl]; exact List.mem_append_left _ hg)) hfront
  -- the first group of the type is `x`, since no two of those in front share a type
  have hlookup : firsts.lookup type = some x := by
    cases hlook : firsts.lookup type with
    | none =>
      have hin : (type, x) ∈ firsts := (hmem _).mpr (Or.inr ⟨hxmem, hx⟩)
      exact absurd (List.lookup_eq_none_iff.mp hlook _ hin) (by simp)
    | some v =>
      obtain ⟨m₁, m₂, hm, -⟩ := List.lookup_eq_some_iff.mp hlook
      have hv := (hmem (type, v)).mp (by rw [hm]; simp)
      obtain hv | ⟨hv, hnv⟩ := hv
      · cases hv
      · by_contra hvx
        have hvx' : v ≠ x := fun h => hvx (h ▸ rfl)
        have : Std.Symm fun g g' => a.name? g ≠ a.name? g' := ⟨fun _ _ h => Ne.symm h⟩
        exact hfront.forall hv hxmem hvx' (hnv.trans hx.symm)
  have hstep : mergeStep (a, firsts) y = (a.absorb x y, firsts) := by
    unfold mergeStep
    simp only [hy, hlookup]
  -- those behind `y` differ from all in front, so that nothing more is folded
  obtain ⟨firsts', hfold', -⟩ := foldl_mergeStep_new l₃ (a.absorb x y, firsts)
    (by
      intro g hg
      obtain ⟨t, ht⟩ := hname g (by rw [hl]; simp [hg])
      refine ⟨t, (name?_absorb a x y g).trans ht, fun e he => ?_⟩
      obtain he | ⟨he, hne⟩ := (hmem e).mp he
      · cases he
      · rintro rfl
        exact hcross e.2 he g hg (hne.trans ht.symm))
    (by simpa only [name?_absorb] using hback)
  unfold mergeGroups
  rw [hl, List.foldl_append, hfold, List.foldl_cons, hstep, hfold']

/-- Two elements of a sorted list, the smaller one in front of the other. -/
theorem exists_split_of_sorted {l : List Handle} (hl : l.Pairwise (· < ·)) (hx : x ∈ l)
    (hy : y ∈ l) (hlt : x < y) : ∃ l₁ l₂ l₃, l = l₁ ++ x :: l₂ ++ y :: l₃ := by
  obtain ⟨l₁, r, rfl⟩ := List.append_of_mem hx
  have hyr : y ∈ r := by
    rcases List.mem_append.mp hy with hy | hy
    · have hyx := (List.pairwise_append.mp hl).2.2 y hy x (List.mem_cons_self ..)
      exact absurd hyx (Nat.lt_asymm hlt)
    · rcases List.mem_cons.mp hy with rfl | hy
      · exact absurd hlt (Nat.lt_irrefl _)
      · exact hy
  obtain ⟨l₂, l₃, rfl⟩ := List.append_of_mem hyr
  refine ⟨l₁, l₂, l₃, ?_⟩
  rw [List.append_assoc]
  rfl

section Rename

variable {type : Text} (hw : a.WellFormed)
  (hname : ∀ g ∈ a.liveChildren 1, ∃ t, a.name? g = some t) (hapart : a.Apart 1 fun _ => True)
  (hg : g ∈ a.liveChildren 1)
include hw hname hapart hg

omit hapart in
private theorem exists_name_rename (type : Text) :
    ∀ k ∈ (a.modifyContent g (·.withName type)).liveChildren 1,
      ∃ t, (a.modifyContent g (·.withName type)).name? k = some t := by
  intro k hk
  rw [liveChildren_modifyContent] at hk
  rw [name?_withName (hw.kind?_of_mem_groups hg) (Or.inl rfl)]
  split
  · exact ⟨type, rfl⟩
  · exact hname k hk

/-- Groups still differ after one of them was renamed, unless that one is taken together with
one that has the type already. -/
private theorem pairwise_name_rename {l : List Handle} (hsub : l.Sublist (a.liveChildren 1))
    (hno : g ∈ l → ∀ k ∈ l, k ≠ g → a.name? k ≠ some type) :
    l.Pairwise fun k k' => (a.modifyContent g (·.withName type)).name? k ≠
      (a.modifyContent g (·.withName type)).name? k' := by
  refine ((hw.nodup_liveChildren 1).sublist hsub).pairwise_of_forall_ne ?_
  intro k hk k' hk' hne heq
  rw [name?_withName (hw.kind?_of_mem_groups hg) (Or.inl rfl),
    name?_withName (hw.kind?_of_mem_groups hg) (Or.inl rfl)] at heq
  by_cases hkg : k = g
  · subst hkg
    rw [if_pos rfl, if_neg (Ne.symm hne)] at heq
    exact hno hk k' hk' (Ne.symm hne) heq.symm
  · by_cases hkg' : k' = g
    · subst hkg'
      rw [if_neg hne, if_pos rfl] at heq
      exact hno hk' k hk hne heq
    · rw [if_neg hkg, if_neg hkg'] at heq
      obtain ⟨t, ht⟩ := hname k (hsub.subset hk)
      exact hne (hapart t trivial k (hsub.subset hk) k' (hsub.subset hk') ht (heq ▸ ht))

/-- The group of the new type and the one that gets it are folded, the later into the
earlier. -/
private theorem mergeGroups_rename_meeting {other : Handle}
    (hchild : a.childNamed? 1 type = some other) (hne : other ≠ g) :
    ∃ x y, (x = g ∧ y = other ∨ x = other ∧ y = g) ∧ x < y ∧
      (a.modifyContent g (·.withName type)).mergeGroups 1 =
        (a.modifyContent g (·.withName type)).absorb x y := by
  obtain ⟨homem, hotype⟩ := childNamed?_eq_some hchild
  obtain ⟨x, y, hxy, hlt⟩ : ∃ x y, (x = g ∧ y = other ∨ x = other ∧ y = g) ∧ x < y := by
    rcases Nat.lt_or_gt_of_ne hne with h | h
    · exact ⟨other, g, Or.inr ⟨rfl, rfl⟩, h⟩
    · exact ⟨g, other, Or.inl ⟨rfl, rfl⟩, h⟩
  -- both are groups, and both are of the type in the end
  have hboth : (x ∈ a.liveChildren 1 ∧ y ∈ a.liveChildren 1) ∧
      ∀ k, k = x ∨ k = y → (a.modifyContent g (·.withName type)).name? k = some type := by
    have htype : ∀ k, k = g ∨ k = other →
        (a.modifyContent g (·.withName type)).name? k = some type := by
      rintro k (rfl | rfl) <;> rw [name?_withName (hw.kind?_of_mem_groups hg) (Or.inl rfl)]
      · exact if_pos rfl
      · rw [if_neg hne, hotype]
    rcases hxy with ⟨rfl, rfl⟩ | ⟨rfl, rfl⟩
    · exact ⟨⟨hg, homem⟩, htype⟩
    · exact ⟨⟨homem, hg⟩, fun k hk => htype k hk.symm⟩
  obtain ⟨⟨hxmem, hymem⟩, htype⟩ := hboth
  obtain ⟨l₁, l₂, l₃, hl⟩ := exists_split_of_sorted (hw.groups_sorted.filter _) hxmem hymem hlt
  change a.liveChildren 1 = _ at hl
  -- leaving out the later of the two leaves a sublist of the groups
  have hsub : (l₁ ++ x :: l₂ ++ l₃).Sublist (a.liveChildren 1) := by
    rw [hl]
    exact List.Sublist.append_left (List.sublist_cons_self y l₃) _
  have hynot : y ∉ l₁ ++ x :: l₂ ++ l₃ := by
    have hnodup := hw.nodup_liveChildren 1
    rw [hl] at hnodup
    exact (List.nodup_cons.mp (List.nodup_middle.mp hnodup)).1
  refine ⟨x, y, hxy, hlt, mergeGroups_eq_absorb (exists_name_rename hw hname hg type)
    (by rw [liveChildren_modifyContent, hl]) (htype x (Or.inl rfl)) (htype y (Or.inr rfl))
    (pairwise_name_rename hw hname hapart hg hsub ?_)⟩
  intro hgl k hk _ hkt
  -- without the later one of the two, there is no pair to meet
  have hko : k = other := hapart type trivial k (hsub.subset hk) other homem hkt hotype
  rcases hxy with ⟨-, rfl⟩ | ⟨-, rfl⟩
  · exact hynot (hko ▸ hk)
  · exact hynot hgl

/-- **What giving a group another type comes to**: nothing is folded, or the group and
the one that has the type already are, the later into the earlier. -/
theorem mergeGroups_rename (type : Text) :
    ((∀ other, a.childNamed? 1 type = some other → other = g) ∧
      (a.modifyContent g (·.withName type)).mergeGroups 1 = a.modifyContent g (·.withName type)) ∨
    ∃ other x y, a.childNamed? 1 type = some other ∧ other ≠ g ∧
      (x = g ∧ y = other ∨ x = other ∧ y = g) ∧ x < y ∧
      (a.modifyContent g (·.withName type)).mergeGroups 1 =
        (a.modifyContent g (·.withName type)).absorb x y := by
  by_cases hmeet : ∃ other, a.childNamed? 1 type = some other ∧ other ≠ g
  · obtain ⟨other, hchild, hne⟩ := hmeet
    obtain ⟨x, y, hxy, hlt, hmerge⟩ :=
      mergeGroups_rename_meeting hw hname hapart hg hchild hne
    exact Or.inr ⟨other, x, y, hchild, hne, hxy, hlt, hmerge⟩
  · have hall : ∀ other, a.childNamed? 1 type = some other → other = g := by
      intro other hchild
      by_contra hne
      exact hmeet ⟨other, hchild, hne⟩
    refine Or.inl ⟨hall, mergeGroups_eq_self (exists_name_rename hw hname hg type) ?_⟩
    rw [liveChildren_modifyContent]
    refine pairwise_name_rename hw hname hapart hg (List.Sublist.refl _) ?_
    intro _ k hk hkg hkt
    -- no other group has the new type
    cases hchild : a.childNamed? 1 type with
    | none => exact childNamed?_eq_none_iff.mp hchild k hk hkt
    | some other =>
      obtain ⟨homem, hotype⟩ := childNamed?_eq_some hchild
      exact hkg ((hapart type trivial k hk other homem hkt hotype).trans (hall other hchild))

end Rename

/-! ### What is where after folding -/

/-- **Folding a group into another** moves its live children behind those of the other, and
takes the group itself away; nothing else moves. -/
theorem liveChildren_absorb (hw : a.WellFormed) (hx : x ∈ a.liveChildren 1)
    (hy : y ∈ a.liveChildren 1) (hne : y ≠ x) (k : Handle) :
    (a.absorb x y).liveChildren k =
      if k = x then a.liveChildren x ++ a.liveChildren y
      else if k = y then [] else (a.liveChildren k).filter (· ≠ y) := by
  have hyp := hw.mem_liveChildren_iff.mp hy
  have hylt := lt_size_of_parent? hyp
  have hxlt := lt_size_of_parent? (hw.mem_liveChildren_iff.mp hx)
  -- the group itself is in no list but that of the configuration
  have hyin : ∀ {q}, y ∈ a.children q → q = 1 := fun hq =>
    hw.eq_of_mem_children hq (hw.mem_of_parent y 1 hyp)
  have hx1 : x ≠ 1 := hw.ne_of_parent (hw.mem_liveChildren_iff.mp hx)
  have hy1 : y ≠ 1 := hw.ne_of_parent hyp
  have hparent := parent?_absorb hne a
  -- a node of another list keeps its parent
  have hstay : ∀ {q c}, c ∈ a.children q → q ≠ y → c ≠ y →
      (a.absorb x y).parent? c = a.parent? c := by
    intro q c hc hqy hcy
    have hcnot : ¬(c ∈ a.children y ∧ a.parent? c = some y) := fun h =>
      hqy (hw.eq_of_mem_children hc h.1)
    rw [hparent, if_neg hcy, if_neg hcnot]
  -- a live child of the group hangs below the other one
  have hgive : ∀ c ∈ a.children y, (a.absorb x y).parent? c = some x ↔ a.parent? c = some y := by
    intro c hc
    have hcy : c ≠ y := by
      rintro rfl
      exact hy1 (hyin hc)
    rw [hparent, if_neg hcy]
    by_cases hcp : a.parent? c = some y
    · rw [if_pos ⟨hc, hcp⟩]
      exact iff_of_true rfl hcp
    · rw [if_neg fun h => hcp h.2]
      refine iff_of_false ?_ hcp
      intro hcx
      exact hne (hw.eq_of_mem_children hc (hw.mem_of_parent c x hcx))
  rw [liveChildren, children_absorb hylt hxlt hne]
  by_cases hkx : k = x
  · subst hkx
    have hold : (a.children k).filter (fun c => (a.absorb k y).parent? c = some k) =
        a.liveChildren k := by
      apply List.filter_congr
      intro c hc
      have hcy : c ≠ y := by
        rintro rfl
        exact hx1 (hyin hc)
      rw [hstay hc (Ne.symm hne) hcy]
    have hnew : (a.children y).filter (fun c => (a.absorb k y).parent? c = some k) =
        a.liveChildren y :=
      List.filter_congr fun c hc => decide_eq_decide.mpr (hgive c hc)
    rw [if_pos rfl, if_pos rfl, List.filter_append, hold, hnew]
  · rw [if_neg hkx, if_neg hkx]
    -- any other list loses the group, if it had it
    by_cases hky : k = y
    · rw [if_pos hky, if_pos hky]
      rfl
    · rw [if_neg hky, if_neg hky, liveChildren, List.filter_filter]
      apply List.filter_congr
      intro c hc
      by_cases hcy : c = y
      · rw [hparent, if_pos hcy]
        simp [hcy]
      · rw [hstay hc hky hcy]
        simp [hcy]

/-- A group hangs below the configuration, and is no child of any other node. -/
theorem filter_ne_group (hw : a.WellFormed) (hy : y ∈ a.liveChildren 1) (hk : k ≠ 1) :
    (a.liveChildren k).filter (· ≠ y) = a.liveChildren k := by
  refine List.filter_eq_self.mpr fun c hc => decide_eq_true ?_
  rintro rfl
  have hparent := hw.mem_liveChildren_iff.mp hy
  rw [hw.mem_liveChildren_iff.mp hc] at hparent
  exact hk (Option.some.inj hparent)

/-- A group gets the type of another one, and one of the two is folded into the other. -/
theorem liveChildren_folded (hw : a.WellFormed) (g : Handle) (type : Text)
    (hx : x ∈ a.liveChildren 1) (hy : y ∈ a.liveChildren 1) (hne : y ≠ x) (k : Handle) :
    ((a.modifyContent g (·.withName type)).absorb x y).liveChildren k =
      if k = x then a.liveChildren x ++ a.liveChildren y
      else if k = y then [] else (a.liveChildren k).filter (· ≠ y) := by
  rw [liveChildren_absorb (hw.modifyContent (Content.kind_withName type) g)
    (by rwa [liveChildren_modifyContent]) (by rwa [liveChildren_modifyContent]) hne]
  simp only [liveChildren_modifyContent]

theorem name?_folded (hw : a.WellFormed) (hg : g ∈ a.liveChildren 1) (type : Text) (k : Handle) :
    ((a.modifyContent g (·.withName type)).absorb x y).name? k =
      if k = g then some type else a.name? k := by
  rw [name?_absorb, name?_withName (hw.kind?_of_mem_groups hg) (Or.inl rfl)]

end Arena
end Uci
