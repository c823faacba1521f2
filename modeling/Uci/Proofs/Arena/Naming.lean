import Uci.Proofs.Arena.Merge
import Uci.Proofs.Arena.Numbering
import Uci.Proofs.Document.Check

/-!
# Names and their places

What is known about names does not depend on the handles that edits were made with.  Every
node that has a name has a proper one: a word, or for a section any text but the empty one.
And a name has its place for itself: among the groups, among the entries of a section, and
among the nodes below a group as long as it was given and not generated.

## Main definitions

* `Arena.Proper` — every name is of the form that its node asks for.
* `NodeKind.exclusive`, `Arena.Exclusive` — the names that one child of a node keeps from
  the others.

## Main results

* `Proper.modifyContent`, `.detach`, `.hang`, `.hangSection`, `.of_absorbs`,
  `.nameSection` — names stay proper.
* `Apart.withName`, `Apart.hang` — one node under a name that is unused.
* `Exclusive.withName`, `.hang`, `.hangSection`, `.retype`, `.nameSection` — names stay
  exclusive; `Exclusive.retype` is the case in which two groups become one.
-/

namespace Uci

/-- **Proper content**: there is a name if there is a place for one, and it is a word, or for a
section any text but the empty one. -/
def Content.Proper : Content → Prop
  | .root | .config | .element _ => True
  | .section n => ∃ t ∈ n, t ≠ []
  | .sectionType n _ | .option n _ | .list n => ∃ t ∈ n, Syntax.isWord t = true

/-- **Exclusive names**: those that one child of a node of this kind keeps from the others.  Below
a group these are the names that were given. -/
def NodeKind.exclusive : NodeKind → Text → Prop
  | .config, _ | .section, _ => True
  | .sectionType, n => n.head? ≠ some '@'
  | _, _ => False

namespace Content

variable {c : Content} {n : Text}

theorem proper_withName (hsection : c.kind = .section → n ≠ [])
    (hword : c.kind ≠ .section → Syntax.isWord n = true) : (c.withName n).Proper := by
  cases c with
  | «section» m => exact ⟨n, rfl, hsection rfl⟩
  | sectionType m k => exact ⟨n, rfl, hword (by nofun)⟩
  | option m v => exact ⟨n, rfl, hword (by nofun)⟩
  | list m => exact ⟨n, rfl, hword (by nofun)⟩
  | _ => trivial

theorem Proper.withValue (hc : c.Proper) (v : Text) : (c.withValue v).Proper := by
  cases c <;> exact hc

theorem Proper.withCounter (hc : c.Proper) (k : Nat) : (c.withCounter k).Proper := by
  cases c <;> exact hc

end Content

namespace Arena

variable {a b : Arena} {g h k p s t x y : Handle} {c : Content} {n type : Text}
  {name : Option Text} {P : Text → Prop}

/-- **Proper arena**: every name is of the form that its node asks for. -/
def Proper (a : Arena) : Prop := ∀ h c, a.content? h = some c → c.Proper

namespace Proper

theorem exists_word (ha : a.Proper)
    (hk : a.kind? h = some .sectionType ∨ a.kind? h = some .option ∨ a.kind? h = some .list) :
    ∃ t, a.name? h = some t ∧ Syntax.isWord t = true := by
  have hcase : ∃ c, a.content? h = some c ∧
      (c.kind = .sectionType ∨ c.kind = .option ∨ c.kind = .list) := by
    rcases hk with hk | hk | hk <;> obtain ⟨c, hc, hck⟩ := kind?_eq_some_iff.mp hk <;>
      exact ⟨c, hc, by simp [hck]⟩
  obtain ⟨c, hc, hck⟩ := hcase
  have hproper := ha h c hc
  rw [name?_eq, hc]
  cases c with
  | sectionType m k => exact hproper
  | option m v => exact hproper
  | list m => exact hproper
  | _ => simp [Content.kind] at hck

theorem exists_sectionName (ha : a.Proper) (hk : a.kind? s = some .section) :
    ∃ n, a.name? s = some n ∧ n ≠ [] := by
  obtain ⟨c, hc, hck⟩ := kind?_eq_some_iff.mp hk
  have hproper := ha s c hc
  rw [name?_eq, hc]
  cases c with
  | «section» m => exact hproper
  | _ => cases hck

theorem modifyContent (ha : a.Proper) {f : Content → Content}
    (hf : ∀ c, a.content? h = some c → c.Proper → (f c).Proper) :
    (a.modifyContent h f).Proper := by
  intro x c hc
  rw [content?_modifyContent] at hc
  split at hc
  · next hx =>
    obtain ⟨c', hc', rfl⟩ := Option.map_eq_some_iff.mp hc
    exact hf c' (hx ▸ hc') (ha x c' hc')
  · exact ha x c hc

theorem withName (ha : a.Proper) {k : NodeKind} (hk : a.kind? h = some k)
    (hsection : k = .section → n ≠ []) (hword : k ≠ .section → Syntax.isWord n = true) :
    (a.modifyContent h (·.withName n)).Proper := by
  refine ha.modifyContent fun c hc _ => ?_
  rw [kind?, hc] at hk
  obtain rfl := Option.some.inj hk
  exact Content.proper_withName hsection hword

theorem withValue (ha : a.Proper) (h : Handle) (v : Text) :
    (a.modifyContent h (·.withValue v)).Proper := ha.modifyContent fun _ _ hc => hc.withValue v

theorem withCounter (ha : a.Proper) (h : Handle) (k : Nat) :
    (a.modifyContent h (·.withCounter k)).Proper := ha.modifyContent fun _ _ hc => hc.withCounter k

theorem detach (ha : a.Proper) (h : Handle) : (a.detach h).Proper := by
  intro x c hc
  rw [content?_detach] at hc
  exact ha x c hc

theorem hang (ha : a.Proper) (hp : p < a.size) (hc : c.Proper) : (a.hang p c).Proper := by
  intro x d hd
  rw [content?_hang hp] at hd
  split at hd
  · exact Option.some.inj hd ▸ hc
  · exact ha x d hd

theorem hangSection (ha : a.Proper) (hg : g < a.size) (type : Text)
    (hname : ∀ n ∈ name, n ≠ []) : (a.hangSection g type name).Proper := by
  cases name with
  | some n => exact ha.hang hg ⟨n, rfl, hname n rfl⟩
  | none =>
    exact (ha.withCounter g _).hang (by rwa [size_modifyContent])
      ⟨_, rfl, generatedName_ne_nil type _⟩

theorem of_absorbs (ha : a.Proper) (h : Relation.ReflTransGen Absorbs a b) : b.Proper := by
  induction h with
  | refl => exact ha
  | tail _ hstep ih =>
    obtain ⟨t, g, -, -, -, rfl⟩ := hstep
    intro x c hc
    rw [content?_absorb] at hc
    split at hc
    · obtain ⟨c', hc', rfl⟩ := Option.map_eq_some_iff.mp hc
      exact (ih x c' hc').withCounter _
    · exact ih x c hc

theorem nameSection (ha : a.Proper) (hks : a.kind? s = some .section) :
    (a.nameSection s).Proper := by
  rcases a.nameSection_eq_self_or s with heq | ⟨g, type, -, -, -, heq⟩ <;> rw [heq]
  · exact ha
  · refine (ha.withCounter _ _).withName (k := .section) ?_ (fun _ => generatedName_ne_nil _ _)
      fun hne => absurd rfl hne
    rwa [kind?_modifyContent (Content.kind_withCounter _)]

end Proper

/-! ### One change below a node -/

/-- Names below a node that loses children, if it is changed at all, and keeps their names. -/
theorem Apart.detach (ha : a.Apart p P) (h : Handle) : (a.detach h).Apart p P := by
  refine ha.sub fun x hx => ?_
  rw [liveChildren_detach] at hx
  exact ⟨List.mem_of_mem_filter hx, by rw [name?_eq, name?_eq, content?_detach]⟩

/-- A change of content that changes no name. -/
theorem Apart.modifyContent (ha : a.Apart p P) {f : Content → Content}
    (hname : ∀ x, (a.modifyContent h f).name? x = a.name? x) : (a.modifyContent h f).Apart p P := by
  refine ha.sub fun x hx => ?_
  rw [liveChildren_modifyContent] at hx
  exact ⟨hx, hname x⟩

theorem eq_of_name?_withName {m : Text} (hm : (a.modifyContent h (·.withName n)).name? h = some m) :
    m = n := by
  rw [name?_modifyContent, if_pos rfl] at hm
  obtain ⟨c, -, hc⟩ := Option.bind_eq_some_iff.mp hm
  cases c with
  | root => cases hc
  | config => cases hc
  | element v => cases hc
  | _ => exact (Option.some.inj hc).symm

/-- **A node under another name**, which no other child of its parent has. -/
theorem Apart.withName (ha : a.Apart p P) (hw : a.WellFormed)
    (hun : a.parent? h = some p → P n → a.Unused p n (some h)) :
    (a.modifyContent h (·.withName n)).Apart p P := by
  have hold : ∀ x ∈ (a.modifyContent h (·.withName n)).liveChildren p, x ≠ h →
      x ∈ a.liveChildren p ∧ (a.modifyContent h (·.withName n)).name? x = a.name? x := by
    intro x hx hxh
    rw [liveChildren_modifyContent] at hx
    exact ⟨hx, by rw [name?_modifyContent, if_neg hxh]⟩
  by_cases hp : a.parent? h = some p
  · refine ha.change hold ?_
    intro m hm hself x hx hxh
    obtain ⟨hx', hname⟩ := hold x hx hxh
    obtain rfl := eq_of_name?_withName hself
    rw [hname]
    exact hun hp hm x hx' fun he => hxh (Option.some.inj he)
  · -- it hangs elsewhere
    refine ha.sub fun x hx => hold x hx ?_
    rintro rfl
    rw [liveChildren_modifyContent] at hx
    exact hp (hw.mem_liveChildren_iff.mp hx)

/-- **A new node** under a name that no other child of its parent has. -/
theorem Apart.hang (ha : a.Apart k P) (hw : a.WellFormed) (hp : p < a.size)
    (hun : k = p → ∀ n, c.name = some n → P n → a.Unused p n none) : (a.hang p c).Apart k P := by
  have hold : ∀ x ∈ (a.hang p c).liveChildren k, x ≠ a.size →
      x ∈ a.liveChildren k ∧ (a.hang p c).name? x = a.name? x := by
    intro x hx hxs
    refine ⟨?_, by rw [name?_hang hp, if_neg hxs]⟩
    rw [liveChildren_hang hp (hw.child_lt k)] at hx
    split at hx
    · exact (List.mem_append.mp hx).resolve_right fun h => hxs (List.mem_singleton.mp h)
    · exact hx
  by_cases hkp : k = p
  · refine ha.change hold ?_
    intro m hm hself x hx hxs
    obtain ⟨hx', hname⟩ := hold x hx hxs
    rw [name?_hang hp, if_pos rfl] at hself
    rw [hname]
    exact hun hkp m hself hm x (hkp ▸ hx') nofun
  · refine ha.sub fun x hx => hold x hx ?_
    rw [liveChildren_hang hp (hw.child_lt k), if_neg hkp] at hx
    exact Nat.ne_of_lt (hw.child_lt k x (mem_liveChildren.mp hx).1)

/-- **A new section** under a name that no other node below its group has. -/
theorem Apart.hangSection (ha : a.Apart k P) (hw : a.WellFormed) (hg : g < a.size)
    (hun : k = g → P (name.getD (generatedName type (a.counter g))) →
      a.Unused g (name.getD (generatedName type (a.counter g))) none) :
    (a.hangSection g type name).Apart k P := by
  cases name with
  | some n =>
    refine ha.hang hw hg fun hk m hm hP => ?_
    obtain rfl := Option.some.inj hm
    exact hun hk hP
  | none =>
    have hbump : (a.modifyContent g (·.withCounter (a.counter g + 1))).Apart k P :=
      ha.modifyContent fun x => name?_withCounter ..
    refine hbump.hang (hw.modifyContent (Content.kind_withCounter _) g)
      (by rwa [size_modifyContent]) fun hk m hm hP => ?_
    obtain rfl := Option.some.inj hm
    intro x hx _
    rw [liveChildren_modifyContent] at hx
    rw [name?_withCounter]
    exact hun hk hP x hx nofun

/-! ### Exclusive names -/

/-- **Exclusive arena**: no two live children of a node share a name that is exclusive there. -/
def Exclusive (a : Arena) : Prop := ∀ p k, a.kind? p = some k → a.Apart p k.exclusive

namespace Exclusive

theorem detach (ha : a.Exclusive) (h : Handle) : (a.detach h).Exclusive := by
  intro p k hk
  rw [kind?_detach] at hk
  exact (ha p k hk).detach h

theorem withValue (ha : a.Exclusive) (h : Handle) (v : Text) :
    (a.modifyContent h (·.withValue v)).Exclusive := by
  intro p k hk
  rw [kind?_modifyContent (Content.kind_withValue v)] at hk
  exact (ha p k hk).modifyContent fun x => name?_withValue ..

theorem withCounter (ha : a.Exclusive) (h : Handle) (m : Nat) :
    (a.modifyContent h (·.withCounter m)).Exclusive := by
  intro p k hk
  rw [kind?_modifyContent (Content.kind_withCounter m)] at hk
  exact (ha p k hk).modifyContent fun x => name?_withCounter ..

theorem withName (ha : a.Exclusive) (hw : a.WellFormed)
    (hun : ∀ p k, a.parent? h = some p → a.kind? p = some k → k.exclusive n →
      a.Unused p n (some h)) : (a.modifyContent h (·.withName n)).Exclusive := by
  intro p k hk
  rw [kind?_modifyContent (Content.kind_withName n)] at hk
  exact (ha p k hk).withName hw fun hp hn => hun p k hp hk hn

theorem hang (ha : a.Exclusive) (hw : a.WellFormed) (hp : p < a.size)
    (hun : ∀ k n, a.kind? p = some k → c.name = some n → k.exclusive n → a.Unused p n none) :
    (a.hang p c).Exclusive := by
  intro q k hk n hn x hx y hy
  by_cases hq : q = a.size
  · -- nothing hangs below the new node
    rw [liveChildren_hang hp (hw.child_lt q), if_neg (hq ▸ Nat.ne_of_gt hp), liveChildren,
      children_eq_nil (Nat.le_of_eq hq.symm)] at hx
    cases hx
  · rw [kind?_hang hp, if_neg hq] at hk
    exact (ha q k hk).hang hw hp (fun hqp m hm hP => hun k m (hqp ▸ hk) hm hP) n hn x hx y hy

theorem hangSection (ha : a.Exclusive) (hw : a.WellFormed) (hg : a.kind? g = some .sectionType)
    (hun : ∀ n ∈ name, a.Unused g n none) : (a.hangSection g type name).Exclusive := by
  have hlt := lt_size_of_kind? hg
  cases name with
  | some n =>
    refine ha.hang hw hlt fun k m _ hm _ => ?_
    obtain rfl := Option.some.inj hm
    exact hun n rfl
  | none =>
    refine (ha.withCounter g _).hang (hw.modifyContent (Content.kind_withCounter _) g)
      (by rwa [size_modifyContent]) fun k m hk hm hP => ?_
    -- generated names are not exclusive below a group
    rw [kind?_modifyContent (Content.kind_withCounter _), hg] at hk
    obtain rfl := Option.some.inj hk
    obtain rfl := Option.some.inj hm
    exact absurd (generatedName_head _ _) hP

theorem nameSection (ha : a.Exclusive) (hw : a.WellFormed) (hks : a.kind? s = some .section) :
    (a.nameSection s).Exclusive := by
  rcases a.nameSection_eq_self_or s with heq | ⟨g, type, -, -, -, heq⟩ <;> rw [heq]
  · exact ha
  · refine (ha.withCounter _ _).withName (hw.modifyContent (Content.kind_withCounter _) _)
      fun p k hp hk hP => ?_
    -- a generated name is not exclusive below the group that the section hangs below
    rw [parent?_modifyContent] at hp
    rw [kind?_modifyContent (Content.kind_withCounter _), hw.kind?_group hks hp] at hk
    obtain rfl := Option.some.inj hk
    exact absurd (generatedName_head _ _) hP

/-! ### Two groups become one -/

section Retype

variable (ha : a.Exclusive) (hw : a.WellFormed) (hg : g ∈ a.liveChildren 1)
include ha hw hg

/-- Of the two groups that would be of the type one is left, and no other has it. -/
private theorem folded_groups {other : Handle} (hother : other ∈ a.liveChildren 1)
    (htype : a.name? other = some type) (hne : other ≠ g)
    (hxy : x = g ∧ y = other ∨ x = other ∧ y = g) (hx : x ∈ a.liveChildren 1)
    (hy : y ∈ a.liveChildren 1) (hyx : y ≠ x) :
    ((a.modifyContent g (·.withName type)).absorb x y).Apart 1 fun _ => True := by
  have hgroups : a.Apart 1 fun _ => True := ha 1 _ hw.kind_config
  have hname := name?_folded (x := x) (y := y) hw hg type
  have hgother : ∀ {u}, u ≠ x → u ≠ y → u ≠ g ∧ u ≠ other := by
    intro u hux huy
    rcases hxy with ⟨rfl, rfl⟩ | ⟨rfl, rfl⟩
    · exact ⟨hux, huy⟩
    · exact ⟨huy, hux⟩
  have hold : ∀ u ∈ ((a.modifyContent g (·.withName type)).absorb x y).liveChildren 1,
      u ∈ a.liveChildren 1 ∧ u ≠ y := by
    intro u hu
    rw [liveChildren_folded hw g type hx hy hyx,
      if_neg (hw.ne_of_parent (hw.mem_liveChildren_iff.mp hx)).symm,
      if_neg (hw.ne_of_parent (hw.mem_liveChildren_iff.mp hy)).symm] at hu
    obtain ⟨hu, huy⟩ := List.mem_filter.mp hu
    exact ⟨hu, of_decide_eq_true huy⟩
  have hnx : ((a.modifyContent g (·.withName type)).absorb x y).name? x = some type := by
    rw [hname]
    rcases hxy with ⟨rfl, -⟩ | ⟨rfl, -⟩
    · exact if_pos rfl
    · rw [if_neg hne, htype]
  refine hgroups.change (z := x) ?_ ?_
  · intro u hu hux
    obtain ⟨hu, huy⟩ := hold u hu
    exact ⟨hu, by rw [hname, if_neg (hgother hux huy).1]⟩
  · intro n _ hn u hu hux hnu
    obtain ⟨hu, huy⟩ := hold u hu
    obtain ⟨hug, huo⟩ := hgother hux huy
    rw [hname, if_neg hug, ← hn, hnx] at hnu
    exact huo (hgroups type trivial u hu other hother hnu htype)

/-- One group is folded into another that has the type, out of the two that would have it. -/
private theorem folded {other : Handle} (hother : other ∈ a.liveChildren 1)
    (htype : a.name? other = some type) (hne : other ≠ g)
    (hxy : x = g ∧ y = other ∨ x = other ∧ y = g) (hlt : x < y)
    (hclash : ∀ u ∈ a.liveChildren g, ∀ v ∈ a.liveChildren other, ∀ n, n.head? ≠ some '@' →
      a.name? u = some n → a.name? v ≠ some n) :
    ((a.modifyContent g (·.withName type)).absorb x y).Exclusive := by
  have hyx : y ≠ x := Nat.ne_of_gt hlt
  have hboth : (x ∈ a.liveChildren 1 ∧ y ∈ a.liveChildren 1) ∧
      ∀ u ∈ a.liveChildren x, ∀ v ∈ a.liveChildren y, ∀ n, n.head? ≠ some '@' →
        a.name? u = some n → a.name? v ≠ some n := by
    rcases hxy with ⟨rfl, rfl⟩ | ⟨rfl, rfl⟩
    · exact ⟨⟨hg, hother⟩, hclash⟩
    · exact ⟨⟨hother, hg⟩, fun u hu v hv n hn hnu hnv => hclash v hv u hu n hn hnv hnu⟩
  obtain ⟨⟨hx, hy⟩, hcross⟩ := hboth
  have hkx := hw.kind?_of_mem_groups hx
  have hname := name?_folded (x := x) (y := y) hw hg type
  have hchildren := liveChildren_folded hw g type hx hy hyx
  -- what does not hang below the configuration is not the group that was renamed
  have hbelow : ∀ {q u}, u ∈ a.liveChildren q → q ≠ 1 →
      ((a.modifyContent g (·.withName type)).absorb x y).name? u = a.name? u := by
    intro q u hu hq
    rw [hname, if_neg]
    rintro rfl
    exact hq (Option.some.inj
      ((hw.mem_liveChildren_iff.mp hu).symm.trans (hw.mem_liveChildren_iff.mp hg)))
  intro p k hk
  rw [kind?_absorb, kind?_modifyContent (Content.kind_withName type)] at hk
  by_cases hp1 : p = 1
  · subst hp1
    obtain rfl := Option.some.inj (hk.symm.trans hw.kind_config)
    exact folded_groups ha hw hg hother htype hne hxy hx hy hyx
  by_cases hpx : p = x
  · subst hpx
    obtain rfl := Option.some.inj (hk.symm.trans hkx)
    have hy1 : y ≠ 1 := hw.ne_of_parent (hw.mem_liveChildren_iff.mp hy)
    have hky := hw.kind?_of_mem_groups hy
    intro n hn u hu v hv hnu hnv
    rw [hchildren, if_pos rfl, List.mem_append] at hu hv
    rw [hu.elim (hbelow · hp1) (hbelow · hy1)] at hnu
    rw [hv.elim (hbelow · hp1) (hbelow · hy1)] at hnv
    rcases hu with hu | hu <;> rcases hv with hv | hv
    · exact ha p _ hkx n hn u hu v hv hnu hnv
    · exact absurd hnv (hcross u hu v hv n hn hnu)
    · exact absurd hnu (hcross v hv u hu n hn hnv)
    · exact ha y _ hky n hn u hu v hv hnu hnv
  · refine (ha p k hk).sub fun u hu => ?_
    rw [hchildren, if_neg hpx] at hu
    split at hu
    · cases hu
    · have hu' := List.mem_of_mem_filter hu
      exact ⟨hu', hbelow hu' hp1⟩

/-- **Names stay exclusive when a group gets another type**, if no name that was given is in use
in the group that has the type already. -/
theorem retype (hp : a.Proper) (type : Text)
    (hclash : ∀ other, a.childNamed? 1 type = some other → other ≠ g →
      ∀ u ∈ a.liveChildren g, ∀ v ∈ a.liveChildren other, ∀ n, n.head? ≠ some '@' →
        a.name? u = some n → a.name? v ≠ some n) :
    ((a.modifyContent g (·.withName type)).mergeGroups 1).Exclusive := by
  have hnames : ∀ q ∈ a.liveChildren 1, ∃ t, a.name? q = some t := by
    intro q hq
    obtain ⟨t, ht, -⟩ := hp.exists_word (Or.inl (hw.kind?_of_mem_groups hq))
    exact ⟨t, ht⟩
  have hgroups : a.Apart 1 fun _ => True := ha 1 _ hw.kind_config
  rcases mergeGroups_rename hw hnames hgroups hg type with
    ⟨hall, hmerge⟩ | ⟨other, x, y, hchild, hne, hxy, hlt, hmerge⟩
  · rw [hmerge]
    refine ha.withName hw fun p k hpg _ _ => ?_
    rw [hw.mem_liveChildren_iff.mp hg] at hpg
    obtain rfl := Option.some.inj hpg
    intro q hq hqg hname
    -- a group of the type is the one that was found
    cases hchild : a.childNamed? 1 type with
    | none => exact childNamed?_eq_none_iff.mp hchild q hq hname
    | some other =>
      obtain ⟨homem, hotype⟩ := childNamed?_eq_some hchild
      have hqo : q = other := hgroups type trivial q hq other homem hname hotype
      exact hqg (congrArg some (hqo.trans (hall other hchild)))
  · rw [hmerge]
    obtain ⟨homem, hotype⟩ := childNamed?_eq_some hchild
    exact folded ha hw hg homem hotype hne hxy hlt (hclash other hchild hne)

end Retype

end Exclusive
end Arena
end Uci
