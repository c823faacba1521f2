import Uci.Proofs.Document.Naming

/-!
# Names of sections

On issued handles, below a group there are sections only, and of their names one can say
more than that those which were given differ.  Of generated names no more is kept than that
the counter of the group is beyond every number in use, which is what makes the next
generated name a new one; what can bring two equal ones together is a change of type.

## Main definitions

* `Arena.EntriesNamed`, `Arena.GroupsNamed`, `Document.Named` — what holds of names.
* `Arena.Retyped` — what giving a section another type comes to.
* `Arena.Clash` — two sections that would come to share a name.

## Main results

* `GroupsNamed.fresh` — the next generated name of a group is a new one.
* `Retyped.sectionsApart` — names stay apart under a change of type if none clash.
* `Accepts.sectionsApart` — an operation that changes no type never makes two names of a
  group equal.
* `Built.named` — what holds of the names of every document.
-/

namespace Uci

namespace Arena

variable {a b : Arena} {g h k p s t x y : Handle} {c : Content} {P : Text → Prop}

/-- **Names of entries.** -/
structure EntriesNamed (a : Arena) : Prop where
  /-- Names of options and lists are words. -/
  word : ∀ x, a.kind? x = some .option ∨ a.kind? x = some .list →
    ∀ n, a.name? x = some n → Syntax.isWord n = true
  /-- No two entries of a section have the same name. -/
  apart : ∀ s, a.kind? s = some .section → a.Apart s fun _ => True

/-- **Sections apart**: no two live sections of a live group share a name that satisfies
`P`. -/
def SectionsApart (a : Arena) (P : Text → Prop) : Prop := ∀ g ∈ a.liveChildren 1, a.Apart g P

/-- **Names of groups and sections.** -/
structure GroupsNamed (a : Arena) : Prop where
  /-- Types are words. -/
  type_word : ∀ g ∈ a.liveChildren 1, ∀ t, a.name? g = some t → Syntax.isWord t = true
  /-- No two groups have the same type. -/
  types_apart : a.Apart 1 fun _ => True
  /-- No section has the empty name. -/
  name_ne_nil : ∀ s, a.kind? s = some .section → ∀ n, a.name? s = some n → n ≠ []
  /-- No two sections of a type were given the same name. -/
  given_apart : a.SectionsApart fun n => n.head? ≠ some '@'
  /-- A name that looks generated is one, and its number lies behind the group. -/
  counted : ∀ g ∈ a.liveChildren 1, ∀ s ∈ a.liveChildren g, ∀ n, a.name? s = some n →
    n.head? = some '@' → ∃ type number, n = generatedName type number ∧ number < a.counter g

theorem entriesNamed_of (hp : a.Proper) (he : a.Exclusive) : a.EntriesNamed where
  word x hx n hn := by
    obtain ⟨m, hm, hword⟩ := hp.exists_word (Or.inr hx)
    rwa [Option.some.inj (hn.symm.trans hm)]
  apart s hs := he s _ hs

theorem groupsNamed_of (hw : a.WellFormed) (ht : a.Tidy) (hp : a.Proper) (he : a.Exclusive)
    (hn : a.Numbered) : a.GroupsNamed where
  type_word g hg t hname := by
    obtain ⟨t', ht', hword⟩ := hp.exists_word (Or.inl (hw.kind?_of_mem_groups hg))
    rwa [Option.some.inj (hname.symm.trans ht')]
  types_apart := he 1 _ hw.kind_config
  name_ne_nil s hs n hname := by
    obtain ⟨m, hm, hne⟩ := hp.exists_sectionName hs
    rwa [Option.some.inj (hname.symm.trans hm)]
  given_apart g hg := he g _ (hw.kind?_of_mem_groups hg)
  counted g hg s hs := by
    have hkg := hw.kind?_of_mem_groups hg
    exact hn g s ⟨hkg, (mem_liveChildren.mp hs).1, hw.kind?_of_mem_sections ht hkg hs⟩

/-! ### What a change of type comes to -/

/-- **A changed type.**  The section `s` of the group `g` gets the type `type`, and with it
all sections of `g`.  They are found in the group `p` afterwards, together with those that
had the type before; `sources` lists the groups they come from. -/
structure Retyped (a b : Arena) (s g : Handle) (type : Text) (p : Handle) (sources : List Handle) :
    Prop where
  kind : ∀ x, b.kind? x = a.kind? x
  /-- One or two groups become one. -/
  source : sources = [g] ∧ (∀ other, a.childNamed? 1 type = some other → other = g) ∨
    ∃ other, a.childNamed? 1 type = some other ∧ other ≠ g ∧
      (sources = [g, other] ∨ sources = [other, g])
  group_mem : p ∈ b.liveChildren 1
  group_name : b.name? p = some type
  group_children : b.liveChildren p = sources.flatMap a.liveChildren
  /-- The other groups stay as they are. -/
  other : ∀ q ∈ b.liveChildren 1, q ≠ p → q ∈ a.liveChildren 1 ∧ q ∉ sources ∧
    b.liveChildren q = a.liveChildren q ∧ b.counter q = a.counter q
  /-- The sections stay as they are. -/
  section_children : ∀ k, a.kind? k = some .section → b.liveChildren k = a.liveChildren k
  name : ∀ x, x ≠ s → x ≠ g → b.name? x = a.name? x
  /-- The section itself may get the next generated name, which lies behind all groups. -/
  self_name : needsGeneratedName type (a.name? s) = false ∧ b.name? s = a.name? s ∧
      (∀ q ∈ sources, a.counter q ≤ b.counter p) ∨
    needsGeneratedName type (a.name? s) = true ∧ ∃ n, b.name? s = some (generatedName type n) ∧
      n < b.counter p ∧ ∀ q ∈ sources, a.counter q ≤ n

/-- What a changed type comes to before the section itself is named: the sections of the groups
`sources` are found in the one group `p`. -/
private structure Gathered (a b : Arena) (g : Handle) (type : Text) (p : Handle)
    (sources : List Handle) : Prop where
  kind : ∀ x, b.kind? x = a.kind? x
  group_mem : p ∈ b.liveChildren 1
  group_name : b.name? p = some type
  group_children : b.liveChildren p = sources.flatMap a.liveChildren
  other : ∀ q ∈ b.liveChildren 1, q ≠ p → q ∈ a.liveChildren 1 ∧ q ∉ sources ∧
    b.liveChildren q = a.liveChildren q ∧ b.counter q = a.counter q
  section_children : ∀ k, a.kind? k = some .section → b.liveChildren k = a.liveChildren k
  name : ∀ x, x ≠ g → b.name? x = a.name? x
  counter_le : ∀ q ∈ sources, a.counter q ≤ b.counter p

/-- Naming the section is all that is left to do. -/
private theorem Gathered.retyped {type : Text} {sources : List Handle}
    (h : a.Gathered b g type p sources) (hb : b.WellFormed) (hks : a.kind? s = some .section)
    (hsg : s ≠ g) (hs : s ∈ a.liveChildren g)
    (hsource : sources = [g] ∧ (∀ other, a.childNamed? 1 type = some other → other = g) ∨
      ∃ other, a.childNamed? 1 type = some other ∧ other ≠ g ∧
        (sources = [g, other] ∨ sources = [other, g])) :
    a.Retyped (b.nameSection s) s g type p sources := by
  have hkp := hb.kind?_of_mem_groups h.group_mem
  have hps : p ≠ s := ne_of_kind? (by rwa [h.kind] at hkp) hks (by nofun)
  have hsp : s ∈ b.liveChildren p := by
    have hg : g ∈ sources := by
      rcases hsource with ⟨rfl, -⟩ | ⟨other, -, -, rfl | rfl⟩ <;> simp
    rw [h.group_children]
    exact List.mem_flatMap.mpr ⟨g, hg, hs⟩
  have hself := nameSection_self (hb.mem_liveChildren_iff.mp hsp) h.group_name hkp
    ((h.kind s).trans hks)
  rw [h.name s hsg] at hself
  refine
    { kind := fun x => by rw [kind?_nameSection, h.kind]
      source := hsource
      group_mem := by rw [liveChildren_nameSection]; exact h.group_mem
      group_name := by rw [name?_nameSection hps, h.group_name]
      group_children := by rw [liveChildren_nameSection, h.group_children]
      other := fun q hq hqp => ?_
      section_children := fun k hk => by rw [liveChildren_nameSection, h.section_children k hk]
      name := fun x hxs hxg => by rw [name?_nameSection hxs, h.name x hxg]
      self_name := ?_ }
  · rw [liveChildren_nameSection] at hq
    obtain ⟨hmem, hnot, hchildren, hcounter⟩ := h.other q hq hqp
    refine ⟨hmem, hnot, by rw [liveChildren_nameSection, hchildren], ?_⟩
    rcases hself with ⟨-, hsame⟩ | ⟨-, -, -, hcount⟩
    · rw [hsame, hcounter]
    · rw [hcount q hqp, hcounter]
  · rcases hself with ⟨hneeds, hsame⟩ | ⟨hneeds, hname, hcount, -⟩
    · exact Or.inl ⟨hneeds, by rw [hsame, h.name s hsg], by rw [hsame]; exact h.counter_le⟩
    · exact Or.inr ⟨hneeds, _, hname, by rw [hcount]; exact Nat.lt_succ_self _, h.counter_le⟩

section Retype

variable {type : Text} (hw : a.WellFormed) (hg : g ∈ a.liveChildren 1)
include hw hg

/-- There is no other group of the type. -/
private theorem gathered_alone :
    a.Gathered (a.modifyContent g (·.withName type)) g type g [g] where
  kind := kind?_modifyContent (Content.kind_withName type) a g
  group_mem := by rw [liveChildren_modifyContent]; exact hg
  group_name := name?_withName_self (hw.kind?_of_mem_groups hg) (by simp) type
  group_children := by rw [liveChildren_modifyContent]; simp
  other q hq hqg := by
    rw [liveChildren_modifyContent] at hq
    exact ⟨hq, by simpa using hqg, liveChildren_modifyContent .., counter_withName ..⟩
  section_children k _ := liveChildren_modifyContent ..
  name x hx := by rw [name?_modifyContent, if_neg hx]
  counter_le q hq := by
    rw [List.mem_singleton.mp hq, counter_withName]

/-- Another group has the type, and one of the two is folded into the other. -/
private theorem gathered_folded {other : Handle} (hchild : a.childNamed? 1 type = some other)
    (hne : other ≠ g) (hxy : x = g ∧ y = other ∨ x = other ∧ y = g) (hlt : x < y) :
    a.Gathered ((a.modifyContent g (·.withName type)).absorb x y) g type x [x, y] := by
  obtain ⟨homem, hotype⟩ := childNamed?_eq_some hchild
  have hmem : x ∈ a.liveChildren 1 ∧ y ∈ a.liveChildren 1 := by
    rcases hxy with ⟨rfl, rfl⟩ | ⟨rfl, rfl⟩
    · exact ⟨hg, homem⟩
    · exact ⟨homem, hg⟩
  obtain ⟨hx, hy⟩ := hmem
  have hyx : y ≠ x := Nat.ne_of_gt hlt
  have hk := kind?_modifyContent (Content.kind_withName type) a g
  have hname := name?_folded (x := x) (y := y) hw hg type
  have hchildren := liveChildren_folded hw g type hx hy hyx
  have hcounter : ∀ q, ((a.modifyContent g (·.withName type)).absorb x y).counter q =
      if q = x then max (a.counter x) (a.counter y) else a.counter q := by
    intro q
    rw [counter_absorb (by rw [hk]; exact hw.kind?_of_mem_groups hx)]
    simp only [counter_withName]
  -- the configuration is neither of the two groups, and no section is one
  have hconfig : ∀ q ∈ a.liveChildren 1, 1 ≠ q := fun q hq =>
    Ne.symm (hw.ne_of_parent (hw.mem_liveChildren_iff.mp hq))
  have hsection : ∀ k, a.kind? k = some .section → ∀ q ∈ a.liveChildren 1, k ≠ q := by
    intro k hkk q hq
    exact ne_of_kind? hkk (hw.kind?_of_mem_groups hq) (by nofun)
  refine
    { kind := fun q => by rw [kind?_absorb, hk]
      group_mem := ?_
      group_name := ?_
      group_children := by rw [hchildren, if_pos rfl]; simp
      other := fun q hq hqx => ?_
      section_children := fun k hkk => ?_
      name := fun q hq => by rw [hname, if_neg hq]
      counter_le := fun q hq => ?_ }
  · rw [hchildren, if_neg (hconfig x hx), if_neg (hconfig y hy)]
    exact List.mem_filter.mpr ⟨hx, decide_eq_true (Ne.symm hyx)⟩
  · rw [hname]
    rcases hxy with ⟨rfl, -⟩ | ⟨rfl, -⟩
    · exact if_pos rfl
    · rw [if_neg hne, hotype]
  · rw [hchildren, if_neg (hconfig x hx), if_neg (hconfig y hy)] at hq
    obtain ⟨hqmem, hqy⟩ := List.mem_filter.mp hq
    have hqy : q ≠ y := of_decide_eq_true hqy
    refine ⟨hqmem, by simp [hqx, hqy], ?_, by rw [hcounter, if_neg hqx]⟩
    rw [hchildren, if_neg hqx, if_neg hqy]
    exact filter_ne_group hw hy (Ne.symm (hconfig q hqmem))
  · rw [hchildren, if_neg (hsection k hkk x hx), if_neg (hsection k hkk y hy)]
    exact filter_ne_group hw hy (ne_of_kind? hkk hw.kind_config (by nofun))
  · rw [hcounter, if_pos rfl]
    rcases List.mem_cons.mp hq with rfl | hq
    · exact Nat.le_max_left ..
    · rw [List.mem_singleton.mp hq]
      exact Nat.le_max_right ..

variable (hs : s ∈ a.liveChildren g) (hks : a.kind? s = some .section)
include hs hks

/-- **What changing a type comes to.** -/
theorem exists_retyped (hname : ∀ g ∈ a.liveChildren 1, ∃ t, a.name? g = some t)
    (hn : a.GroupsNamed) (type : Text) :
    ∃ p sources, a.Retyped
      (((a.modifyContent g (·.withName type)).mergeGroups 1).nameSection s) s g type p sources := by
  have hsg : s ≠ g := hw.ne_of_parent (hw.mem_liveChildren_iff.mp hs)
  have hb := (hw.modifyContent (Content.kind_withName type) g).mergeGroups
  rcases mergeGroups_rename hw hname hn.types_apart hg type with
    ⟨hall, hmerge⟩ | ⟨other, x, y, hchild, hne, hxy, hlt, hmerge⟩
  · rw [hmerge] at hb ⊢
    exact ⟨g, [g], (gathered_alone hw hg).retyped hb hks hsg hs (Or.inl ⟨rfl, hall⟩)⟩
  · rw [hmerge] at hb ⊢
    refine ⟨x, [x, y], (gathered_folded hw hg hchild hne hxy hlt).retyped hb hks hsg hs
      (Or.inr ⟨other, hchild, hne, ?_⟩)⟩
    rcases hxy with ⟨rfl, rfl⟩ | ⟨rfl, rfl⟩
    · exact Or.inl rfl
    · exact Or.inr rfl

end Retype

/-! ### Changes that are not of a type -/

namespace SectionsApart

/-- No group is new, and below each names stay apart. -/
theorem of_apart (ha : a.SectionsApart P) (hsub : ∀ g ∈ b.liveChildren 1, g ∈ a.liveChildren 1)
    (h : ∀ g, a.Apart g P → b.Apart g P) : b.SectionsApart P :=
  fun g hg => h g (ha g (hsub g hg))

theorem detach (ha : a.SectionsApart P) (h : Handle) : (a.detach h).SectionsApart P := by
  refine ha.of_apart (fun g hg => ?_) fun g hg => hg.detach h
  rw [liveChildren_detach] at hg
  exact List.mem_of_mem_filter hg

theorem withValue (ha : a.SectionsApart P) (h : Handle) (v : Text) :
    (a.modifyContent h (·.withValue v)).SectionsApart P := by
  refine ha.of_apart (fun g hg => ?_) fun g hg => hg.modifyContent fun x => name?_withValue ..
  rwa [liveChildren_modifyContent] at hg

/-- A node under a name that nothing else below its parent has. -/
theorem withName (ha : a.SectionsApart P) (hw : a.WellFormed) {n : Text}
    (hp : a.parent? h = some p) (hun : a.Unused p n (some h)) :
    (a.modifyContent h (·.withName n)).SectionsApart P := by
  refine ha.of_apart (fun g hg => ?_) fun g hg => hg.withName hw fun hg' _ => ?_
  · rwa [liveChildren_modifyContent] at hg
  · rwa [Option.some.inj (hg'.symm.trans hp)]

/-- A new node that is no group, under a name that nothing else below its parent has. -/
theorem hang (ha : a.SectionsApart P) (hw : a.WellFormed) (hp : p < a.size) (hp1 : 1 ≠ p)
    (hun : ∀ n, c.name = some n → P n → a.Unused p n none) : (a.hang p c).SectionsApart P := by
  refine ha.of_apart (fun g hg => ?_) fun g hg => hg.hang hw hp fun _ => hun
  rwa [liveChildren_hang hp (hw.child_lt 1), if_neg hp1] at hg

/-- A new section under a name that no section of its group has. -/
theorem hangSection {type : Text} {name : Option Text} (ha : a.SectionsApart P) (hw : a.WellFormed)
    (hg : g ∈ a.liveChildren 1)
    (hun : P (name.getD (generatedName type (a.counter g))) →
      a.Unused g (name.getD (generatedName type (a.counter g))) none) :
    (a.hangSection g type name).SectionsApart P := by
  have hlt := lt_size_of_parent? (hw.mem_liveChildren_iff.mp hg)
  have h1g : 1 ≠ g := Ne.symm (hw.ne_of_parent (hw.mem_liveChildren_iff.mp hg))
  refine ha.of_apart (fun q hq => ?_) fun q hq => hq.hangSection hw hlt fun _ => hun
  rwa [liveChildren_hangSection hlt name (hw.child_lt 1), if_neg h1g] at hq

/-- A new group of a new type, which is empty. -/
theorem hangGroup {type : Text} (ha : a.SectionsApart P) (hw : a.WellFormed) :
    (a.hang 1 (.sectionType (some type) 0)).SectionsApart P := by
  have hp := hw.one_lt_size
  intro q hq
  rw [liveChildren_hang hp (hw.child_lt 1), if_pos rfl] at hq
  rcases List.mem_append.mp hq with hq | hq
  · have hq1 : q ≠ 1 := hw.ne_of_parent (hw.mem_liveChildren_iff.mp hq)
    exact (ha q hq).hang hw hp fun h => absurd h hq1
  · intro n _ x hx
    rw [List.mem_singleton.mp hq, liveChildren_hang_size hp] at hx
    cases hx

end SectionsApart

/-- **The next generated name is a new one**, whatever names the group has seen. -/
theorem GroupsNamed.fresh (ha : a.GroupsNamed) (hg : g ∈ a.liveChildren 1) {n : Nat}
    (hn : a.counter g ≤ n) (hs : s ∈ a.liveChildren g) {type : Text} :
    a.name? s ≠ some (generatedName type n) := by
  intro hname
  obtain ⟨type', n', heq, hlt⟩ := ha.counted g hg s hs _ hname (generatedName_head _ _)
  rw [← generatedName_inj heq] at hlt
  exact absurd hlt (Nat.not_lt.mpr hn)

/-! ### Names after a change of type -/

/-- **Two sections clash** if they would come to share a name that satisfies `P`: one of the
group that gets another type, one of the group that has it already.  The section whose type is
set does not clash if it loses its name on the way. -/
def Clash (a : Arena) (s g other : Handle) (type : Text) (P : Text → Prop) : Prop :=
  ∃ u ∈ a.liveChildren g, ∃ v ∈ a.liveChildren other, ∃ n, P n ∧ a.name? u = some n ∧
    a.name? v = some n ∧ (u = s → needsGeneratedName type (some n) = false)

namespace Retyped

variable {type : Text} {sources : List Handle} (hr : a.Retyped b s g type p sources)
include hr

theorem source_mem (hg : g ∈ a.liveChildren 1) {q : Handle} (hq : q ∈ sources) :
    q ∈ a.liveChildren 1 := by
  rcases hr.source with ⟨rfl, -⟩ | ⟨other, hchild, -, rfl | rfl⟩
  · rwa [List.mem_singleton.mp hq]
  · rcases List.mem_cons.mp hq with rfl | hq
    · exact hg
    · rw [List.mem_singleton.mp hq]
      exact (childNamed?_eq_some hchild).1
  · rcases List.mem_cons.mp hq with rfl | hq
    · exact (childNamed?_eq_some hchild).1
    · rwa [List.mem_singleton.mp hq]

theorem mem_sources : g ∈ sources := by
  rcases hr.source with ⟨rfl, -⟩ | ⟨other, -, -, rfl | rfl⟩ <;> simp

/-- Two sources are the group that gets the type and the one that has it. -/
theorem sources_ne {q q' : Handle} (hq : q ∈ sources) (hq' : q' ∈ sources) (hne : q ≠ q') :
    ∃ other, a.childNamed? 1 type = some other ∧ other ≠ g ∧
      (q = g ∧ q' = other ∨ q = other ∧ q' = g) := by
  rcases hr.source with ⟨rfl, -⟩ | ⟨other, hchild, hother, hsources⟩
  · exact absurd ((List.mem_singleton.mp hq).trans (List.mem_singleton.mp hq').symm) hne
  · refine ⟨other, hchild, hother, ?_⟩
    rcases hsources with rfl | rfl
    · simp only [List.mem_cons, List.not_mem_nil, or_false] at hq hq'
      rcases hq with rfl | rfl <;> rcases hq' with rfl | rfl <;> simp_all
    · simp only [List.mem_cons, List.not_mem_nil, or_false] at hq hq'
      rcases hq with rfl | rfl <;> rcases hq' with rfl | rfl <;> simp_all

/-- Where a section of the one group comes from. -/
theorem exists_source (hx : x ∈ b.liveChildren p) : ∃ q ∈ sources, x ∈ a.liveChildren q := by
  rw [hr.group_children] at hx
  obtain ⟨q, hq, hx⟩ := List.mem_flatMap.mp hx
  exact ⟨q, hq, hx⟩

variable (hw : a.WellFormed) (ht : a.Tidy) (hg : g ∈ a.liveChildren 1)
include hw ht hg

/-- A section other than the one that was named keeps its name. -/
theorem section_name {q : Handle} (hq : q ∈ a.liveChildren 1) (hx : x ∈ a.liveChildren q)
    (hxs : x ≠ s) : b.name? x = a.name? x := by
  have hk := hw.kind?_of_mem_sections ht (hw.kind?_of_mem_groups hq) hx
  exact hr.name x hxs (ne_of_kind? hk (hw.kind?_of_mem_groups hg) (by nofun))

/-- A new name of the section itself is the name of nobody else. -/
theorem ne_new_name (ha : a.GroupsNamed) (hneeds : needsGeneratedName type (a.name? s) = true)
    (hx : x ∈ b.liveChildren p) (hxs : x ≠ s) {n : Text} (hn : b.name? s = some n) :
    b.name? x ≠ some n := by
  obtain ⟨q, hq, hxq⟩ := hr.exists_source hx
  have hqmem := hr.source_mem hg hq
  rw [hr.section_name hw ht hg hqmem hxq hxs]
  rcases hr.self_name with ⟨hno, -, -⟩ | ⟨-, N, hN, -, hcount⟩
  · rw [hneeds] at hno
    cases hno
  · rw [hN] at hn
    rw [← Option.some.inj hn]
    exact ha.fresh hqmem (hcount q hq) hxq

/-- The sections of the one group, if no two of them clash. -/
private theorem apart (ha : a.GroupsNamed) (hP : a.SectionsApart P)
    (hclash : ∀ other, a.childNamed? 1 type = some other → other ≠ g →
      ¬a.Clash s g other type P) : b.Apart p P := by
  intro n hn u hu v hv hnu hnv
  obtain ⟨q, hq, huq⟩ := hr.exists_source hu
  obtain ⟨q', hq', hvq⟩ := hr.exists_source hv
  have hqmem := hr.source_mem hg hq
  have hqmem' := hr.source_mem hg hq'
  -- if the section itself is one of the two under a new name, they are the same
  by_cases hneeds : needsGeneratedName type (a.name? s) = true ∧ (u = s ∨ v = s)
  · obtain ⟨hneeds, rfl | rfl⟩ := hneeds
    · by_contra huv
      exact hr.ne_new_name hw ht hg ha hneeds hv (Ne.symm huv) hnu hnv
    · by_contra huv
      exact hr.ne_new_name hw ht hg ha hneeds hu huv hnv hnu
  -- otherwise both have the name they had
  · have hkeep : ∀ x, x = u ∨ x = v → x = s → needsGeneratedName type (a.name? s) = false := by
      intro x hx hxs
      refine Bool.eq_false_iff.mpr fun hyes => hneeds ⟨hyes, ?_⟩
      rcases hx with rfl | rfl
      · exact Or.inl hxs
      · exact Or.inr hxs
    have hold : ∀ x, x = u ∨ x = v → ∀ q ∈ a.liveChildren 1, x ∈ a.liveChildren q →
        b.name? x = a.name? x := by
      intro x hx q hq hxq
      by_cases hxs : x = s
      · rcases hr.self_name with ⟨-, hsame, -⟩ | ⟨hyes, -⟩
        · rw [hxs, hsame]
        · rw [hkeep x hx hxs] at hyes
          cases hyes
      · exact hr.section_name hw ht hg hq hxq hxs
    rw [hold u (Or.inl rfl) q hqmem huq] at hnu
    rw [hold v (Or.inr rfl) q' hqmem' hvq] at hnv
    by_cases hqq : q = q'
    · rw [← hqq] at hvq
      exact hP q hqmem n hn u huq v hvq hnu hnv
    · -- one is of the group that gets the type, one of the group that has it
      exfalso
      obtain ⟨other, hchild, hne, ⟨rfl, rfl⟩ | ⟨rfl, rfl⟩⟩ := hr.sources_ne hq hq' hqq
      · refine hclash _ hchild hne ⟨u, huq, v, hvq, n, hn, hnu, hnv, ?_⟩
        intro hus
        rw [← hnu, hus]
        exact hkeep u (Or.inl rfl) hus
      · refine hclash _ hchild hne ⟨v, hvq, u, huq, n, hn, hnv, hnu, ?_⟩
        intro hvs
        rw [← hnv, hvs]
        exact hkeep v (Or.inr rfl) hvs

omit ht hg in
/-- The section itself hangs below a source, and below no other group. -/
theorem ne_self {q : Handle} (hs : s ∈ a.liveChildren g) (hq : q ∉ sources)
    (hx : x ∈ a.liveChildren q) : x ≠ s := by
  rintro rfl
  have hgq : g = q := Option.some.inj
    ((hw.mem_liveChildren_iff.mp hs).symm.trans (hw.mem_liveChildren_iff.mp hx))
  exact hq (hgq ▸ hr.mem_sources)

/-- **Names stay apart if no two sections clash.** -/
theorem sectionsApart (ha : a.GroupsNamed) (hP : a.SectionsApart P)
    (hclash : ∀ other, a.childNamed? 1 type = some other → other ≠ g →
      ¬a.Clash s g other type P) (hs : s ∈ a.liveChildren g) : b.SectionsApart P := by
  intro q hq
  by_cases hqp : q = p
  · rw [hqp]
    exact hr.apart hw ht hg ha hP hclash
  · obtain ⟨hqmem, hqno, hL, -⟩ := hr.other q hq hqp
    refine (hP q hqmem).sub ?_
    intro x hx
    rw [hL] at hx
    exact ⟨hx, hr.section_name hw ht hg hqmem hx (hr.ne_self hw hs hqno hx)⟩

end Retyped

/-! ### The empty document -/

theorem liveChildren_empty : Document.empty.arena.liveChildren 1 = [] := by decide

end Arena

namespace Document

open Arena

variable {d d' : Document} {op : Operation} {r : Option Handle} {P : Text → Prop}

/-! ### Every operation -/

/-- The type of a changed section, as a change of the arena. -/
theorem Accepts.exists_retyped (hw : d.arena.WellFormed) (ht : d.arena.Tidy)
    (ha : d.arena.GroupsNamed) {s g : Handle} (hs : d.HangsLive s .section g) (type : Text) :
    g ∈ d.arena.liveChildren 1 ∧ s ∈ d.arena.liveChildren g ∧ ∃ p sources, d.arena.Retyped
      (((d.arena.modifyContent g (·.withName type)).mergeGroups 1).nameSection s) s g type p
        sources := by
  obtain ⟨hlive, hks, hp⟩ := hs
  have hsg := hw.mem_liveChildren_iff.mpr hp
  have hg : g ∈ d.arena.liveChildren 1 := by
    obtain ⟨g', hg', hsg'⟩ := exists_group_of_isLive hw hlive hks
    rwa [Option.some.inj (hp.symm.trans (hw.mem_liveChildren_iff.mp hsg'))]
  refine ⟨hg, hsg, Arena.exists_retyped hw hg hsg hks ?_ ha type⟩
  intro q hq
  exact exists_name_of_tidy ht (hw.kind?_of_mem_groups hq) (Or.inl rfl)

/-- **An operation that changes no type never makes two names of a group equal.** -/
theorem Accepts.sectionsApart (hw : d.arena.WellFormed) (ha : d.arena.GroupsNamed)
    (hP : d.arena.SectionsApart P) (hretypes : op.retypes = false) (h : d.Accepts op r d') :
    d'.arena.SectionsApart P := by
  -- an entry or an element does not hang below the configuration
  have hhost : ∀ {p : Handle} {k : NodeKind}, d.Hosts p k → k ≠ .sectionType → 1 ≠ p := by
    rintro p k ⟨-, kp, hkp, hold⟩ hk rfl
    obtain rfl := Option.some.inj (hw.kind_config.symm.trans hkp)
    cases k <;> first | exact hk rfl | cases hold
  cases h with
  | setPackage _ => exact hP
  | @addSection h g type name _ _ _ hg hun =>
    refine hP.hangSection hw (childNamed?_eq_some hg).1 fun _ => ?_
    cases name with
    | none => exact fun x hx _ => ha.fresh (childNamed?_eq_some hg).1 (Nat.le_refl _) hx
    | some n => exact hun n rfl
  | @addSectionAndGroup h type name _ _ _ _ =>
    obtain ⟨hw₁, -⟩ := wellFormed_hang_group hw type
    refine (hP.hangGroup hw).hangSection hw₁ ?_ ?_
    · rw [liveChildren_hang hw.one_lt_size (hw.child_lt 1), if_pos rfl]
      simp
    · intro _ x hx _
      rw [liveChildren_hang_size hw.one_lt_size] at hx
      cases hx
  | addOption hp _ hun =>
    exact hP.hang hw hp.lt_size (hhost hp (by nofun)) fun m hm _ => Option.some.inj hm ▸ hun
  | addList hp _ hun =>
    exact hP.hang hw hp.lt_size (hhost hp (by nofun)) fun m hm _ => Option.some.inj hm ▸ hun
  | addElement hp => exact hP.hang hw hp.lt_size (hhost hp (by nofun)) (by nofun)
  | remove _ _ _ => exact hP.detach _
  | setSectionType => cases hretypes
  | setSectionName hs _ hun => exact hP.withName hw hs.2.2 hun
  | setOptionName hh _ hun => exact hP.withName hw hh.2.2 hun
  | setListName hh _ hun => exact hP.withName hw hh.2.2 hun
  | setOptionValue _ _ => exact hP.withValue _ _
  | setElementValue _ _ => exact hP.withValue _ _

/-- **Names of a document.** -/
structure Named (d : Document) : Prop where
  /-- The package is a word. -/
  package : ∀ t ∈ d.package, Syntax.isWord t = true
  entries : d.arena.EntriesNamed
  groups : d.arena.GroupsNamed

/-- **What holds of the names of every document.** -/
theorem Built.named (hd : d.Built OnIssued) : d.Named := by
  have hany : d.Built OnAny := hd.mono fun _ _ _ => trivial
  have hw := hd.wellFormed
  have ht := hd.tidy fun _ _ h => h
  obtain ⟨hpackage, hproper, hexclusive⟩ := hany.names
  exact ⟨hpackage, entriesNamed_of hproper hexclusive,
    groupsNamed_of hw ht hproper hexclusive hany.numbered⟩

end Document
end Uci
