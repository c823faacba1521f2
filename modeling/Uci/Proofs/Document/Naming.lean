import Uci.Proofs.Arena.Naming
import Uci.Proofs.Document.Numbering
import Uci.Proofs.Document.Reading

/-!
# Names are in order

Lookups, the checks of the edits and the printed text rest on the names of a document: what
stands there without quotes is a word, and where a name has to tell a node from its siblings
it does.  Every accepted operation keeps this, on whatever handle it was made; the one that
needs an argument is the change of a type, where the names were checked against another
group than the one they are found in afterwards.

## Main definitions

* `Document.NamesInOrder` — what holds of the names of a document.

## Main results

* `Accepts.proper`, `Accepts.exclusive` — what one operation keeps.
* `namesInOrder_of_reachable` — **names are in order** in every document.
-/

namespace Uci
namespace Document

open Arena

variable {d d' : Document} {op : Operation} {r : Option Handle} {g h p s x y : Handle}
  {n type : Text}

/-! ### One operation -/

namespace Accepts

/-- **Names stay proper.** -/
theorem proper (hw : d.arena.WellFormed) (hd : d.arena.Proper) (h : d.Accepts op r d') :
    d'.arena.Proper := by
  cases h with
  | setPackage _ => exact hd
  | addSection _ _ hname hg _ =>
    exact hd.hangSection (hw.lt_size_of_childNamed? hg) _ fun n hn => (hname n hn).1
  | @addSectionAndGroup h type name _ hword hname _ =>
    obtain ⟨-, hk⟩ := wellFormed_hang_group hw type
    have hgroup : (d.arena.hang 1 (.sectionType (some type) 0)).Proper :=
      hd.hang hw.one_lt_size ⟨type, rfl, hword⟩
    exact hgroup.hangSection (lt_size_of_kind? hk) _ fun n hn => (hname n hn).1
  | addOption hp hword _ => exact hd.hang hp.lt_size ⟨_, rfl, hword⟩
  | addList hp hword _ => exact hd.hang hp.lt_size ⟨_, rfl, hword⟩
  | addElement hp => exact hd.hang hp.lt_size trivial
  | remove _ _ _ => exact hd.detach _
  | @setSectionType s g type hs hword _ =>
    have hname : (d.arena.modifyContent g (·.withName type)).Proper :=
      hd.withName (hw.kind?_group hs.2.1 hs.2.2) (by nofun) fun _ => hword
    exact (hname.of_absorbs (wellFormed_merged hw type).2).nameSection
      ((kind?_merged hw type s).trans hs.2.1)
  | setSectionName hs hname _ =>
    exact hd.withName hs.2.1 (fun _ => hname.1) fun hne => absurd rfl hne
  | setOptionName hh hword _ => exact hd.withName hh.2.1 (by nofun) fun _ => hword
  | setListName hh hword _ => exact hd.withName hh.2.1 (by nofun) fun _ => hword
  | setOptionValue _ _ => exact hd.withValue _ _
  | setElementValue _ _ => exact hd.withValue _ _

/-- **Names stay exclusive.** -/
theorem exclusive (hw : d.arena.WellFormed) (hd : d.arena.Proper) (he : d.arena.Exclusive)
    (h : d.Accepts op r d') : d'.arena.Exclusive := by
  -- an entry was checked against everything that hangs where it is hung
  have hhang : ∀ {p : Handle} {n : Text} {c : Content}, p < d.arena.size →
      (∀ m, c.name = some m → m = n) → d.arena.Unused p n none →
      (d.arena.hang p c).Exclusive := by
    intro p n c hp hc hun
    exact he.hang hw hp fun k m _ hm _ => hc m hm ▸ hun
  have hrename : ∀ {h p : Handle} {n : Text}, d.arena.parent? h = some p →
      d.arena.Unused p n (some h) → (d.arena.modifyContent h (·.withName n)).Exclusive := by
    intro h p n hp hun
    exact he.withName hw fun q k hq _ _ => Option.some.inj (hp.symm.trans hq) ▸ hun
  cases h with
  | setPackage _ => exact he
  | addSection _ _ _ hg hun =>
    exact he.hangSection hw (hw.kind?_of_mem_groups (childNamed?_eq_some hg).1) hun
  | @addSectionAndGroup h type name _ _ _ hg =>
    obtain ⟨hw', hk⟩ := wellFormed_hang_group hw type
    have hgroup : (d.arena.hang 1 (.sectionType (some type) 0)).Exclusive :=
      hhang hw.one_lt_size (fun m hm => (Option.some.inj hm).symm)
        fun x hx _ => childNamed?_eq_none_iff.mp hg x hx
    refine hgroup.hangSection hw' hk fun n _ x hx => ?_
    -- the group is empty
    rw [liveChildren_hang_size hw.one_lt_size] at hx
    cases hx
  | addOption hp _ hun => exact hhang hp.lt_size (fun m hm => (Option.some.inj hm).symm) hun
  | addList hp _ hun => exact hhang hp.lt_size (fun m hm => (Option.some.inj hm).symm) hun
  | addElement hp => exact he.hang hw hp.lt_size (by nofun)
  | remove _ _ _ => exact he.detach _
  | @setSectionType s g type hs _ hm =>
    have hkg := hw.kind?_group hs.2.1 hs.2.2
    have hglive : d.isLive g = true := (hw.isLive_of_parent hs.2.2).symm.trans hs.1
    refine (he.retype hw (mem_groups_of_isLive hw hglive hkg) hd type ?_).nameSection
      (wellFormed_merged hw type).1 ((kind?_merged hw type s).trans hs.2.1)
    intro other hchild hne u hu v hv n hn hnu
    exact checkMerge_eq_ok_iff.mp (hm other hchild hne) u hu n hnu hn v hv nofun
  | setSectionName hs _ hun => exact hrename hs.2.2 hun
  | setOptionName hh _ hun => exact hrename hh.2.2 hun
  | setListName hh _ hun => exact hrename hh.2.2 hun
  | setOptionValue _ _ => exact he.withValue _ _
  | setElementValue _ _ => exact he.withValue _ _

end Accepts

/-! ### Histories -/

theorem proper_empty : empty.arena.Proper := by
  intro h c hc
  rcases content?_empty hc with ⟨-, rfl⟩ | ⟨-, rfl⟩ <;> trivial

theorem exclusive_empty : empty.arena.Exclusive := by
  intro p k hk n hn x hx y hy _ _
  -- only the configuration hangs anywhere
  have hsub : ∀ z ∈ empty.arena.liveChildren p, z = 1 := fun z hz =>
    (parent?_empty (wellFormed_empty.mem_liveChildren_iff.mp hz)).1
  rw [hsub x hx, hsub y hy]

/-- What the names of a document that was built are like. -/
theorem Built.names (hd : d.Built OnAny) :
    (∀ t ∈ d.package, Syntax.isWord t = true) ∧ d.arena.Proper ∧ d.arena.Exclusive := by
  have key : d.arena.WellFormed ∧
      (∀ t ∈ d.package, Syntax.isWord t = true) ∧ d.arena.Proper ∧ d.arena.Exclusive := by
    refine hd.induction (P := fun d => (∀ t ∈ d.package, Syntax.isWord t = true) ∧
      d.arena.Proper ∧ d.arena.Exclusive) ⟨by nofun, proper_empty, exclusive_empty⟩ ?_
    intro d op r d' hw hP _ hacc
    obtain ⟨hpackage, hproper, hexclusive⟩ := hP
    refine ⟨?_, hacc.proper hw hproper, hacc.exclusive hw hproper hexclusive⟩
    cases hacc with
    | setPackage hword => exact hword
    | _ => exact hpackage
  exact key.2

/-- **Names in order**: words where no quotes are written, and different names where one name has
to tell a node from others. -/
structure NamesInOrder (d : Document) : Prop where
  package : ∀ t ∈ d.package, Syntax.isWord t = true
  /-- The type of a live group is a word. -/
  type_word : ∀ g, d.isLive g = true → d.arena.kind? g = some .sectionType →
    ∃ t, d.arena.name? g = some t ∧ Syntax.isWord t = true
  /-- The name of a live option is a word. -/
  option_word : ∀ o, d.isLive o = true → d.arena.kind? o = some .option →
    ∃ n, d.optionName o = .ok n ∧ Syntax.isWord n = true
  /-- The name of a live list is a word. -/
  list_word : ∀ l, d.isLive l = true → d.arena.kind? l = some .list →
    ∃ n, d.listName l = .ok n ∧ Syntax.isWord n = true
  /-- A live section has a name, which looks generated or is one that may be given. -/
  section_name : ∀ s, d.isLive s = true → d.arena.kind? s = some .section →
    ∃ n, d.sectionName s = .ok n ∧ (n.head? = some '@' ∨ IsGivenName n)
  /-- No two live groups are of the same type. -/
  types_apart : ∀ g g' t, d.isLive g = true → d.arena.kind? g = some .sectionType →
    d.isLive g' = true → d.arena.kind? g' = some .sectionType →
    d.arena.name? g = some t → d.arena.name? g' = some t → g = g'
  /-- No two live entries of a section, options or lists, have the same name. -/
  entries_apart : ∀ s, d.isLive s = true → d.arena.kind? s = some .section →
    ∀ x ∈ d.arena.liveChildren s, ∀ y ∈ d.arena.liveChildren s, ∀ n,
      d.arena.name? x = some n → d.arena.name? y = some n → x = y
  /-- No two live sections of a type have the same name, if it was given. -/
  given_apart : ∀ s s' t n, d.isLive s = true → d.arena.kind? s = some .section →
    d.isLive s' = true → d.arena.kind? s' = some .section →
    d.sectionType s = .ok t → d.sectionType s' = .ok t →
    d.sectionName s = .ok n → d.sectionName s' = .ok n → n.head? ≠ some '@' → s = s'

/-- **Names are in order in every document**, whatever handles the operations named. -/
theorem namesInOrder_of_reachable (hd : d.Reachable OnAny) : d.NamesInOrder := by
  have hb := hd.built fun _ _ _ => trivial
  have hw := hb.wellFormed
  obtain ⟨hpackage, hproper, hexclusive⟩ := hb.names
  have htypes : d.arena.Apart 1 fun _ => True := hexclusive 1 _ hw.kind_config
  refine
    { package := hpackage
      type_word := fun g _ hk => hproper.exists_word (Or.inl hk)
      option_word := fun o hlive hk => ?_
      list_word := fun l hlive hk => ?_
      section_name := fun s hlive hk => ?_
      types_apart := fun g g' t hg hk hg' hk' hn hn' => ?_
      entries_apart := fun s _ hk x hx y hy n hnx hny =>
        hexclusive s _ hk n trivial x hx y hy hnx hny
      given_apart := fun s s' t n hlive hk hlive' hk' ht ht' hn hn' hgiven => ?_ }
  · obtain ⟨n, hn, hword⟩ := hproper.exists_word (Or.inr (Or.inl hk))
    exact ⟨n, (optionName_of_live hlive hk n).mpr hn, hword⟩
  · obtain ⟨n, hn, hword⟩ := hproper.exists_word (Or.inr (Or.inr hk))
    exact ⟨n, (listName_of_live hlive hk n).mpr hn, hword⟩
  · obtain ⟨n, hn, hne⟩ := hproper.exists_sectionName hk
    refine ⟨n, (sectionName_of_live hlive hk n).mpr hn, ?_⟩
    by_cases hat : n.head? = some '@'
    · exact Or.inl hat
    · exact Or.inr ⟨hne, hat⟩
  · exact htypes t trivial g (mem_groups_of_isLive hw hg hk) g' (mem_groups_of_isLive hw hg' hk')
      hn hn'
  · obtain ⟨q, hq, hsq⟩ := exists_group_of_isLive hw hlive hk
    obtain ⟨q', hq', hsq'⟩ := exists_group_of_isLive hw hlive' hk'
    rw [sectionType_of_live hw hlive hk (hw.mem_liveChildren_iff.mp hsq)] at ht
    rw [sectionType_of_live hw hlive' hk' (hw.mem_liveChildren_iff.mp hsq')] at ht'
    rw [sectionName_of_live hlive hk] at hn
    rw [sectionName_of_live hlive' hk'] at hn'
    -- two sections of a type hang below the same group
    have hqq : q = q' := htypes t trivial q hq q' hq' ht ht'
    rw [← hqq] at hsq'
    exact hexclusive q _ (hw.kind?_of_mem_groups hq) n hgiven s hsq s' hsq' hn hn'

/-- The name of a removed section is given again, an option is hung right below a group, and that
group is made one with another. -/
theorem namesInOrder_after_reuse :
    let d := empty.play [.setPackage (some "p".toList), .addSection 0 "a".toList (some "x".toList),
      .addOption 3 "o".toList [], .remove 3, .addSection 0 "a".toList (some "x".toList),
      .addOption 2 "o".toList [], .addSection 0 "b".toList none, .setSectionType 8 "a".toList]
    d.Reachable OnAny ∧ d.NamesInOrder := by
  intro d
  have hd : d.Reachable OnAny := Reachable.play .empty
    ⟨trivial, trivial, trivial, trivial, trivial, trivial, trivial, trivial, trivial⟩
  exact ⟨hd, namesInOrder_of_reachable hd⟩

end Document
end Uci
