import Uci.Document.Replay
import Uci.Proofs.Document.Operation
import Uci.Proofs.Arena.Numbering

/-!
# Histories

A document is reached from the empty one, or from a text that was read, by any number
of operations, accepted or refused.  Reading a text is itself a sequence of operations,
so that whatever every accepted operation keeps holds of every document reached.

## Main definitions

* `Document.Reachable` — the documents reached by operations that are allowed; allowed
  may be all of them, or those on issued handles only (`Document.OnIssued`).
* `Document.Built` — the documents reached without reading a text.
* `Arena.Tidy` — below a type group hang sections only, and every node carries all that
  its kind carries.

## Main results

* `Accepts.wellFormed`, `Accepts.tidy` — every accepted operation keeps the shape.
* `openSection_cases` — what a header opens.
* `replayed_of_parse` — **reading is a sequence of edits**.
* `Built.induction` — what every accepted operation keeps holds of every document.
* `arena_of_reachable` — the shape of the arena of every document.
-/

namespace Uci

/-- **Complete content**: everything that the kind has a place for was given. -/
def Content.Complete : Content → Prop
  | .root | .config => True
  | .sectionType n _ | .section n | .list n => n.isSome = true
  | .option n v => n.isSome = true ∧ v.isSome = true
  | .element v => v.isSome = true

namespace Content

variable {c : Content}

theorem Complete.withName (hc : c.Complete) (n : Text) : (c.withName n).Complete := by
  cases c with
  | option m v => exact ⟨rfl, hc.2⟩
  | _ => first | exact hc | rfl

theorem Complete.withValue (hc : c.Complete) (v : Text) : (c.withValue v).Complete := by
  cases c with
  | option n w => exact ⟨hc.1, rfl⟩
  | _ => first | exact hc | rfl

theorem Complete.withCounter (hc : c.Complete) (k : Nat) : (c.withCounter k).Complete := by
  cases c <;> exact hc

end Content

namespace Arena

variable {a b : Arena} {g h k p s t : Handle} {c : Content}

/-- **Tidy arena**: one that came about by operations on issued handles. -/
structure Tidy (a : Arena) : Prop where
  /-- Below a type group hang sections only. -/
  kind_section : ∀ s g, a.parent? s = some g → a.kind? g = some .sectionType →
    a.kind? s = some .section
  /-- Every node carries all that its kind carries. -/
  complete : ∀ h c, a.content? h = some c → c.Complete

theorem tidy_empty : Document.empty.arena.Tidy where
  kind_section s g _ hk := by
    -- neither of the two nodes is a group
    rcases kind?_empty hk with ⟨-, hn⟩ | ⟨-, hn⟩ <;> cases hn
  complete h c hc := by
    rcases content?_empty hc with ⟨-, rfl⟩ | ⟨-, rfl⟩ <;> trivial

namespace Tidy

variable (ht : a.Tidy)
include ht

theorem modifyContent {f : Content → Content} (hk : ∀ c, (f c).kind = c.kind)
    (hf : ∀ c, c.Complete → (f c).Complete) (h : Handle) : (a.modifyContent h f).Tidy where
  kind_section s g := by
    rw [parent?_modifyContent, kind?_modifyContent hk, kind?_modifyContent hk]
    exact ht.kind_section s g
  complete x c hc := by
    rw [content?_modifyContent] at hc
    split at hc
    · obtain ⟨c', hc', rfl⟩ := Option.map_eq_some_iff.mp hc
      exact hf c' (ht.complete x c' hc')
    · exact ht.complete x c hc

theorem detach (h : Handle) : (a.detach h).Tidy where
  kind_section s g hp hk := by
    rw [parent?_detach] at hp
    rw [kind?_detach] at hk ⊢
    split at hp
    · cases hp
    · exact ht.kind_section s g hp hk
  complete x c hc := by
    rw [content?_detach] at hc
    exact ht.complete x c hc

/-- Below a group only a section may come in. -/
theorem hang (hw : a.WellFormed) (hp : p < a.size)
    (hk : a.kind? p = some .sectionType → c.kind = .section) (hc : c.Complete) :
    (a.hang p c).Tidy where
  kind_section s g hs hg := by
    rw [parent?_hang hp] at hs
    rw [kind?_hang hp] at hg ⊢
    split at hs
    · next hnew =>
      cases hs
      -- the parent is older than the new node, so it is a group that was there
      rw [if_neg (Nat.ne_of_lt hp)] at hg
      rw [if_pos hnew, hk hg]
    · next hold =>
      rw [if_neg (Nat.ne_of_lt (hw.parent_lt_size hs))] at hg
      rw [if_neg hold]
      exact ht.kind_section s g hs hg
  complete x d hd := by
    rw [content?_hang hp] at hd
    split at hd
    · cases hd
      exact hc
    · exact ht.complete x d hd

theorem hangSection (hw : a.WellFormed) (hg : g < a.size) (type : Text) (name : Option Text) :
    (a.hangSection g type name).Tidy := by
  cases name with
  | some n => exact ht.hang hw hg (fun _ => rfl) rfl
  | none =>
    have hbump := ht.modifyContent (Content.kind_withCounter (a.counter g + 1))
      (fun _ hc => hc.withCounter _) g
    exact hbump.hang (hw.modifyContent (Content.kind_withCounter _) g)
      (by rwa [size_modifyContent]) (fun _ => rfl) rfl

theorem absorb (h : Absorbs a b) : b.Tidy := by
  obtain ⟨t, g, hkt, hkg, htg, rfl⟩ := h
  have hgt : g ≠ t := Nat.ne_of_gt htg
  refine ⟨?_, ?_⟩
  · intro x q hp hk
    rw [parent?_absorb hgt] at hp
    rw [kind?_absorb] at hk ⊢
    split at hp
    · cases hp
    · split at hp
      · next hx => exact ht.kind_section x g hx.2 hkg
      · exact ht.kind_section x q hp hk
  · intro x c hc
    rw [content?_absorb] at hc
    split at hc
    · obtain ⟨c', hc', rfl⟩ := Option.map_eq_some_iff.mp hc
      exact (ht.complete x c' hc').withCounter _
    · exact ht.complete x c hc

theorem of_absorbs (h : Relation.ReflTransGen Absorbs a b) : b.Tidy := by
  induction h with
  | refl => exact ht
  | tail _ hstep ih => exact ih.absorb hstep

theorem mergeGroups (hw : a.WellFormed) : (a.mergeGroups 1).Tidy :=
  ht.of_absorbs hw.mergeGroups_absorbs

theorem nameSection (s : Handle) : (a.nameSection s).Tidy := by
  rcases a.nameSection_eq_self_or s with heq | ⟨g, type, -, -, -, heq⟩ <;> rw [heq]
  · exact ht
  · exact (ht.modifyContent (Content.kind_withCounter _) (fun _ hc => hc.withCounter _)
      _).modifyContent (Content.kind_withName _) (fun _ hc => hc.withName _) _

/-- An option has a name and a value. -/
theorem content?_option (hk : a.kind? h = some .option) :
    ∃ n v, a.content? h = some (.option (some n) (some v)) := by
  obtain ⟨c, hc, hkind⟩ := kind?_eq_some_iff.mp hk
  have hcomplete := ht.complete h c hc
  cases c with
  | option n v =>
    obtain ⟨n, rfl⟩ := Option.isSome_iff_exists.mp hcomplete.1
    obtain ⟨v, rfl⟩ := Option.isSome_iff_exists.mp hcomplete.2
    exact ⟨n, v, hc⟩
  | _ => cases hkind

/-- A list has a name. -/
theorem content?_list (hk : a.kind? h = some .list) :
    ∃ n, a.content? h = some (.list (some n)) := by
  obtain ⟨c, hc, hkind⟩ := kind?_eq_some_iff.mp hk
  have hcomplete := ht.complete h c hc
  cases c with
  | list n =>
    obtain ⟨n, rfl⟩ := Option.isSome_iff_exists.mp hcomplete
    exact ⟨n, hc⟩
  | _ => cases hkind

/-- An element has a value. -/
theorem content?_element (hk : a.kind? h = some .element) :
    ∃ v, a.content? h = some (.element (some v)) := by
  obtain ⟨c, hc, hkind⟩ := kind?_eq_some_iff.mp hk
  have hcomplete := ht.complete h c hc
  cases c with
  | element v =>
    obtain ⟨v, rfl⟩ := Option.isSome_iff_exists.mp hcomplete
    exact ⟨v, hc⟩
  | _ => cases hkind

end Tidy

/-! ### Kinds stay -/

theorem kind?_of_absorbs (h : Relation.ReflTransGen Absorbs a b) (k : Handle) :
    b.kind? k = a.kind? k := by
  induction h with
  | refl => rfl
  | tail _ hstep ih =>
    obtain ⟨t, g, -, -, -, rfl⟩ := hstep
    rw [kind?_absorb, ih]

end Arena

/-- The node that an option or a list is added to. -/
def Operation.entryHost? : Operation → Option Handle
  | .addOption p _ _ | .addList p _ => some p
  | _ => none

theorem Operation.target?_of_entryHost? {op : Operation} {p : Handle}
    (h : op.entryHost? = some p) : op.target? = some p := by
  cases op <;> first | exact h | cases h

namespace Document

variable {d d' : Document} {op : Operation} {r : Option Handle}

/-! ### What every accepted operation keeps -/

theorem Hosts.lt_size {p : Handle} {k : NodeKind} (hp : d.Hosts p k) : p < d.arena.size := by
  obtain ⟨-, kp, hkp, -⟩ := hp
  exact Arena.lt_size_of_kind? hkp

/-- The group that comes in with the first section of its type. -/
theorem wellFormed_hang_group (hw : d.arena.WellFormed) (type : Text) :
    (d.arena.hang 1 (.sectionType (some type) 0)).WellFormed ∧
      (d.arena.hang 1 (.sectionType (some type) 0)).kind? d.arena.size = some .sectionType := by
  refine ⟨hw.hang hw.one_lt_size hw.kind_config rfl (by nofun), ?_⟩
  rw [Arena.kind?_hang hw.one_lt_size, if_pos rfl]
  rfl

/-- The groups are made one before the section itself is named. -/
theorem wellFormed_merged {g : Handle} (hw : d.arena.WellFormed) (type : Text) :
    ((d.arena.modifyContent g (·.withName type)).mergeGroups 1).WellFormed ∧
      Relation.ReflTransGen Arena.Absorbs (d.arena.modifyContent g (·.withName type))
        ((d.arena.modifyContent g (·.withName type)).mergeGroups 1) := by
  have hw' := hw.modifyContent (Content.kind_withName type) g
  exact ⟨hw'.mergeGroups, hw'.mergeGroups_absorbs⟩

theorem kind?_merged {g : Handle} (hw : d.arena.WellFormed) (type : Text) (x : Handle) :
    ((d.arena.modifyContent g (·.withName type)).mergeGroups 1).kind? x = d.arena.kind? x := by
  rw [Arena.kind?_of_absorbs (wellFormed_merged hw type).2,
    Arena.kind?_modifyContent (Content.kind_withName _)]

/-- A new node may not be a second root or configuration. -/
private theorem Hosts.hang (hw : d.arena.WellFormed) {p : Handle} {c : Content}
    (hp : d.Hosts p c.kind) (hc : c.kind ≠ .config) : (d.arena.hang p c).WellFormed := by
  obtain ⟨-, kp, hkp, hold⟩ := hp
  exact hw.hang (Arena.lt_size_of_kind? hkp) hkp hold hc

namespace Accepts

/-- **Every accepted operation keeps the shape of the arena.** -/
theorem wellFormed (hw : d.arena.WellFormed) (h : d.Accepts op r d') : d'.arena.WellFormed := by
  cases h with
  | setPackage _ => exact hw
  | addSection _ _ _ hg _ =>
    exact hw.hangSection (hw.kind?_of_mem_groups (Arena.childNamed?_eq_some hg).1) _ _
  | @addSectionAndGroup h type name _ _ _ _ =>
    obtain ⟨hgroup, hk⟩ := wellFormed_hang_group hw type
    exact hgroup.hangSection hk _ _
  | addOption hp _ _ => exact Hosts.hang hw hp (by nofun)
  | addList hp _ _ => exact Hosts.hang hw hp (by nofun)
  | addElement hp => exact Hosts.hang hw hp (by nofun)
  | @remove h k hk _ hconfig =>
    exact hw.detach (Arena.ne_of_kind? hk hw.kind_config hconfig)
  | setSectionType _ _ _ =>
    exact (wellFormed_merged hw _).1.nameSection _
  | setSectionName _ _ _ => exact hw.modifyContent (Content.kind_withName _) _
  | setOptionName _ _ _ => exact hw.modifyContent (Content.kind_withName _) _
  | setListName _ _ _ => exact hw.modifyContent (Content.kind_withName _) _
  | setOptionValue _ _ => exact hw.modifyContent (Content.kind_withValue _) _
  | setElementValue _ _ => exact hw.modifyContent (Content.kind_withValue _) _

/-- **An accepted operation keeps the arena tidy**, unless it adds an entry to a group. -/
theorem tidy_of_entryHost (hw : d.arena.WellFormed) (ht : d.arena.Tidy)
    (hop : ∀ p ∈ op.entryHost?, d.arena.kind? p ≠ some .sectionType)
    (h : d.Accepts op r d') : d'.arena.Tidy := by
  cases h with
  | setPackage _ => exact ht
  | addSection _ _ _ hg _ => exact ht.hangSection hw (hw.lt_size_of_childNamed? hg) _ _
  | @addSectionAndGroup h type name _ _ _ _ =>
    have hgroup := ht.hang (c := .sectionType (some type) 0) hw hw.one_lt_size
      (fun hk => by rw [hw.kind_config] at hk; cases hk) rfl
    obtain ⟨hwgroup, hk⟩ := wellFormed_hang_group hw type
    exact hgroup.hangSection hwgroup (Arena.lt_size_of_kind? hk) _ _
  | addOption hp _ _ => exact ht.hang hw hp.lt_size (fun hk => absurd hk (hop _ rfl)) ⟨rfl, rfl⟩
  | addList hp _ _ => exact ht.hang hw hp.lt_size (fun hk => absurd hk (hop _ rfl)) rfl
  | addElement hp =>
    refine ht.hang hw hp.lt_size (fun hk => ?_) rfl
    -- elements hang below lists only
    obtain ⟨-, kp, hkp, hold⟩ := hp
    rw [hk] at hkp
    cases hkp
    cases hold
  | remove _ _ _ => exact ht.detach _
  | @setSectionType s g type _ _ _ =>
    have hname := ht.modifyContent (Content.kind_withName type) (fun _ hc => hc.withName _) g
    exact (hname.mergeGroups (hw.modifyContent (Content.kind_withName _) _)).nameSection _
  | setSectionName _ _ _ =>
    exact ht.modifyContent (Content.kind_withName _) (fun _ hc => hc.withName _) _
  | setOptionName _ _ _ =>
    exact ht.modifyContent (Content.kind_withName _) (fun _ hc => hc.withName _) _
  | setListName _ _ _ =>
    exact ht.modifyContent (Content.kind_withName _) (fun _ hc => hc.withName _) _
  | setOptionValue _ _ =>
    exact ht.modifyContent (Content.kind_withValue _) (fun _ hc => hc.withValue _) _
  | setElementValue _ _ =>
    exact ht.modifyContent (Content.kind_withValue _) (fun _ hc => hc.withValue _) _

/-- **An accepted operation on an issued handle keeps the arena tidy.** -/
theorem tidy (hw : d.arena.WellFormed) (ht : d.arena.Tidy) (hop : ∀ h ∈ op.target?, d.Issued h)
    (h : d.Accepts op r d') : d'.arena.Tidy := by
  refine h.tidy_of_entryHost hw ht fun p hp hk => ?_
  -- what hosts an entry is no group, since the handle was issued
  obtain ⟨k, hk', hne⟩ := hop p (Operation.target?_of_entryHost? hp)
  rw [hk] at hk'
  exact hne (Option.some.inj hk').symm

/-- **A node keeps its kind**, whatever happens to it. -/
theorem kind? (hw : d.arena.WellFormed) (h : d.Accepts op r d') {x : Handle} {k : NodeKind}
    (hx : d.arena.kind? x = some k) : d'.arena.kind? x = some k := by
  -- a node that is there is none of those that come in
  have hne : x ≠ d.arena.size := Nat.ne_of_lt (Arena.lt_size_of_kind? hx)
  have hhang : ∀ {p : Handle} {k' : NodeKind} {c : Content}, d.Hosts p k' →
      (d.arena.hang p c).kind? x = some k := by
    intro p k' c hp
    rw [Arena.kind?_hang hp.lt_size, if_neg hne, hx]
  cases h with
  | setPackage _ => exact hx
  | @addSection h g type name _ _ _ hg _ =>
    show (d.arena.hangSection g type name).kind? x = some k
    rw [Arena.kind?_hangSection (hw.lt_size_of_childNamed? hg), if_neg hne, hx]
  | @addSectionAndGroup h type name _ _ _ _ =>
    show ((d.arena.hang 1 (.sectionType (some type) 0)).hangSection d.arena.size type name).kind? x
      = some k
    have hne' : x ≠ d.arena.size + 1 :=
      Nat.ne_of_lt (Nat.lt_succ_of_lt (Arena.lt_size_of_kind? hx))
    rw [Arena.kind?_hangSection (Arena.lt_size_of_kind? (wellFormed_hang_group hw type).2),
      Arena.size_hang, if_neg hne', Arena.kind?_hang hw.one_lt_size, if_neg hne, hx]
  | addOption hp _ _ => exact hhang hp
  | addList hp _ _ => exact hhang hp
  | addElement hp => exact hhang hp
  | remove _ _ _ => exact (Arena.kind?_detach _ _ _).trans hx
  | @setSectionType s g type _ _ _ =>
    show ((d.arena.modifyContent g (·.withName type)).mergeGroups 1 |>.nameSection s).kind? x = _
    rw [Arena.kind?_nameSection, kind?_merged hw, hx]
  | setSectionName _ _ _ =>
    exact (Arena.kind?_modifyContent (Content.kind_withName _) _ _ _).trans hx
  | setOptionName _ _ _ =>
    exact (Arena.kind?_modifyContent (Content.kind_withName _) _ _ _).trans hx
  | setListName _ _ _ =>
    exact (Arena.kind?_modifyContent (Content.kind_withName _) _ _ _).trans hx
  | setOptionValue _ _ =>
    exact (Arena.kind?_modifyContent (Content.kind_withValue _) _ _ _).trans hx
  | setElementValue _ _ =>
    exact (Arena.kind?_modifyContent (Content.kind_withValue _) _ _ _).trans hx

end Accepts

/-! ### Documents that are reached -/

/-- The operation may name any handle at all: live, removed, never issued or a group. -/
def OnAny (_ : Document) (_ : Operation) : Prop := True

/-- **The operation names no handle but issued ones.** -/
def OnIssued (d : Document) (op : Operation) : Prop := ∀ h ∈ op.target?, d.Issued h

instance (d : Document) (h : Handle) : Decidable (d.Issued h) :=
  decidable_of_iff ((d.arena.kind? h).any (· ≠ .sectionType) = true) (by
    simp [Issued, Option.any_eq_true])

instance (d : Document) (op : Operation) : Decidable (d.OnIssued op) :=
  decidable_of_iff (op.target?.all (fun h => d.Issued h) = true) (by
    simp [OnIssued, Option.all_eq_true])

/-- **Reachable document**: from the empty one or a text that was read, by any number of
operations that are allowed. -/
inductive Reachable (allowed : Document → Operation → Prop) : Document → Prop
  | empty : Reachable allowed .empty
  | parsed {source : Text} {d : Document} : parse source = .ok d → Reachable allowed d
  | edited {d : Document} (op : Operation) :
    Reachable allowed d → allowed d op → Reachable allowed (op.after d)

/-- **Built document**: reached without reading a text. -/
inductive Built (allowed : Document → Operation → Prop) : Document → Prop
  | empty : Built allowed .empty
  | edited {d : Document} (op : Operation) :
    Built allowed d → allowed d op → Built allowed (op.after d)

variable {allowed : Document → Operation → Prop}

/-- **Induction over histories.**  What holds of the empty document, and is kept by every
accepted operation that is allowed, holds of every document that was built; the shape of
the arena comes for free. -/
theorem Built.induction {P : Document → Prop} (hempty : P .empty)
    (hstep : ∀ {d op r d'}, d.arena.WellFormed → P d → allowed d op → d.Accepts op r d' → P d')
    (hd : d.Built allowed) : d.arena.WellFormed ∧ P d := by
  induction hd with
  | empty => exact ⟨Arena.wellFormed_empty, hempty⟩
  | @edited d op _ hop ih =>
    obtain ⟨hw, hP⟩ := ih
    rcases Operation.after_cases hw op with hsame | ⟨r, hacc⟩
    · rw [hsame]
      exact ⟨hw, hP⟩
    · exact ⟨hacc.wellFormed hw, hstep hw hP hop hacc⟩

theorem Built.wellFormed (hd : d.Built allowed) : d.arena.WellFormed :=
  (hd.induction (P := fun _ => True) trivial fun _ _ _ _ => trivial).1

theorem Built.tidy (hallowed : ∀ d op, allowed d op → d.OnIssued op) (hd : d.Built allowed) :
    d.arena.Tidy :=
  (hd.induction (P := fun d => d.arena.Tidy) Arena.tidy_empty fun hw ht hop hacc =>
    hacc.tidy hw ht (hallowed _ _ hop)).2

theorem Built.mono {allowed' : Document → Operation → Prop}
    (h : ∀ d op, allowed d op → allowed' d op) (hd : d.Built allowed) : d.Built allowed' := by
  induction hd with
  | empty => exact .empty
  | edited op _ hop ih => exact .edited op ih (h _ _ hop)

/-! ### Reading is a sequence of edits

What a text says is replayed through operations that add, and that give an option
another value; none of them changes the type of a section. -/

end Document

/-- The operation gives a section another type. -/
def Operation.retypes : Operation → Bool
  | .setSectionType _ _ => true
  | _ => false

/-- The operation names the package, adds something, or gives an option another value. -/
def Operation.replays : Operation → Bool
  | .setPackage _ | .addSection _ _ _ | .addOption _ _ _ | .addList _ _ | .addElement _ _
  | .setOptionValue _ _ => true
  | _ => false

theorem Operation.retypes_of_replays {op : Operation} (h : op.replays = true) :
    op.retypes = false := by
  cases op with
  | setSectionType _ _ => cases h
  | _ => rfl

namespace Document

/-- Operations as reading makes them, and others that leave the types of sections alone. -/
def OnReading (d : Document) (op : Operation) : Prop := d.OnIssued op ∧ op.retypes = false

/-- Operations as reading makes them, and no others. -/
def OnReplay (d : Document) (op : Operation) : Prop := d.OnIssued op ∧ op.replays = true

theorem OnReplay.onReading {d : Document} {op : Operation} (h : d.OnReplay op) : d.OnReading op :=
  ⟨h.1, Operation.retypes_of_replays h.2⟩

open Syntax (Value Entry Section Item)

variable {allowed : Document → Operation → Prop} {d d' : Document} {r : Option Handle} {s : Handle}

theorem accept_eq_ok_iff {α : Type} {v : Value} {e : Edit α} {x : α × Document} :
    accept v e d = .ok x ↔ e.run d = (.ok x.1, x.2) := by
  obtain ⟨a, d'⟩ := x
  unfold accept
  rcases hrun : Edit.run e d with ⟨_ | b, d₁⟩
  · simp
  · simp [Prod.ext_iff]

/-- What is accepted for a value is the same edit without one. -/
theorem run_map_of_accept {α β : Type} {v : Value} {e : Edit α} {a : α} (f : α → β)
    (h : accept v e d = .ok (a, d')) : (f <$> e).run d = (.ok (f a), d') := by
  rw [Edit.run_map, accept_eq_ok_iff.mp h]
  rfl

/-- An edit that succeeds in a replay is an accepted operation. -/
theorem accepts_of_accept (hw : d.arena.WellFormed) (op : Operation) {α : Type} {e : Edit α}
    {f : α → Option Handle} (hop : op.edit = f <$> e) {blame : Value} {a : α}
    (h : accept blame e d = .ok (a, d')) : d.Accepts op (f a) d' :=
  (Operation.run_eq_ok_iff hw).mp (hop ▸ run_map_of_accept f h)

/-- **What a header opens**: a section that is there under its name, or a new one. -/
theorem openSection_cases (hw : d.arena.WellFormed) {type : Value} {name : Option Value}
    (h : openSection type name d = .ok (s, d')) :
    (∃ v, name = some v ∧ d.sectionToReopen? type.text (some v) = some s ∧ d' = d) ∨
      d.sectionToReopen? type.text name = none ∧
        d.Accepts (.addSection root type.text (name.map Value.text)) (some s) d' := by
  unfold openSection at h
  cases hreopen : d.sectionToReopen? type.text name with
  | some s' =>
    rw [hreopen] at h
    cases h
    cases name with
    | none => cases hreopen
    | some v => exact Or.inl ⟨v, rfl, hreopen, rfl⟩
  | none =>
    rw [hreopen] at h
    exact Or.inr ⟨rfl, accepts_of_accept hw _ rfl h⟩

theorem Built.onIssued_root (hd : d.Built allowed) : d.Issued root :=
  ⟨.root, hd.wellFormed.kind_root, by nofun⟩

/-- A document in the course of reading, with the section that the lines go to. -/
def Reading (d : Document) (s : Handle) : Prop := d.Built OnReplay ∧ d.Issued s

/-- One accepted edit of a reading. -/
theorem Reading.edit (hd : Reading d s) (op : Operation) (hop : d.OnReplay op)
    (hrun : op.edit.run d = (.ok r, d')) : Reading d' s ∧ d.Accepts op r d' := by
  have hw := hd.1.wellFormed
  have hacc := (Operation.run_eq_ok_iff hw).mp hrun
  have hafter : op.after d = d' := congrArg Prod.snd hrun
  -- the section keeps its kind, so it is still an issued handle
  obtain ⟨k, hk, hne⟩ := hd.2
  exact ⟨⟨hafter ▸ hd.1.edited op hop, k, hacc.kind? hw hk, hne⟩, hacc⟩

/-- A section that is opened again is one, since below a group hang sections only. -/
private theorem issued_of_sectionToReopen? (hd : d.Built OnReplay) {type : Text}
    {name : Option Value} (hs : d.sectionToReopen? type name = some s) : d.Issued s := by
  have hw := hd.wellFormed
  have ht : d.arena.Tidy := hd.tidy fun _ _ h => h.1
  unfold sectionToReopen? at hs
  cases name with
  | none => cases hs
  | some v =>
    rw [configuration_eq hw] at hs
    change ((d.arena.childNamed? 1 type).bind fun g => d.arena.childNamed? g v.text) = some s at hs
    obtain ⟨g, hg, hs⟩ := Option.bind_eq_some_iff.mp hs
    have hk := hw.kind?_of_mem_groups (Arena.childNamed?_eq_some hg).1
    have hp := hw.mem_liveChildren_iff.mp (Arena.childNamed?_eq_some hs).1
    exact ⟨.section, ht.kind_section s g hp hk, by nofun⟩

theorem reading_openSection (hd : d.Built OnReplay) {type : Value} {name : Option Value}
    (h : openSection type name d = .ok (s, d')) : Reading d' s := by
  have hw := hd.wellFormed
  rcases openSection_cases hw h with ⟨v, rfl, hs, rfl⟩ | ⟨-, hacc⟩
  · exact ⟨hd, issued_of_sectionToReopen? hd hs⟩
  · obtain ⟨hd', -⟩ := Reading.edit ⟨hd, hd.onIssued_root⟩ _
      ⟨fun x hx => by cases hx; exact hd.onIssued_root, rfl⟩ ((Operation.run_eq_ok_iff hw).mpr hacc)
    refine ⟨hd'.1, .section, ?_, by nofun⟩
    -- the answer is the new section, and not the group that may have come in with it
    cases hacc with
    | addSection _ _ _ hg _ =>
      show (Arena.hangSection _ _ _ _).kind? _ = _
      rw [Arena.kind?_hangSection (hw.lt_size_of_childNamed? hg)]
      exact if_pos rfl
    | addSectionAndGroup _ _ _ _ =>
      show (Arena.hangSection _ _ _ _).kind? _ = _
      rw [Arena.kind?_hangSection (Arena.lt_size_of_kind? (wellFormed_hang_group hw _).2),
        Arena.size_hang]
      exact if_pos rfl

/-- An entry that is there is an option or a list, and in either case was issued. -/
private theorem issued_of_entryOf? {name : Text} {h : Handle} {k : NodeKind}
    (he : d.entryOf? s name = some (h, k)) : d.arena.kind? h = some k := by
  unfold entryOf? at he
  obtain ⟨x, -, hx⟩ := Option.bind_eq_some_iff.mp he
  obtain ⟨n, hn, hpair⟩ := Option.bind_eq_some_iff.mp hx
  cases hpair
  exact Arena.kind?_of_get? hn

theorem reading_replayOption (hd : Reading d s) {name value : Value}
    (h : replayOption s name value d = .ok d') : Reading d' s := by
  unfold replayOption at h
  split at h
  · next o ho =>
    obtain ⟨⟨⟨⟩, d₁⟩, hacc, rfl⟩ := map_eq_ok_iff.mp h
    have hissued : d.Issued o := ⟨.option, issued_of_entryOf? ho, by nofun⟩
    refine (hd.edit (.setOptionValue o value.text) (r := none) ⟨?_, rfl⟩
      (run_map_of_accept _ hacc)).1
    intro x hx
    cases hx
    exact hissued
  · cases h
  · obtain ⟨⟨o, d₁⟩, hacc, rfl⟩ := map_eq_ok_iff.mp h
    refine (hd.edit (.addOption s name.text value.text) (r := some o) ⟨?_, rfl⟩
      (run_map_of_accept _ hacc)).1
    intro x hx
    cases hx
    exact hd.2

/-- A list that is opened, old or new, is a list. -/
private theorem reading_openList (hd : Reading d s) {name : Value} {l : Handle}
    (h : openList s name d = .ok (l, d')) : Reading d' s ∧ d'.arena.kind? l = some .list := by
  unfold openList at h
  split at h
  · next o ho =>
    cases h
    exact ⟨hd, issued_of_entryOf? ho⟩
  · cases h
  · have hrun : (Operation.addList s name.text).edit.run d = (.ok (some l), d') :=
      run_map_of_accept some h
    obtain ⟨hd', hacc⟩ := hd.edit _ ⟨fun x hx => by cases hx; exact hd.2, rfl⟩ hrun
    refine ⟨hd', ?_⟩
    cases hacc with
    | addList hp _ _ =>
      obtain ⟨-, kp, hkp, -⟩ := hp
      exact (Arena.kind?_hang (Arena.lt_size_of_kind? hkp) _ _).trans (if_pos rfl)

theorem reading_replayList (hd : Reading d s) {name : Value} {value : Option Value}
    (h : replayList s name value d = .ok d') : Reading d' s := by
  unfold replayList at h
  obtain ⟨⟨l, d₁⟩, hopen, hrest⟩ := bind_eq_ok_iff.mp h
  obtain ⟨hd₁, hl⟩ := reading_openList hd hopen
  cases value with
  | none =>
    cases hrest
    exact hd₁
  | some v =>
    obtain ⟨⟨e, d₂⟩, hacc, rfl⟩ := map_eq_ok_iff.mp hrest
    refine (hd₁.edit (.addElement l v.text) (r := some e) ⟨?_, rfl⟩
      (run_map_of_accept _ hacc)).1
    intro x hx
    cases hx
    exact ⟨.list, hl, by nofun⟩

private theorem reading_replayEntry (hd : Reading d s) {entry : Entry}
    (h : replayEntry s d entry = .ok d') : Reading d' s := by
  unfold replayEntry at h
  split at h
  · exact reading_replayOption hd h
  · exact reading_replayList hd h
  · cases h
    exact hd

/-- What every step of a fold keeps, the fold keeps. -/
theorem foldlM_keeps {ε σ α : Type} {P : σ → Prop} {f : σ → α → Except ε σ}
    (hf : ∀ {x a y}, P x → f x a = .ok y → P y) :
    ∀ {l : List α} {x y : σ}, P x → l.foldlM f x = .ok y → P y
  | [], _, _, hx, h => by
    cases h
    exact hx
  | a :: l, x, y, hx, h => by
    rw [List.foldlM_cons] at h
    obtain ⟨z, hz, hrest⟩ := bind_eq_ok_iff.mp h
    exact foldlM_keeps hf (hf hx hz) hrest

private theorem built_replayItem (hd : d.Built OnReplay) {item : Item}
    (h : replayItem d item = .ok d') : d'.Built OnReplay := by
  unfold replayItem at h
  split at h
  · next name =>
    obtain ⟨⟨⟨⟩, d₁⟩, hacc, rfl⟩ := map_eq_ok_iff.mp h
    exact (Reading.edit (r := none) ⟨hd, hd.onIssued_root⟩ (.setPackage (some name.text))
      ⟨by nofun, rfl⟩ (run_map_of_accept _ hacc)).1.1
  · cases h
    exact hd
  · -- a section is opened, and its entries are edits of it
    unfold replaySection at h
    split at h
    · cases h
      exact hd
    · obtain ⟨⟨s, d₁⟩, hopen, hrest⟩ := bind_eq_ok_iff.mp h
      exact (foldlM_keeps (P := (Reading · s)) (fun hx he => reading_replayEntry hx he)
        (reading_openSection hd hopen) hrest).1

/-- **Reading is a sequence of edits.** -/
theorem replayed_of_parse {source : Text} (h : parse source = .ok d) : d.Built OnReplay := by
  unfold parse at h
  dsimp only at h
  -- a text with errors gives no document
  split at h
  · cases h
  · split at h
    · next hreplay =>
      cases h
      exact foldlM_keeps (fun hx hi => built_replayItem hx hi) .empty hreplay
    · cases h

theorem built_of_parse {source : Text} (h : parse source = .ok d) : d.Built OnReading :=
  (replayed_of_parse h).mono fun _ _ hop => hop.onReading

/-- Reading aside, a document that is reached was built. -/
theorem Reachable.built (hallowed : ∀ d op, d.OnReading op → allowed d op)
    (hd : d.Reachable allowed) : d.Built allowed := by
  induction hd with
  | empty => exact .empty
  | parsed h => exact (built_of_parse h).mono hallowed
  | edited op _ hop ih => exact .edited op ih hop

/-! ### Sequences of operations -/

/-- The document after operations, one after the other. -/
def play (d : Document) (ops : List Operation) : Document := ops.foldl (fun d op => op.after d) d

/-- Every operation of the sequence is allowed when its turn comes. -/
def Plays (allowed : Document → Operation → Prop) : Document → List Operation → Prop
  | _, [] => True
  | d, op :: ops => allowed d op ∧ Plays allowed (op.after d) ops

instance decidablePlays (d : Document) (ops : List Operation) : Decidable (d.Plays OnIssued ops) :=
  match ops with
  | [] => .isTrue trivial
  | op :: ops =>
    have := decidablePlays (op.after d) ops
    inferInstanceAs (Decidable (_ ∧ _))

theorem Reachable.play {ops : List Operation} (hd : d.Reachable allowed)
    (hops : d.Plays allowed ops) : (d.play ops).Reachable allowed := by
  induction ops generalizing d with
  | nil => exact hd
  | cons op ops ih => exact ih (.edited op hd hops.1) hops.2

/-! ### The shape of every document -/

/-- **Every document has a well-formed arena**, whatever handles the operations named: the
walk up from a node always ends, with the answer that `isLive` gives, and that answer is
whether the way down from the root over live children comes to the node. -/
theorem arena_of_reachable (hd : d.Reachable OnAny) :
    d.arena.WellFormed ∧ (∀ h b, d.arena.Climbs h b ↔ d.isLive h = b) ∧
      ∀ h, d.isLive h = true ↔ d.arena.Descends 0 h := by
  have hw : d.arena.WellFormed := (hd.built fun _ _ _ => trivial).wellFormed
  exact ⟨hw, fun _ _ => hw.climbs_iff, fun _ => hw.isLive_iff_descends⟩

/-- A group with an option right below it is removed, and so is a node that never was. -/
theorem arena_after_removal_of_group :
    let d := empty.play [.addSection 0 "rule".toList none, .addOption 2 "a".toList "1".toList,
      .remove 2, .remove 9]
    d.Reachable OnAny ∧ d.arena.WellFormed ∧ (∀ h b, d.arena.Climbs h b ↔ d.isLive h = b) ∧
      ∀ h, d.isLive h = true ↔ d.arena.Descends 0 h := by
  intro d
  have hd : d.Reachable OnAny := Reachable.play .empty ⟨trivial, trivial, trivial, trivial, trivial⟩
  exact ⟨hd, arena_of_reachable hd⟩

end Document
end Uci
