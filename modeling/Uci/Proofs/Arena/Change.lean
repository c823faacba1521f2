import Uci.Document.Naming

/-!
# What a change does to the nodes

A node is its content, its parent and its children.  For every change of an arena
this module says what each of the three becomes, at the node that is changed and
at every other one.  Nothing else about an arena is used further on, so that a
change can be rewritten without touching more than its equations here.

## Main definitions

* `Arena.content?`, `Arena.kind?` — the content and the kind of a node, if the
  arena has issued its handle.
* `Arena.hang` — a new node below an old one, which is how nodes come in.
* `Arena.hangSection` — a new section below its group, under the name it will have.

## Main results

* `nameSection_eq_self_or` — what naming a section can do.
* `nameSection_hang` — naming a section that was just hung below its group.
* `content?_…`, `parent?_…`, `children_…`, `liveChildren_…` for `modifyContent`,
  `detach`, `hang`, `moveChildren` and `absorb`.
-/

namespace Uci
namespace Content

@[simp] theorem name_withValue (v : Text) (c : Content) : (c.withValue v).name = c.name := by
  cases c <;> rfl

@[simp] theorem value_withName (n : Text) (c : Content) : (c.withName n).value = c.value := by
  cases c <;> rfl

@[simp] theorem name_withCounter (k : Nat) (c : Content) : (c.withCounter k).name = c.name := by
  cases c <;> rfl

@[simp] theorem counter_withName (n : Text) (c : Content) : (c.withName n).counter = c.counter := by
  cases c <;> rfl

@[simp] theorem counter_withValue (v : Text) (c : Content) :
    (c.withValue v).counter = c.counter := by
  cases c <;> rfl

@[simp] theorem value_withCounter (k : Nat) (c : Content) : (c.withCounter k).value = c.value := by
  cases c <;> rfl

end Content

namespace Arena

variable {a : Arena} {g h k p s : Handle} {c : Content}

/-! ### Reading a node -/

/-- The content of a node. -/
def content? (a : Arena) (h : Handle) : Option Content := (a.get? h).map Node.content

/-- The kind of a node. -/
def kind? (a : Arena) (h : Handle) : Option NodeKind := (a.content? h).map Content.kind

theorem name?_eq (a : Arena) (h : Handle) : a.name? h = (a.content? h).bind Content.name := by
  unfold name? content?
  cases a.get? h <;> rfl

theorem value?_eq (a : Arena) (h : Handle) : a.value? h = (a.content? h).bind Content.value := by
  unfold value? content?
  cases a.get? h <;> rfl

theorem counter_eq (a : Arena) (h : Handle) :
    a.counter h = ((a.content? h).map Content.counter).getD 0 := by
  unfold counter content?
  cases a.get? h <;> rfl

/-- A handle that was issued has a node, whose parts are the ones read here. -/
theorem get?_eq_some_iff {n : Node} :
    a.get? h = some n ↔
      a.content? h = some n.content ∧ a.parent? h = n.parent ∧ a.children h = n.children := by
  unfold content? parent? children
  constructor
  · intro hn
    rw [hn]
    exact ⟨rfl, rfl, rfl⟩
  · rintro ⟨hc, hp, hch⟩
    cases hn : a.get? h with
    | none => rw [hn] at hc; cases hc
    | some m =>
      rw [hn] at hc hp hch
      -- both nodes are taken apart, so that equal fields make them equal
      obtain ⟨mc, mp, mch⟩ := m
      obtain ⟨nc, np, nch⟩ := n
      simp_all

theorem kind?_of_get? {n : Node} (hn : a.get? h = some n) : a.kind? h = some n.kind := by
  rw [kind?, (get?_eq_some_iff.mp hn).1]
  rfl

theorem content?_isSome_iff : (a.content? h).isSome ↔ h < a.size := by
  simp [content?, get?, size]

theorem lt_size_of_content? (hc : a.content? h = some c) : h < a.size :=
  content?_isSome_iff.mp (by rw [hc]; rfl)

theorem exists_content? (hh : h < a.size) : ∃ c, a.content? h = some c :=
  Option.isSome_iff_exists.mp (content?_isSome_iff.mpr hh)

theorem kind?_eq_some_iff {t : NodeKind} :
    a.kind? h = some t ↔ ∃ c, a.content? h = some c ∧ c.kind = t := by
  simp [kind?]

theorem lt_size_of_kind? {t : NodeKind} (hk : a.kind? h = some t) : h < a.size := by
  obtain ⟨c, hc, -⟩ := kind?_eq_some_iff.mp hk
  exact lt_size_of_content? hc

/-- Nodes of different kinds are different. -/
theorem ne_of_kind? {t t' : NodeKind} (hh : a.kind? h = some t) (hk : a.kind? k = some t')
    (hne : t ≠ t') : h ≠ k := by
  rintro rfl
  exact hne (Option.some.inj (hh.symm.trans hk))

theorem ne_of_kind?_or {t₁ t₂ t : NodeKind} (hh : a.kind? h = some t₁ ∨ a.kind? h = some t₂)
    (hk : a.kind? k = some t) (h₁ : t₁ ≠ t) (h₂ : t₂ ≠ t) : h ≠ k := by
  rcases hh with hh | hh
  · exact ne_of_kind? hh hk h₁
  · exact ne_of_kind? hh hk h₂

theorem lt_size_of_parent? (hp : a.parent? h = some p) : h < a.size := by
  rw [← content?_isSome_iff]
  unfold parent? at hp
  unfold content?
  cases hn : a.get? h with
  | none => rw [hn] at hp; cases hp
  | some n => rfl

theorem lt_size_of_mem_children (hk : k ∈ a.children h) : h < a.size := by
  rw [← content?_isSome_iff]
  unfold children at hk
  unfold content?
  cases hn : a.get? h with
  | none => rw [hn] at hk; cases hk
  | some n => rfl

theorem children_eq_nil (hh : a.size ≤ h) : a.children h = [] := by
  cases hc : a.children h with
  | nil => rfl
  | cons k l =>
    have hlt : h < a.size := lt_size_of_mem_children (k := k) (by rw [hc]; simp)
    exact absurd hlt (Nat.not_lt.mpr hh)

theorem childNamed?_eq_some {n : Text} (hk : a.childNamed? p n = some k) :
    k ∈ a.liveChildren p ∧ a.name? k = some n := by
  refine ⟨List.mem_of_find?_eq_some hk, ?_⟩
  have hname := List.find?_some hk
  exact of_decide_eq_true hname

theorem childNamed?_eq_none_iff {n : Text} :
    a.childNamed? p n = none ↔ ∀ x ∈ a.liveChildren p, a.name? x ≠ some n := by
  unfold childNamed?
  rw [List.find?_eq_none]
  simp

/-- **An arena is its contents, parents and children.** -/
theorem ext_parts {b : Arena} (hc : ∀ h, a.content? h = b.content? h)
    (hp : ∀ h, a.parent? h = b.parent? h) (hch : ∀ h, a.children h = b.children h) : a = b := by
  have hget : ∀ h, a.get? h = b.get? h := by
    intro h
    cases hb : b.get? h with
    | none =>
      have hnone : a.content? h = none := by rw [hc, content?, hb]; rfl
      exact Option.map_eq_none_iff.mp hnone
    | some n =>
      obtain ⟨hbc, hbp, hbch⟩ := get?_eq_some_iff.mp hb
      exact get?_eq_some_iff.mpr ⟨(hc h).trans hbc, (hp h).trans hbp, (hch h).trans hbch⟩
  obtain ⟨l⟩ := a
  obtain ⟨m⟩ := b
  exact congrArg Arena.mk (Array.ext_getElem? hget)

/-! ### Changing a content -/

/-- Changing a node changes what was there, and only there. -/
private theorem get?_modify_eq (a : Arena) (h : Handle) (f : Node → Node) (k : Handle) :
    (a.modify h f).get? k = if k = h then (a.get? k).map f else a.get? k := by
  rw [get?_modify]
  simp only [eq_comm]

theorem content?_modifyContent (a : Arena) (h : Handle) (f : Content → Content) (k : Handle) :
    (a.modifyContent h f).content? k =
      if k = h then (a.content? k).map f else a.content? k := by
  unfold content? modifyContent
  rw [get?_modify_eq]
  split <;> cases a.get? k <;> rfl

@[simp] theorem parent?_modifyContent (a : Arena) (h : Handle) (f : Content → Content)
    (k : Handle) : (a.modifyContent h f).parent? k = a.parent? k := by
  unfold parent? modifyContent
  rw [get?_modify_eq]
  split <;> cases a.get? k <;> rfl

@[simp] theorem children_modifyContent (a : Arena) (h : Handle) (f : Content → Content)
    (k : Handle) : (a.modifyContent h f).children k = a.children k := by
  unfold children modifyContent
  rw [get?_modify_eq]
  split <;> cases a.get? k <;> rfl

@[simp] theorem size_modifyContent (a : Arena) (h : Handle) (f : Content → Content) :
    (a.modifyContent h f).size = a.size := size_modify a h _

/-- A change that keeps the kind of a content keeps the kinds of all nodes. -/
theorem kind?_modifyContent {f : Content → Content} (hf : ∀ c, (f c).kind = c.kind)
    (a : Arena) (h k : Handle) : (a.modifyContent h f).kind? k = a.kind? k := by
  unfold kind?
  rw [content?_modifyContent]
  split
  · cases a.content? k with
    | none => rfl
    | some c => simp [hf]
  · rfl

theorem liveChildren_congr {b : Arena} (hp : ∀ k, b.parent? k = a.parent? k)
    (hc : b.children h = a.children h) : b.liveChildren h = a.liveChildren h := by
  simp only [liveChildren, hp, hc]

@[simp] theorem liveChildren_modifyContent (a : Arena) (h : Handle) (f : Content → Content)
    (k : Handle) : (a.modifyContent h f).liveChildren k = a.liveChildren k :=
  liveChildren_congr (parent?_modifyContent a h f) (children_modifyContent a h f k)

/-! ### Names and values after a change of content -/

theorem name?_modifyContent (a : Arena) (h : Handle) (f : Content → Content) (k : Handle) :
    (a.modifyContent h f).name? k =
      if k = h then (a.content? k).bind fun c => (f c).name else a.name? k := by
  rw [name?_eq, name?_eq, content?_modifyContent]
  split
  · cases a.content? k <;> rfl
  · rfl

theorem value?_modifyContent (a : Arena) (h : Handle) (f : Content → Content) (k : Handle) :
    (a.modifyContent h f).value? k =
      if k = h then (a.content? k).bind fun c => (f c).value else a.value? k := by
  rw [value?_eq, value?_eq, content?_modifyContent]
  split
  · cases a.content? k <;> rfl
  · rfl

theorem name?_withValue (a : Arena) (h : Handle) (v : Text) (k : Handle) :
    (a.modifyContent h (·.withValue v)).name? k = a.name? k := by
  rw [name?_modifyContent, name?_eq]
  simp

theorem name?_withCounter (a : Arena) (h : Handle) (n : Nat) (k : Handle) :
    (a.modifyContent h (·.withCounter n)).name? k = a.name? k := by
  rw [name?_modifyContent, name?_eq]
  simp

theorem value?_withName (a : Arena) (h : Handle) (n : Text) (k : Handle) :
    (a.modifyContent h (·.withName n)).value? k = a.value? k := by
  rw [value?_modifyContent, value?_eq]
  simp

/-- What has a place for a name takes it. -/
theorem name?_withName_self {t : NodeKind} (hk : a.kind? h = some t)
    (ht : t = .sectionType ∨ t = .section ∨ t = .option ∨ t = .list) (n : Text) :
    (a.modifyContent h (·.withName n)).name? h = some n := by
  obtain ⟨c, hc, rfl⟩ := kind?_eq_some_iff.mp hk
  rw [name?_modifyContent, if_pos rfl, hc]
  cases c with
  | root => simp [Content.kind] at ht
  | config => simp [Content.kind] at ht
  | element v => simp [Content.kind] at ht
  | _ => rfl

/-- A name that was given is the only one that changes. -/
theorem name?_withName {t : NodeKind} (hk : a.kind? h = some t)
    (ht : t = .sectionType ∨ t = .section ∨ t = .option ∨ t = .list) (n : Text) (k : Handle) :
    (a.modifyContent h (·.withName n)).name? k = if k = h then some n else a.name? k := by
  split
  · next hkh =>
    rw [hkh]
    exact name?_withName_self hk ht n
  · next hkh => rw [name?_modifyContent, if_neg hkh]

theorem name?_withName_entry (hk : a.kind? h = some .option ∨ a.kind? h = some .list) (n : Text)
    (k : Handle) :
    (a.modifyContent h (·.withName n)).name? k = if k = h then some n else a.name? k := by
  rcases hk with hk | hk
  · exact name?_withName hk (by simp) n k
  · exact name?_withName hk (by simp) n k

theorem value?_withValue_self {t : NodeKind} (hk : a.kind? h = some t)
    (ht : t = .option ∨ t = .element) (v : Text) :
    (a.modifyContent h (·.withValue v)).value? h = some v := by
  obtain ⟨c, hc, rfl⟩ := kind?_eq_some_iff.mp hk
  rw [value?_modifyContent, if_pos rfl, hc]
  cases c with
  | option n w => rfl
  | element w => rfl
  | _ => simp [Content.kind] at ht

/-! ### Removing a node -/

@[simp] theorem content?_detach (a : Arena) (h k : Handle) :
    (a.detach h).content? k = a.content? k := by
  unfold content? detach
  rw [get?_modify_eq]
  split <;> cases a.get? k <;> rfl

@[simp] theorem kind?_detach (a : Arena) (h k : Handle) : (a.detach h).kind? k = a.kind? k := by
  simp only [kind?, content?_detach]

theorem parent?_detach (a : Arena) (h k : Handle) :
    (a.detach h).parent? k = if k = h then none else a.parent? k := by
  unfold parent? detach
  rw [get?_modify_eq]
  split <;> cases a.get? k <;> rfl

@[simp] theorem children_detach (a : Arena) (h k : Handle) :
    (a.detach h).children k = a.children k := by
  unfold children detach
  rw [get?_modify_eq]
  split <;> cases a.get? k <;> rfl

/-- A removed node is gone from among the live children, wherever it hung. -/
theorem liveChildren_detach (a : Arena) (h k : Handle) :
    (a.detach h).liveChildren k = (a.liveChildren k).filter (· ≠ h) := by
  simp only [liveChildren, children_detach, List.filter_filter]
  apply List.filter_congr
  intro x _
  rw [parent?_detach]
  by_cases hx : x = h <;> simp [hx]

/-! ### A new node -/

/-- **Hangs a new node** below `p`. -/
def hang (a : Arena) (p : Handle) (c : Content) : Arena := (a.create c).link p a.size

@[simp] theorem size_hang (a : Arena) (p : Handle) (c : Content) :
    (a.hang p c).size = a.size + 1 := by
  simp [hang]

theorem get?_hang (hp : p < a.size) (c : Content) (k : Handle) :
    (a.hang p c).get? k =
      if k = a.size then some { content := c, parent := some p }
      else if k = p then (a.get? k).map fun n => { n with children := n.children ++ [a.size] }
      else a.get? k := by
  unfold hang link
  rw [get?_modify_eq, get?_modify_eq, get?_create]
  have hne : a.size ≠ p := Nat.ne_of_gt hp
  by_cases hk : k = a.size
  · subst hk
    simp [hne]
  · simp [hk]

theorem content?_hang (hp : p < a.size) (c : Content) (k : Handle) :
    (a.hang p c).content? k = if k = a.size then some c else a.content? k := by
  unfold content?
  rw [get?_hang hp]
  split
  · rfl
  · split <;> cases a.get? k <;> rfl

theorem kind?_hang (hp : p < a.size) (c : Content) (k : Handle) :
    (a.hang p c).kind? k = if k = a.size then some c.kind else a.kind? k := by
  unfold kind?
  rw [content?_hang hp]
  split <;> rfl

theorem parent?_hang (hp : p < a.size) (c : Content) (k : Handle) :
    (a.hang p c).parent? k = if k = a.size then some p else a.parent? k := by
  unfold parent?
  rw [get?_hang hp]
  split
  · rfl
  · split <;> cases a.get? k <;> rfl

theorem children_hang (hp : p < a.size) (c : Content) (k : Handle) :
    (a.hang p c).children k =
      if k = p then a.children k ++ [a.size] else a.children k := by
  have hnew : a.children a.size = [] := children_eq_nil (Nat.le_refl _)
  have hne : a.size ≠ p := Nat.ne_of_gt hp
  by_cases hk : k = a.size
  · -- a handle that was not issued had no children, and is not its own parent
    subst hk
    rw [if_neg hne, hnew]
    unfold children
    rw [get?_hang hp, if_pos rfl]
    rfl
  · unfold children
    rw [get?_hang hp, if_neg hk]
    by_cases hkp : k = p
    · subst hkp
      obtain ⟨n, hn⟩ := Option.isSome_iff_exists.mp ((get?_isSome_iff a k).mpr hp)
      simp [hn]
    · simp [hkp]

/-- A new node is the last of the live children of its parent, and is none of anyone
else's; it has no children of its own. -/
theorem liveChildren_hang (hp : p < a.size) (hin : ∀ x ∈ a.children k, x < a.size)
    (c : Content) :
    (a.hang p c).liveChildren k =
      if k = p then a.liveChildren k ++ [a.size] else a.liveChildren k := by
  have hold : (a.children k).filter (fun x => (a.hang p c).parent? x = some k) =
      a.liveChildren k := by
    -- an old child is not the new node, so its parent is the one it had
    apply List.filter_congr
    intro x hx
    rw [parent?_hang hp, if_neg (Nat.ne_of_lt (hin x hx))]
  unfold liveChildren
  rw [children_hang hp]
  split
  · next hk =>
    subst hk
    rw [List.filter_append, hold]
    simp [parent?_hang hp, liveChildren]
  · exact hold

/-! ### Naming a section -/

theorem nameSection_eq {g : Handle} {type : Text} (hp : a.parent? s = some g)
    (hg : a.name? g = some type) :
    a.nameSection s =
      if needsGeneratedName type (a.name? s) then
        (a.modifyContent g (·.withCounter (a.counter g + 1))).modifyContent s
          (·.withName (generatedName type (a.counter g)))
      else a := by
  rw [nameSection, hp]
  simp only [hg]

/-- **What naming a section can do**: nothing, or count on in its group and then give it the next
generated name. -/
theorem nameSection_eq_self_or (a : Arena) (s : Handle) :
    a.nameSection s = a ∨ ∃ g type, a.parent? s = some g ∧ a.name? g = some type ∧
      needsGeneratedName type (a.name? s) = true ∧ a.nameSection s =
        (a.modifyContent g (·.withCounter (a.counter g + 1))).modifyContent s
          (·.withName (generatedName type (a.counter g))) := by
  cases hp : a.parent? s with
  | none => exact Or.inl (by rw [nameSection, hp])
  | some g =>
    cases hg : a.name? g with
    | none => exact Or.inl (by rw [nameSection, hp]; simp only [hg])
    | some type =>
      rw [nameSection_eq hp hg]
      split
      · next hneeds => exact Or.inr ⟨g, type, rfl, hg, hneeds, rfl⟩
      · exact Or.inl rfl

/-- A name of its own is not the business of a group. -/
theorem needsGeneratedName_of_head {type n : Text} (hn : n.head? ≠ some '@') :
    needsGeneratedName type (some n) = false := by
  simp [needsGeneratedName, hn]

theorem parent?_hang_size (hp : p < a.size) (c : Content) :
    (a.hang p c).parent? a.size = some p := by
  rw [parent?_hang hp, if_pos rfl]

theorem name?_hang (hp : p < a.size) (c : Content) (k : Handle) :
    (a.hang p c).name? k = if k = a.size then c.name else a.name? k := by
  rw [name?_eq, name?_eq, content?_hang hp]
  split <;> rfl

/-- **Hangs a new section** below the group `g` of the type `type`.  Without a name it
gets the next generated one, and the group counts on. -/
def hangSection (a : Arena) (g : Handle) (type : Text) : Option Text → Arena
  | some n => a.hang g (.section (some n))
  | none =>
    (a.modifyContent g (·.withCounter (a.counter g + 1))).hang g
      (.section (some (generatedName type (a.counter g))))

private theorem nameSection_hang_none {g : Handle} {type : Text} (hg : a.name? g = some type)
    (hlt : g < a.size) :
    (a.hang g (.section none)).nameSection a.size = a.hangSection g type none := by
  have hne : g ≠ a.size := Nat.ne_of_lt hlt
  have hname : (a.hang g (.section none)).name? g = some type := by
    rw [name?_hang hlt, if_neg hne, hg]
  have hcount : (a.hang g (.section none)).counter g = a.counter g := by
    rw [counter_eq, counter_eq, content?_hang hlt, if_neg hne]
  have hlt' : g < (a.modifyContent g (·.withCounter (a.counter g + 1))).size := by
    rwa [size_modifyContent]
  rw [nameSection_eq (parent?_hang_size hlt _) hname, name?_hang hlt, if_pos rfl]
  rw [hangSection, show (Content.section none).name = none from rfl, hcount,
    if_pos (show needsGeneratedName type none = true from rfl)]
  -- the new node is the one place where both orders of counting and hanging could differ
  refine ext_parts ?_ ?_ ?_
  · intro k
    rw [content?_hang hlt', size_modifyContent]
    simp only [content?_modifyContent, content?_hang hlt]
    by_cases hk : k = a.size
    · subst hk
      simp [Ne.symm hne, Content.withName]
    · simp [hk]
  · intro k
    rw [parent?_hang hlt', size_modifyContent]
    simp only [parent?_modifyContent, parent?_hang hlt]
  · intro k
    rw [children_hang hlt', size_modifyContent]
    simp only [children_modifyContent, children_hang hlt]

/-- Naming a section right after it was hung below its group. -/
theorem nameSection_hang {g : Handle} {type : Text} {name : Option Text}
    (hg : a.name? g = some type) (hlt : g < a.size) (hn : ∀ n ∈ name, n.head? ≠ some '@') :
    (a.hang g (.section name)).nameSection a.size = a.hangSection g type name := by
  cases name with
  | none => exact nameSection_hang_none hg hlt
  -- a given name never starts with the mark of the generated ones
  | some n =>
    have hname : (a.hang g (.section (some n))).name? g = some type := by
      rw [name?_hang hlt, if_neg (Nat.ne_of_lt hlt), hg]
    rw [nameSection_eq (parent?_hang_size hlt _) hname, name?_hang hlt, if_pos rfl,
      show (Content.section (some n)).name = some n from rfl,
      needsGeneratedName_of_head (hn n rfl)]
    rfl

@[simp] theorem size_hangSection (a : Arena) (g : Handle) (type : Text) (name : Option Text) :
    (a.hangSection g type name).size = a.size + 1 := by
  cases name <;> simp [hangSection]

section HangSection

variable {type : Text} (hg : g < a.size) (name : Option Text)
include hg

theorem content?_hangSection (k : Handle) :
    (a.hangSection g type name).content? k =
      if k = a.size then some (.section (some (name.getD (generatedName type (a.counter g)))))
      else if k = g ∧ name = none then
        (a.content? k).map (·.withCounter (a.counter g + 1))
      else a.content? k := by
  cases name with
  | some n =>
    rw [hangSection, content?_hang hg]
    simp
  | none =>
    rw [hangSection, content?_hang (by rwa [size_modifyContent]), content?_modifyContent,
      size_modifyContent]
    simp

theorem kind?_hangSection (k : Handle) :
    (a.hangSection g type name).kind? k = if k = a.size then some .section else a.kind? k := by
  unfold kind?
  rw [content?_hangSection hg]
  split
  · rfl
  · split
    · cases a.content? k with
      | none => rfl
      | some c => simp
    · rfl

theorem name?_hangSection (k : Handle) :
    (a.hangSection g type name).name? k =
      if k = a.size then some (name.getD (generatedName type (a.counter g))) else a.name? k := by
  rw [name?_eq, name?_eq, content?_hangSection hg]
  split
  · rfl
  · split
    · cases a.content? k with
      | none => rfl
      | some c => cases c <;> rfl
    · rfl

theorem parent?_hangSection (k : Handle) :
    (a.hangSection g type name).parent? k = if k = a.size then some g else a.parent? k := by
  cases name with
  | some n => rw [hangSection, parent?_hang hg]
  | none =>
    rw [hangSection, parent?_hang (by rwa [size_modifyContent]), parent?_modifyContent,
      size_modifyContent]

theorem liveChildren_hangSection (hin : ∀ x ∈ a.children k, x < a.size) :
    (a.hangSection g type name).liveChildren k =
      if k = g then a.liveChildren k ++ [a.size] else a.liveChildren k := by
  cases name with
  | some n => rw [hangSection, liveChildren_hang hg hin]
  | none =>
    have hin' : ∀ x ∈ (a.modifyContent g (·.withCounter (a.counter g + 1))).children k,
        x < (a.modifyContent g (·.withCounter (a.counter g + 1))).size := by
      rw [children_modifyContent, size_modifyContent]
      exact hin
    rw [hangSection, liveChildren_hang (by rwa [size_modifyContent]) hin',
      liveChildren_modifyContent, size_modifyContent]

end HangSection

/-! ### Moving the children of a group -/

@[simp] theorem content?_adopt (a : Arena) (g t k h : Handle) :
    (adopt g t a k).content? h = a.content? h := by
  unfold content? adopt
  rw [get?_modify_eq]
  split
  · cases a.get? h with
    | none => rfl
    | some n => simp only [Option.map_some]; split <;> rfl
  · rfl

@[simp] theorem children_adopt (a : Arena) (g t k h : Handle) :
    (adopt g t a k).children h = a.children h := by
  unfold children adopt
  rw [get?_modify_eq]
  split
  · cases a.get? h with
    | none => rfl
    | some n => simp only [Option.map_some]; split <;> rfl
  · rfl

theorem parent?_adopt (a : Arena) (g t k h : Handle) :
    (adopt g t a k).parent? h =
      if h = k ∧ a.parent? h = some g then some t else a.parent? h := by
  unfold parent? adopt
  rw [get?_modify_eq]
  by_cases hk : h = k
  · cases a.get? h with
    | none => simp
    | some n => by_cases hn : n.parent = some g <;> simp [hk, hn]
  · simp [hk]

/-- Giving away several nodes gives away each of them that is there to be given. -/
theorem parent?_foldl_adopt {g t : Handle} (hgt : g ≠ t) (l : List Handle) (a : Arena)
    (h : Handle) :
    (l.foldl (adopt g t) a).parent? h =
      if h ∈ l ∧ a.parent? h = some g then some t else a.parent? h := by
  induction l generalizing a with
  | nil => simp
  | cons k l ih =>
    rw [List.foldl_cons, ih, parent?_adopt]
    by_cases hk : h = k ∧ a.parent? h = some g
    · -- given away already, so its parent is no longer the one that gives
      obtain ⟨rfl, hp⟩ := hk
      simp [hp, Ne.symm hgt]
    · rw [if_neg hk]
      have hiff : (h ∈ l ∧ a.parent? h = some g) ↔ (h ∈ k :: l ∧ a.parent? h = some g) := by
        rw [List.mem_cons]
        constructor
        · rintro ⟨hl, hp⟩
          exact ⟨Or.inr hl, hp⟩
        · rintro ⟨rfl | hl, hp⟩
          · exact absurd ⟨rfl, hp⟩ hk
          · exact ⟨hl, hp⟩
      simp only [hiff]

@[simp] theorem content?_foldl_adopt (g t : Handle) (l : List Handle) (a : Arena) (h : Handle) :
    (l.foldl (adopt g t) a).content? h = a.content? h := by
  induction l generalizing a with
  | nil => rfl
  | cons k l ih => rw [List.foldl_cons, ih, content?_adopt]

@[simp] theorem children_foldl_adopt (g t : Handle) (l : List Handle) (a : Arena) (h : Handle) :
    (l.foldl (adopt g t) a).children h = a.children h := by
  induction l generalizing a with
  | nil => rfl
  | cons k l ih => rw [List.foldl_cons, ih, children_adopt]

@[simp] theorem size_foldl_adopt (g t : Handle) (l : List Handle) (a : Arena) :
    (l.foldl (adopt g t) a).size = a.size := by
  induction l generalizing a with
  | nil => rfl
  | cons k l ih => rw [List.foldl_cons, ih, adopt, size_modify]

/-- What a change of nothing but the lists of children leaves as it was. -/
private theorem content?_modify_children (a : Arena) (h : Handle) (f : List Handle → List Handle)
    (k : Handle) :
    (a.modify h fun n => { n with children := f n.children }).content? k = a.content? k := by
  unfold content?
  rw [get?_modify_eq]
  split <;> cases a.get? k <;> rfl

private theorem parent?_modify_children (a : Arena) (h : Handle) (f : List Handle → List Handle)
    (k : Handle) :
    (a.modify h fun n => { n with children := f n.children }).parent? k = a.parent? k := by
  unfold parent?
  rw [get?_modify_eq]
  split <;> cases a.get? k <;> rfl

private theorem children_modify_children (hh : h < a.size) (f : List Handle → List Handle)
    (k : Handle) :
    (a.modify h fun n => { n with children := f n.children }).children k =
      if k = h then f (a.children k) else a.children k := by
  unfold children
  rw [get?_modify_eq]
  by_cases hk : k = h
  · subst hk
    obtain ⟨n, hn⟩ := Option.isSome_iff_exists.mp ((get?_isSome_iff a k).mpr hh)
    simp [hn]
  · simp [hk]

@[simp] theorem content?_moveChildren (a : Arena) (g t k : Handle) :
    (a.moveChildren g t).content? k = a.content? k := by
  unfold moveChildren
  rw [content?_modify_children _ _ (· ++ a.children g), content?_foldl_adopt,
    content?_modify_children _ _ fun _ => []]

theorem parent?_moveChildren {g t : Handle} (hgt : g ≠ t) (a : Arena) (k : Handle) :
    (a.moveChildren g t).parent? k =
      if k ∈ a.children g ∧ a.parent? k = some g then some t else a.parent? k := by
  unfold moveChildren
  rw [parent?_modify_children _ _ (· ++ a.children g), parent?_foldl_adopt hgt,
    parent?_modify_children _ _ fun _ => []]

@[simp] theorem size_moveChildren (a : Arena) (g t : Handle) :
    (a.moveChildren g t).size = a.size := by
  simp [moveChildren]

theorem children_moveChildren {g t : Handle} (hg : g < a.size) (ht : t < a.size) (hgt : g ≠ t)
    (k : Handle) :
    (a.moveChildren g t).children k =
      if k = t then a.children t ++ a.children g else if k = g then [] else a.children k := by
  unfold moveChildren
  rw [children_modify_children (by rwa [size_foldl_adopt, size_modify]) (· ++ a.children g),
    children_foldl_adopt, children_modify_children hg fun _ => []]
  -- the group that takes them may not be the one that gives them, or its list would be lost
  by_cases hk : k = t
  · subst hk
    simp [Ne.symm hgt]
  · simp [hk]

/-! ### Folding a group into another -/

theorem content?_absorb (a : Arena) (t g k : Handle) :
    (a.absorb t g).content? k =
      if k = t then
        (a.content? k).map fun c => c.withCounter (max c.counter (a.counter g))
      else a.content? k := by
  rw [absorb, content?_detach, content?_modifyContent, content?_moveChildren]

@[simp] theorem kind?_absorb (a : Arena) (t g k : Handle) :
    (a.absorb t g).kind? k = a.kind? k := by
  unfold kind?
  rw [content?_absorb]
  split
  · cases a.content? k with
    | none => rfl
    | some c => simp
  · rfl

theorem name?_absorb (a : Arena) (t g k : Handle) : (a.absorb t g).name? k = a.name? k := by
  rw [name?_eq, name?_eq, content?_absorb]
  split
  · cases a.content? k with
    | none => rfl
    | some c => cases c <;> rfl
  · rfl

theorem parent?_absorb {t g : Handle} (hgt : g ≠ t) (a : Arena) (k : Handle) :
    (a.absorb t g).parent? k =
      if k = g then none
      else if k ∈ a.children g ∧ a.parent? k = some g then some t else a.parent? k := by
  rw [absorb, parent?_detach, parent?_modifyContent, parent?_moveChildren hgt]

@[simp] theorem size_absorb (a : Arena) (t g : Handle) : (a.absorb t g).size = a.size := by
  simp [absorb]

theorem children_absorb {t g : Handle} (hg : g < a.size) (ht : t < a.size) (hgt : g ≠ t)
    (k : Handle) :
    (a.absorb t g).children k =
      if k = t then a.children t ++ a.children g else if k = g then [] else a.children k := by
  rw [absorb, children_detach, children_modifyContent, children_moveChildren hg ht hgt]

end Arena
end Uci
