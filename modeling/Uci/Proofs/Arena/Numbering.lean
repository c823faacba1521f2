import Mathlib.Data.List.Basic
import Uci.Proofs.Arena.WellFormed

/-!
# Generated names and their numbers

A generated name ends in a number, the counter of the group at the time it was given.
The group holds its sections for good: a removed section stays in its list, and a group
that is folded into another hands its whole list over.  So the names a group has ever
seen are those of the sections it holds, and its counter is beyond all their numbers.

## Main definitions

* `Arena.Holds a g s` — the group `g` holds the section `s`, live or removed.
* `Arena.Numbered` — the numbers in use lie behind the counters.
* `Arena.NamedAlone a s` — no other section of the same group is called as `s` is.

## Main results

* `generatedName_inj` — a generated name tells its number.
* `nameSection_cases` — what naming a section comes to.
* `Numbered.modifyContent`, `.detach`, `.hang`, `.hangSection`, `.of_absorbs`,
  `.nameSection` — every change keeps numbers behind the counters.
* `Numbered.fresh` — **the next generated name of a group is a new one**.
-/

namespace Uci

variable {a b : Arena}

/-! ### Generated names -/

theorem generatedName_head (type : Text) (n : Nat) : (generatedName type n).head? = some '@' := rfl

theorem generatedName_ne_nil (type : Text) (n : Nat) : generatedName type n ≠ [] := nofun

/-- Of two texts that end in digits behind a bracket, the digits are the same if the texts
are. -/
private theorem digits_eq {s s' ds ds' : Text} (hd : ∀ c ∈ ds, c ≠ '[') (hd' : ∀ c ∈ ds', c ≠ '[')
    (h : s ++ '[' :: ds = s' ++ '[' :: ds') : ds = ds' := by
  rcases List.append_eq_append_iff.mp h with ⟨m, hs', hm⟩ | ⟨m, hs, hm⟩
  · cases m with
    | nil => exact (List.cons.inj hm).2
    | cons c m =>
      have hmem : '[' ∈ ds := by
        rw [(List.cons.inj hm).2]
        simp
      -- the bracket of the one text would stand among the digits of the other
      exact absurd rfl (hd _ hmem)
  · cases m with
    | nil => exact ((List.cons.inj hm).2).symm
    | cons c m =>
      have hmem : '[' ∈ ds' := by
        rw [(List.cons.inj hm).2]
        simp
      exact absurd rfl (hd' _ hmem)

/-- **A generated name tells its number**, whatever the type. -/
theorem generatedName_inj {t t' : Text} {n n' : Nat} (h : generatedName t n = generatedName t' n') :
    n = n' := by
  have hne : ∀ m : Nat, ∀ c ∈ Nat.toDigits 10 m, c ≠ '[' := by
    rintro m c hc rfl
    exact absurd (Nat.isDigit_of_mem_toDigits (by decide) (by decide) hc) (by decide)
  have hshape : ∀ (t : Text) (n : Nat),
      generatedName t n = ('@' :: t ++ '[' :: Nat.toDigits 10 n) ++ [']'] := fun _ _ => rfl
  -- from the right: the closing bracket, then the digits up to the opening one
  rw [hshape, hshape, List.append_cancel_right_eq] at h
  have hdigits := digits_eq (hne n) (hne n') h
  rw [← Nat.ofDigitChars_ten_toDigits (n := n), hdigits, Nat.ofDigitChars_ten_toDigits]

/-- A generated name is taken for one. -/
theorem isGeneratedName_generatedName (type : Text) (n : Nat) :
    isGeneratedName type (generatedName type n) = true := by
  have hdigits : (Nat.toDigits 10 n).all Char.isDigit = true :=
    List.all_eq_true.mpr fun c hc => Nat.isDigit_of_mem_toDigits (by decide) (by decide) hc
  have hsome : (Nat.toDigits 10 n).isEmpty = false :=
    List.isEmpty_eq_false_iff.mpr (List.ne_nil_of_length_pos Nat.length_toDigits_pos)
  have hfront : ('@' :: type ++ ['[']).isPrefixOf? (generatedName type n) =
      some (Nat.toDigits 10 n ++ [']']) := by
    rw [List.isPrefixOf?_eq_some_iff_append_eq, generatedName]
    simp
  have hback : [']'].isSuffixOf? (Nat.toDigits 10 n ++ [']']) = some (Nat.toDigits 10 n) :=
    List.isSuffixOf?_eq_some_iff_append_eq.mpr rfl
  simp only [isGeneratedName, generatedDigits?, hfront, hback, Option.bind_eq_bind,
    Option.bind_some, hsome, hdigits]
  rfl

namespace Arena

variable {g h k p s t x y : Handle} {c : Content} {type : Text} {name : Option Text}

/-! ### Counters after a change -/

theorem counter_eq_zero (hk : a.size ≤ k) : a.counter k = 0 := by
  cases hc : a.content? k with
  | none => rw [counter_eq, hc]; rfl
  | some c => exact absurd (lt_size_of_content? hc) (Nat.not_lt.mpr hk)

theorem counter_modifyContent (a : Arena) (h : Handle) (f : Content → Content) (k : Handle) :
    (a.modifyContent h f).counter k =
      if k = h then ((a.content? k).map fun c => (f c).counter).getD 0 else a.counter k := by
  rw [counter_eq, counter_eq, content?_modifyContent]
  split
  · cases a.content? k <;> rfl
  · rfl

theorem counter_withCounter (hk : a.kind? g = some .sectionType) (n : Nat) :
    (a.modifyContent g (·.withCounter n)).counter g = n := by
  obtain ⟨c, hc, hkind⟩ := kind?_eq_some_iff.mp hk
  rw [counter_modifyContent, if_pos rfl, hc]
  cases c with
  | sectionType m k => rfl
  | _ => cases hkind

theorem counter_withName (a : Arena) (h : Handle) (n : Text) (k : Handle) :
    (a.modifyContent h (·.withName n)).counter k = a.counter k := by
  rw [counter_modifyContent, counter_eq]
  split
  · cases a.content? k with
    | none => rfl
    | some c => cases c <;> rfl
  · rfl

theorem counter_withValue (a : Arena) (h : Handle) (v : Text) (k : Handle) :
    (a.modifyContent h (·.withValue v)).counter k = a.counter k := by
  rw [counter_modifyContent, counter_eq]
  simp

theorem counter_detach (a : Arena) (h k : Handle) : (a.detach h).counter k = a.counter k := by
  rw [counter_eq, counter_eq, content?_detach]

theorem counter_absorb (ht : a.kind? t = some .sectionType) (g k : Handle) :
    (a.absorb t g).counter k = if k = t then max (a.counter t) (a.counter g) else a.counter k := by
  obtain ⟨c, hc, hkind⟩ := kind?_eq_some_iff.mp ht
  rw [counter_eq, content?_absorb]
  split
  · next h =>
    rw [h, hc, counter_eq a t, hc]
    cases c with
    | sectionType m n => rfl
    | _ => cases hkind
  · exact (counter_eq ..).symm

theorem counter_hang (hp : p < a.size) (hk : k < a.size) (c : Content) :
    (a.hang p c).counter k = a.counter k := by
  rw [counter_eq, counter_eq, content?_hang hp, if_neg (Nat.ne_of_lt hk)]

theorem counter_hangSection (hg : a.kind? g = some .sectionType) (hk : k < a.size) :
    (a.hangSection g type name).counter k =
      if k = g ∧ name = none then a.counter g + 1 else a.counter k := by
  obtain ⟨c, hc, hck⟩ := kind?_eq_some_iff.mp hg
  rw [counter_eq, content?_hangSection (lt_size_of_kind? hg), if_neg (Nat.ne_of_lt hk)]
  split
  · next h =>
    rw [h.1, hc]
    cases c with
    | sectionType m n => rfl
    | _ => cases hck
  · exact (counter_eq ..).symm

/-! ### Naming a section -/

theorem kind?_nameSection (a : Arena) (s h : Handle) : (a.nameSection s).kind? h = a.kind? h := by
  rcases a.nameSection_eq_self_or s with heq | ⟨g, type, -, -, -, heq⟩ <;> rw [heq]
  rw [kind?_modifyContent (Content.kind_withName _),
    kind?_modifyContent (Content.kind_withCounter _)]

theorem children_nameSection (a : Arena) (s k : Handle) :
    (a.nameSection s).children k = a.children k := by
  rcases a.nameSection_eq_self_or s with heq | ⟨g, type, -, -, -, heq⟩ <;> rw [heq]
  rw [children_modifyContent, children_modifyContent]

theorem parent?_nameSection (a : Arena) (s k : Handle) :
    (a.nameSection s).parent? k = a.parent? k := by
  rcases a.nameSection_eq_self_or s with heq | ⟨g, type, -, -, -, heq⟩ <;> rw [heq]
  rw [parent?_modifyContent, parent?_modifyContent]

theorem liveChildren_nameSection (a : Arena) (s k : Handle) :
    (a.nameSection s).liveChildren k = a.liveChildren k :=
  liveChildren_congr (parent?_nameSection a s) (children_nameSection a s k)

theorem name?_nameSection (hk : k ≠ s) : (a.nameSection s).name? k = a.name? k := by
  rcases a.nameSection_eq_self_or s with heq | ⟨g, type, -, -, -, heq⟩ <;> rw [heq]
  rw [name?_modifyContent, if_neg hk, name?_withCounter]

/-- A section that needs a generated name gets the next one of its group; any other stays
what it is. -/
theorem nameSection_self {type : Text} (hp : a.parent? s = some p)
    (htype : a.name? p = some type) (hkp : a.kind? p = some .sectionType)
    (hks : a.kind? s = some .section) :
    needsGeneratedName type (a.name? s) = false ∧ a.nameSection s = a ∨
    needsGeneratedName type (a.name? s) = true ∧
      (a.nameSection s).name? s = some (generatedName type (a.counter p)) ∧
      (a.nameSection s).counter p = a.counter p + 1 ∧
      ∀ q, q ≠ p → (a.nameSection s).counter q = a.counter q := by
  rw [nameSection_eq hp htype]
  cases hneeds : needsGeneratedName type (a.name? s) with
  | false => exact Or.inl ⟨rfl, rfl⟩
  | true =>
    -- counting on does not touch the section, which is named after that
    have hks' : (a.modifyContent p (·.withCounter (a.counter p + 1))).kind? s = some .section := by
      rw [kind?_modifyContent (Content.kind_withCounter _)]
      exact hks
    refine Or.inr ⟨rfl, ?_, ?_, ?_⟩
    · rw [if_pos rfl]
      exact name?_withName_self hks' (by simp) _
    · rw [if_pos rfl, counter_withName]
      exact counter_withCounter hkp _
    · intro q hq
      rw [if_pos rfl, counter_withName, counter_modifyContent, if_neg hq]

/-- What a section hangs below is a group. -/
theorem WellFormed.kind?_group (hw : a.WellFormed) (hks : a.kind? s = some .section)
    (hp : a.parent? s = some p) : a.kind? p = some .sectionType := by
  obtain ⟨kp, kk, hkp, hkk, hold⟩ := hw.parent_holds s p hp
  rw [hks] at hkk
  cases hkk
  rw [hkp]
  cases kp <;> first | rfl | cases hold

/-- **What naming a section comes to**: nothing, or the next generated name of its group, which
then counts on. -/
theorem nameSection_cases (hw : a.WellFormed) (hks : a.kind? s = some .section) :
    a.nameSection s = a ∨
    ∃ p type, a.parent? s = some p ∧ a.kind? p = some .sectionType ∧
      (a.nameSection s).name? s = some (generatedName type (a.counter p)) ∧
      (a.nameSection s).counter p = a.counter p + 1 ∧
      ∀ q, q ≠ p → (a.nameSection s).counter q = a.counter q := by
  rcases a.nameSection_eq_self_or s with hsame | ⟨p, type, hp, htype, -, -⟩
  · exact Or.inl hsame
  · have hkp := hw.kind?_group hks hp
    rcases nameSection_self hp htype hkp hks with ⟨-, hsame⟩ | ⟨-, hname, hcount, hother⟩
    · exact Or.inl hsame
    · exact Or.inr ⟨p, type, hp, hkp, hname, hcount, hother⟩

/-! ### Counters only grow -/

theorem counter_le_hang (hp : p < a.size) (c : Content) (k : Handle) :
    a.counter k ≤ (a.hang p c).counter k := by
  by_cases hk : k < a.size
  · exact Nat.le_of_eq (counter_hang hp hk c).symm
  · rw [counter_eq_zero (Nat.not_lt.mp hk)]
    exact Nat.zero_le _

theorem counter_le_hangSection (hg : a.kind? g = some .sectionType) (type : Text)
    (name : Option Text) (k : Handle) : a.counter k ≤ (a.hangSection g type name).counter k := by
  by_cases hk : k < a.size
  · rw [counter_hangSection hg hk]
    split
    · next h =>
      rw [h.1]
      exact Nat.le_succ _
    · exact Nat.le_refl _
  · rw [counter_eq_zero (Nat.not_lt.mp hk)]
    exact Nat.zero_le _

theorem counter_le_nameSection (hw : a.WellFormed) (hks : a.kind? s = some .section) (k : Handle) :
    a.counter k ≤ (a.nameSection s).counter k := by
  rcases nameSection_cases hw hks with hsame | ⟨p, type, -, -, -, hcount, hother⟩
  · exact Nat.le_of_eq (by rw [hsame])
  · by_cases hkp : k = p
    · rw [hkp]
      exact Nat.le_trans (Nat.le_succ _) (Nat.le_of_eq hcount.symm)
    · exact Nat.le_of_eq (hother k hkp).symm

theorem counter_le_absorb (hx : a.kind? x = some .sectionType) (y k : Handle) :
    a.counter k ≤ (a.absorb x y).counter k := by
  rw [counter_absorb hx]
  split
  · next hkx =>
    rw [hkx]
    exact Nat.le_max_left ..
  · exact Nat.le_refl _

/-- The group that takes the sections is as far as the one that gives them. -/
theorem counter_le_absorb_target (hx : a.kind? x = some .sectionType) (y : Handle) :
    a.counter y ≤ (a.absorb x y).counter x := by
  rw [counter_absorb hx, if_pos rfl]
  exact Nat.le_max_right ..

theorem counter_le_of_absorbs (h : Relation.ReflTransGen Absorbs a b) (k : Handle) :
    a.counter k ≤ b.counter k := by
  induction h with
  | refl => exact Nat.le_refl _
  | tail _ hstep ih =>
    obtain ⟨x, y, hx, -, -, rfl⟩ := hstep
    exact Nat.le_trans ih (counter_le_absorb hx y k)

theorem name?_of_absorbs (h : Relation.ReflTransGen Absorbs a b) (k : Handle) :
    b.name? k = a.name? k := by
  induction h with
  | refl => rfl
  | tail _ hstep ih =>
    obtain ⟨x, y, -, -, -, rfl⟩ := hstep
    rw [name?_absorb, ih]

/-! ### The sections that a group holds -/

/-- **Held section**: one of the sections that ever came to the group, live or removed. -/
def Holds (a : Arena) (g s : Handle) : Prop :=
  a.kind? g = some .sectionType ∧ s ∈ a.children g ∧ a.kind? s = some .section

theorem Holds.of_parent (hw : a.WellFormed) (hks : a.kind? s = some .section)
    (hp : a.parent? s = some p) : a.Holds p s :=
  ⟨hw.kind?_group hks hp, hw.mem_of_parent s p hp, hks⟩

/-- A section is held by one group. -/
theorem Holds.unique (hw : a.WellFormed) (hg : a.Holds g s) (hp : a.Holds p s) : g = p :=
  hw.eq_of_mem_children hg.2.1 hp.2.1

/-- What changes neither kinds nor lists of children leaves the groups what they hold. -/
theorem holds_congr (hk : ∀ x, b.kind? x = a.kind? x) (hc : ∀ x, b.children x = a.children x) :
    b.Holds g s ↔ a.Holds g s := by
  simp only [Holds, hk, hc]

theorem holds_modifyContent {f : Content → Content} (hf : ∀ c, (f c).kind = c.kind) (h : Handle) :
    (a.modifyContent h f).Holds g s ↔ a.Holds g s :=
  holds_congr (kind?_modifyContent hf a h) (children_modifyContent a h f)

/-- A removed section is still held by its group. -/
theorem holds_detach (h : Handle) : (a.detach h).Holds g s ↔ a.Holds g s :=
  holds_congr (kind?_detach a h) (children_detach a h)

theorem holds_nameSection : (a.nameSection t).Holds g s ↔ a.Holds g s :=
  holds_congr (kind?_nameSection a t) (children_nameSection a t)

/-- A section of a group was there before, or is the new node. -/
theorem Holds.of_hang (hw : a.WellFormed) (hp : p < a.size) (h : (a.hang p c).Holds g s) :
    a.Holds g s ∨ g = p ∧ a.kind? p = some .sectionType ∧ s = a.size ∧ c.kind = .section := by
  obtain ⟨hkg, hs, hks⟩ := h
  have hg : g ≠ a.size := by
    rintro rfl
    rw [children_hang hp, if_neg (Nat.ne_of_gt hp), children_eq_nil (Nat.le_refl _)] at hs
    cases hs
  rw [kind?_hang hp, if_neg hg] at hkg
  have hold : s ∈ a.children g → a.Holds g s := by
    intro hs
    rw [kind?_hang hp, if_neg (Nat.ne_of_lt (hw.child_lt g s hs))] at hks
    exact ⟨hkg, hs, hks⟩
  rw [children_hang hp] at hs
  split at hs
  · next hgp =>
    rcases List.mem_append.mp hs with hs | hs
    · exact Or.inl (hold hs)
    · rw [List.mem_singleton.mp hs, kind?_hang hp, if_pos rfl] at hks
      exact Or.inr ⟨hgp, hgp ▸ hkg, List.mem_singleton.mp hs, Option.some.inj hks⟩
  · exact Or.inl (hold hs)

/-- A section of a group was held by it before, or was handed over. -/
theorem Holds.of_absorb (hx : a.kind? x = some .sectionType) (hy : a.kind? y = some .sectionType)
    (hne : y ≠ x) (h : (a.absorb x y).Holds g s) : a.Holds g s ∨ g = x ∧ a.Holds y s := by
  obtain ⟨hkg, hs, hks⟩ := h
  rw [kind?_absorb] at hkg hks
  rw [children_absorb (lt_size_of_kind? hy) (lt_size_of_kind? hx) hne] at hs
  split at hs
  · next hgx =>
    rcases List.mem_append.mp hs with hs | hs
    · exact Or.inl ⟨hkg, hgx ▸ hs, hks⟩
    · exact Or.inr ⟨hgx, hy, hs, hks⟩
  · split at hs
    · cases hs
    · exact Or.inl ⟨hkg, hs, hks⟩

/-! ### Numbers behind the counters -/

/-- **Numbered arena**: a name of a section that looks generated is one, and its number lies
behind the group that holds the section. -/
def Numbered (a : Arena) : Prop :=
  ∀ g s, a.Holds g s → ∀ n, a.name? s = some n → n.head? = some '@' →
    ∃ type number, n = generatedName type number ∧ number < a.counter g

/-- **Named alone**: no other section of the same group, live or removed, is called as `s`
is. -/
def NamedAlone (a : Arena) (s : Handle) : Prop :=
  ∀ g s', a.Holds g s → a.Holds g s' → s' ≠ s → a.name? s' ≠ a.name? s

namespace Numbered

/-- A section keeps its name in a group that is no less far, or its name is one that the group
has counted. -/
theorem transport (ha : a.Numbered)
    (h : ∀ g s, b.Holds g s → ∀ n, b.name? s = some n → n.head? = some '@' →
      (∃ g', a.Holds g' s ∧ a.name? s = some n ∧ a.counter g' ≤ b.counter g) ∨
        ∃ type number, n = generatedName type number ∧ number < b.counter g) : b.Numbered := by
  intro g s hs n hn hat
  rcases h g s hs n hn hat with ⟨g', hs', hn', hle⟩ | hnew
  · obtain ⟨type, number, heq, hlt⟩ := ha g' s hs' n hn' hat
    exact ⟨type, number, heq, Nat.lt_of_lt_of_le hlt hle⟩
  · exact hnew

/-- **The next generated name of a group is a new one**, whatever names it has seen. -/
theorem fresh (ha : a.Numbered) (hs : a.Holds g s) {n : Nat} (hn : a.counter g ≤ n)
    (type : Text) : a.name? s ≠ some (generatedName type n) := by
  intro hname
  obtain ⟨type', n', heq, hlt⟩ := ha g s hs _ hname (generatedName_head _ _)
  rw [← generatedName_inj heq] at hlt
  exact absurd hlt (Nat.not_lt.mpr hn)

/-- A change of content that counts no group back and makes up no name. -/
theorem modifyContent (ha : a.Numbered) {f : Content → Content} (hf : ∀ c, (f c).kind = c.kind)
    (hcount : ∀ g, a.counter g ≤ (a.modifyContent h f).counter g)
    (hname : ∀ s n, (a.modifyContent h f).name? s = some n → a.kind? s = some .section →
      n.head? = some '@' → a.name? s = some n) : (a.modifyContent h f).Numbered := by
  refine ha.transport ?_
  intro g s hs n hn hat
  have hs' := (holds_modifyContent hf h).mp hs
  exact Or.inl ⟨g, hs', hname s n hn hs'.2.2 hat, hcount g⟩

theorem withValue (ha : a.Numbered) (h : Handle) (v : Text) :
    (a.modifyContent h (·.withValue v)).Numbered :=
  ha.modifyContent (Content.kind_withValue v) (fun g => Nat.le_of_eq (counter_withValue ..).symm)
    fun s n hn _ _ => by rwa [name?_withValue] at hn

/-- A name that is given never looks generated. -/
theorem withName (ha : a.Numbered) {n : Text}
    (hn : a.kind? h = some .section → n.head? ≠ some '@') :
    (a.modifyContent h (·.withName n)).Numbered := by
  refine ha.modifyContent (Content.kind_withName n)
    (fun g => Nat.le_of_eq (counter_withName ..).symm) ?_
  intro s m hm hks hat
  by_cases hsh : s = h
  · rw [hsh] at hks hm
    rw [name?_withName_self hks (by simp) n] at hm
    rw [← Option.some.inj hm] at hat
    exact absurd hat (hn hks)
  · rwa [name?_modifyContent, if_neg hsh] at hm

theorem detach (ha : a.Numbered) (h : Handle) : (a.detach h).Numbered := by
  refine ha.transport ?_
  intro g s hs n hn _
  rw [name?_eq, content?_detach, ← name?_eq] at hn
  exact Or.inl ⟨g, (holds_detach h).mp hs, hn, Nat.le_of_eq (counter_detach ..).symm⟩

/-- A new node, which is no section under a name that the group has not counted. -/
theorem hang (ha : a.Numbered) (hw : a.WellFormed) (hp : p < a.size)
    (hc : ∀ n, c.kind = .section → c.name = some n → n.head? = some '@' →
      ∃ type number, n = generatedName type number ∧ number < a.counter p) :
    (a.hang p c).Numbered := by
  refine ha.transport ?_
  intro g s hs n hn hat
  rw [name?_hang hp] at hn
  rcases hs.of_hang hw hp with hs | ⟨rfl, hkp, rfl, hkc⟩
  · have hlt := lt_size_of_kind? hs.1
    rw [if_neg (Nat.ne_of_lt (lt_size_of_kind? hs.2.2))] at hn
    exact Or.inl ⟨g, hs, hn, Nat.le_of_eq (counter_hang hp hlt c).symm⟩
  · rw [if_pos rfl] at hn
    rw [counter_hang hp hp]
    exact Or.inr (hc n hkc hn hat)

theorem hangSection (ha : a.Numbered) (hw : a.WellFormed) (hg : a.kind? g = some .sectionType)
    (hname : ∀ n ∈ name, n.head? ≠ some '@') : (a.hangSection g type name).Numbered := by
  cases name with
  | some n =>
    refine ha.hang hw (lt_size_of_kind? hg) ?_
    intro m _ hm hat
    exact absurd hat (Option.some.inj hm ▸ hname n rfl)
  | none =>
    have hcount := counter_withCounter hg (a.counter g + 1)
    have hbump : (a.modifyContent g (·.withCounter (a.counter g + 1))).Numbered := by
      refine ha.modifyContent (Content.kind_withCounter _) ?_ ?_
      · intro q
        by_cases hq : q = g
        · rw [hq, hcount]
          exact Nat.le_succ _
        · exact Nat.le_of_eq (by rw [counter_modifyContent, if_neg hq])
      · intro s n hn _ _
        rwa [name?_withCounter] at hn
    refine hbump.hang (hw.modifyContent (Content.kind_withCounter _) g)
      (by rw [size_modifyContent]; exact lt_size_of_kind? hg) ?_
    intro n _ hn _
    rw [hcount]
    exact ⟨type, a.counter g, (Option.some.inj hn).symm, Nat.lt_succ_self _⟩

/-- The group that takes the sections counts on from the higher of the two counters. -/
theorem absorb (ha : a.Numbered) (h : Absorbs a b) : b.Numbered := by
  obtain ⟨x, y, hx, hy, hlt, rfl⟩ := h
  refine ha.transport ?_
  intro g s hs n hn _
  rw [name?_absorb] at hn
  rcases hs.of_absorb hx hy (Nat.ne_of_gt hlt) with hsame | ⟨rfl, hmoved⟩
  · exact Or.inl ⟨g, hsame, hn, counter_le_absorb hx y g⟩
  · exact Or.inl ⟨y, hmoved, hn, counter_le_absorb_target hx y⟩

theorem of_absorbs (ha : a.Numbered) (h : Relation.ReflTransGen Absorbs a b) : b.Numbered := by
  induction h with
  | refl => exact ha
  | tail _ hstep ih => exact ih.absorb hstep

theorem nameSection (ha : a.Numbered) (hw : a.WellFormed) (hks : a.kind? s = some .section) :
    (a.nameSection s).Numbered := by
  rcases nameSection_cases hw hks with hsame | ⟨p, type, hp, -, hname, hcount, -⟩
  · rwa [hsame]
  · refine ha.transport ?_
    intro g x hx n hn _
    rw [holds_nameSection] at hx
    by_cases hxs : x = s
    · subst hxs
      -- the section that is named is held by the group that counts
      rw [hx.unique hw (.of_parent hw hks hp), hcount]
      exact Or.inr ⟨type, a.counter p, Option.some.inj (hn.symm.trans hname), Nat.lt_succ_self _⟩
    · rw [name?_nameSection hxs] at hn
      exact Or.inl ⟨g, hx, hn, counter_le_nameSection hw hks g⟩

/-! ### New names -/

/-- After a section was named, a section has the name it had or is named alone. -/
theorem named_nameSection (ha : a.Numbered) (hw : a.WellFormed) (hks : a.kind? t = some .section)
    {n : Text} (hn : (a.nameSection t).name? s = some n) :
    a.name? s = some n ∨
      (∃ type number, n = generatedName type number) ∧ (a.nameSection t).NamedAlone s := by
  by_cases hst : s = t
  · subst hst
    rcases nameSection_cases hw hks with hsame | ⟨p, type, hp, -, hname, -⟩
    · rw [hsame] at hn
      exact Or.inl hn
    · refine Or.inr ⟨⟨type, a.counter p, Option.some.inj (hn.symm.trans hname)⟩, ?_⟩
      intro g s' hs hs' hne
      rw [holds_nameSection] at hs hs'
      rw [hs.unique hw (.of_parent hw hks hp)] at hs'
      rw [name?_nameSection hne, hname]
      exact ha.fresh hs' (Nat.le_refl _) type
  · rw [name?_nameSection hst] at hn
    exact Or.inl hn

/-- A new section that comes without a name is named alone. -/
private theorem namedAlone_hangSection (ha : a.Numbered) (hw : a.WellFormed)
    (hg : a.kind? g = some .sectionType) : (a.hangSection g type none).NamedAlone a.size := by
  have hlt := lt_size_of_kind? hg
  have hwb := hw.modifyContent (Content.kind_withCounter (a.counter g + 1)) g
  intro q s' hs hs' hne
  -- it is held by the group it was made for, and the other one was there before
  have hold : ∀ {x}, (a.hangSection g type none).Holds q x → a.Holds q x ∨ q = g ∧ x = a.size := by
    intro x hx
    rcases Holds.of_hang hwb (by rwa [size_modifyContent]) hx with hx | ⟨rfl, -, hx, -⟩
    · exact Or.inl ((holds_modifyContent (Content.kind_withCounter _) g).mp hx)
    · exact Or.inr ⟨rfl, by rw [hx, size_modifyContent]⟩
  have hqg : q = g := by
    rcases hold hs with hs | hs
    · exact absurd (lt_size_of_kind? hs.2.2) (Nat.lt_irrefl _)
    · exact hs.1
  rcases hold hs' with hs' | hs'
  · rw [name?_hangSection hlt, name?_hangSection hlt, if_neg hne, if_pos rfl]
    exact ha.fresh hs' (hqg ▸ Nat.le_refl _) type
  · exact absurd hs'.2 hne

/-- After a section came in, a name that looks generated is that of an old node or of a section
that is named alone. -/
theorem named_hangSection (ha : a.Numbered) (hw : a.WellFormed)
    (hg : a.kind? g = some .sectionType) (hname : ∀ n ∈ name, n.head? ≠ some '@') {n : Text}
    (hn : (a.hangSection g type name).name? s = some n) (hat : n.head? = some '@') :
    s ≠ a.size ∧ a.name? s = some n ∨
      (∃ number, n = generatedName type number) ∧ (a.hangSection g type name).NamedAlone s := by
  rw [name?_hangSection (lt_size_of_kind? hg)] at hn
  split at hn
  · next hs =>
    cases name with
    | none =>
      exact Or.inr ⟨⟨a.counter g, (Option.some.inj hn).symm⟩,
        hs ▸ ha.namedAlone_hangSection hw hg⟩
    | some m => exact absurd hat (Option.some.inj hn ▸ hname m rfl)
  · next hs => exact Or.inl ⟨hs, hn⟩

end Numbered
end Arena
end Uci
