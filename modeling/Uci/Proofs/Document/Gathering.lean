import Mathlib.Data.List.Induction
import Mathlib.Data.List.Nodup

/-!
# Gathering by keys

What belongs together may stand scattered over a list.  Gathered by their keys, the members
of a list stand key by key, the keys in the order in which they first appear, and below each
key all its members in their order.  One more member at the end of the list goes behind the
members of its key, or comes in last with a key of its own.

## Main definitions

* `upsert` — changes the first member with a property, or adds one.
* `gather` — the members of a list, key by key.

## Main results

* `gather_append_singleton` — **what one more member does.**
-/

namespace Uci

/-! ### Changing a member, or adding one -/

section Upsert

variable {α β : Type} {p : α → Prop} [DecidablePred p] {q : β → Prop} [DecidablePred q]
  {f : α → α} {new : α} {l m : List α}

/-- Changes the first member with a property.  If none has it, a new one comes in at the end. -/
def upsert (p : α → Prop) [DecidablePred p] (f : α → α) (new : α) : List α → List α
  | [] => [new]
  | a :: l => if p a then f a :: l else a :: upsert p f new l

/-- Members without the property are passed over. -/
private theorem upsert_append (h : ∀ a ∈ l, ¬ p a) (m : List α) :
    upsert p f new (l ++ m) = l ++ upsert p f new m := by
  induction l with
  | nil => rfl
  | cons a l ih =>
    obtain ⟨ha, hl⟩ := List.forall_mem_cons.mp h
    rw [List.cons_append, upsert, if_neg ha, ih hl]
    rfl

theorem upsert_of_forall_not (h : ∀ a ∈ l, ¬ p a) : upsert p f new l = l ++ [new] := by
  have hpass : upsert p f new (l ++ []) = l ++ upsert p f new [] := upsert_append h []
  rwa [List.append_nil] at hpass

theorem upsert_middle (h : ∀ a ∈ l, ¬ p a) {a : α} (ha : p a) :
    upsert p f new (l ++ a :: m) = l ++ f a :: m := by
  rw [upsert_append h, upsert, if_pos ha]

/-- Lists that show the same members are changed alike. -/
theorem map_upsert {g : α → β} {f' : β → β} {new' : β} (hp : ∀ a ∈ l, (p a ↔ q (g a)))
    (hf : ∀ a ∈ l, p a → g (f a) = f' (g a)) (hnew : (∀ a ∈ l, ¬ p a) → g new = new') :
    (upsert p f new l).map g = upsert q f' new' (l.map g) := by
  induction l with
  | nil => exact congrArg (fun b => [b]) (hnew (List.forall_mem_nil _))
  | cons a l ih =>
    obtain ⟨hpa, hpl⟩ := List.forall_mem_cons.mp hp
    obtain ⟨hfa, hfl⟩ := List.forall_mem_cons.mp hf
    rw [List.map_cons, upsert, upsert]
    by_cases ha : p a
    · rw [if_pos ha, if_pos (hpa.mp ha), List.map_cons, hfa ha]
    · have hrest := ih hpl hfl fun hl => hnew (List.forall_mem_cons.mpr ⟨ha, hl⟩)
      rw [if_neg ha, if_neg (mt hpa.mpr ha), List.map_cons, hrest]

end Upsert

/-! ### The members of a list, key by key -/

section Gather

variable {α κ : Type} [DecidableEq κ] {key : α → κ} {l : List α} {a : α} {k : κ}

/-- **The members of a list, key by key.** -/
def gather (key : α → κ) (l : List α) : List (κ × List α) :=
  (l.map key).eraseDups.map fun k => (k, l.filter (key · = k))

/-- Below a key stand all members that have it. -/
theorem eq_filter_of_mem_gather {x : κ × List α} (hx : x ∈ gather key l) :
    x.2 = l.filter (key · = x.1) := by
  obtain ⟨k, -, rfl⟩ := List.mem_map.mp hx
  rfl

/-- No key comes without members. -/
theorem ne_nil_of_mem_gather {x : κ × List α} (hx : x ∈ gather key l) : x.2 ≠ [] := by
  obtain ⟨k, hk, rfl⟩ := List.mem_map.mp hx
  obtain ⟨a, ha, rfl⟩ := List.mem_map.mp (List.mem_eraseDups.mp hk)
  exact List.ne_nil_of_mem (List.mem_filter.mpr ⟨ha, decide_eq_true rfl⟩)

/-- Every member stands below its key. -/
theorem exists_mem_gather (key : α → κ) (ha : a ∈ l) : ∃ x ∈ gather key l, x.1 = key a :=
  ⟨_, List.mem_map_of_mem (List.mem_eraseDups.mpr (List.mem_map_of_mem ha)), rfl⟩

/-- A key that does not come has no members. -/
theorem filter_eq_nil_of_gather (h : ∀ x ∈ gather key l, x.1 ≠ k) :
    l.filter (key · = k) = [] := by
  refine List.filter_eq_nil_iff.mpr ?_
  intro a ha hk
  obtain ⟨x, hx, hkey⟩ := exists_mem_gather key ha
  exact h x hx (hkey.trans (of_decide_eq_true hk))

/-- The members of a key are found below it. -/
theorem elim_find?_gather {β : Type} (key : α → κ) (l : List α) (k : κ) (f : List α → β) :
    ((gather key l).find? (·.1 = k)).elim (f []) (fun x => f x.2) =
      f (l.filter (key · = k)) := by
  cases hfind : (gather key l).find? (·.1 = k) with
  | none =>
    rw [filter_eq_nil_of_gather fun x hx heq =>
      List.find?_eq_none.mp hfind x hx (decide_eq_true heq)]
    rfl
  | some x =>
    have hkey : x.1 = k := by simpa using List.find?_some hfind
    rw [← hkey, ← eq_filter_of_mem_gather (List.mem_of_find?_eq_some hfind)]
    rfl

private theorem eraseDups_append_singleton (ks : List κ) (k : κ) :
    (ks ++ [k]).eraseDups = if k ∈ ks then ks.eraseDups else ks.eraseDups ++ [k] := by
  rw [List.eraseDups_append, List.removeAll, List.filter_cons]
  by_cases hk : k ∈ ks
  · simp [hk]
  · simp [hk, List.eraseDups_cons]

private theorem nodup_eraseDups (ks : List κ) : ks.eraseDups.Nodup := by
  induction ks using List.reverseRecOn with
  | nil => exact List.nodup_nil
  | append_singleton ks k ih =>
    rw [eraseDups_append_singleton]
    split
    · exact ih
    · next hk =>
      refine List.nodup_append.mpr ⟨ih, List.nodup_singleton k, ?_⟩
      intro x hx y hy hxy
      rw [hxy, List.mem_singleton.mp hy] at hx
      exact hk (List.mem_eraseDups.mp hx)

/-- A member of another key does not come in. -/
private theorem filter_append_singleton (hk : key a ≠ k) :
    (l ++ [a]).filter (key · = k) = l.filter (key · = k) := by
  rw [List.filter_append, List.filter_singleton, decide_eq_false hk]
  exact List.append_nil _

/-- **One more member** goes behind those of its key, or comes in last with a key of its own. -/
theorem gather_append_singleton (key : α → κ) (l : List α) (a : α) :
    gather key (l ++ [a]) =
      upsert (·.1 = key a) (fun x => (x.1, x.2 ++ [a])) (key a, [a]) (gather key l) := by
  have hself : (l ++ [a]).filter (key · = key a) = l.filter (key · = key a) ++ [a] := by
    rw [List.filter_append, List.filter_singleton, decide_eq_true rfl]
    rfl
  -- other keys keep their members
  have hother : ∀ ks : List κ, key a ∉ ks →
      (ks.map fun k => (k, (l ++ [a]).filter (key · = k))) =
        ks.map fun k => (k, l.filter (key · = k)) := by
    intro ks hks
    refine List.map_congr_left fun k hk => ?_
    rw [filter_append_singleton]
    rintro rfl
    exact hks hk
  have hfirsts : ∀ ks : List κ, key a ∉ ks →
      ∀ x ∈ ks.map fun k => (k, l.filter (key · = k)), ¬ x.1 = key a := by
    intro ks hks x hx heq
    obtain ⟨k, hk, rfl⟩ := List.mem_map.mp hx
    cases heq
    exact hks hk
  unfold gather
  rw [List.map_append, List.map_singleton, eraseDups_append_singleton]
  by_cases hmem : key a ∈ l.map key
  · rw [if_pos hmem]
    -- the key stands at one place among the others
    obtain ⟨front, back, hsplit⟩ := List.append_of_mem (List.mem_eraseDups.mpr hmem)
    have hnodup := nodup_eraseDups (l.map key)
    rw [hsplit, List.nodup_append] at hnodup
    obtain ⟨-, hback, hfront⟩ := hnodup
    have hnotfront : key a ∉ front := fun h => hfront _ h _ (List.mem_cons_self ..) rfl
    rw [hsplit, List.map_append, List.map_cons, List.map_append, List.map_cons,
      hother front hnotfront, hother back (List.nodup_cons.mp hback).1, hself,
      upsert_middle (hfirsts front hnotfront) rfl]
  · have hnone : l.filter (key · = key a) = [] :=
      List.filter_eq_nil_iff.mpr fun x hx heq =>
        hmem (List.mem_map.mpr ⟨x, hx, of_decide_eq_true heq⟩)
    have hnew : key a ∉ (l.map key).eraseDups := mt List.mem_eraseDups.mp hmem
    rw [if_neg hmem, List.map_append, List.map_singleton, hother _ hnew, hself, hnone,
      upsert_of_forall_not (hfirsts _ hnew)]
    rfl

end Gather
end Uci
