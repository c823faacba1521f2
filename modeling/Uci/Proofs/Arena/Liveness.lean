import Uci.Proofs.Arena.Merge
import Uci.Proofs.Arena.Numbering

/-!
# What stays live

A node is live as long as the way up from it comes to the root.  So a change that leaves the
parents of old nodes as they are leaves the live ones live and the removed ones removed; a
node that is removed takes along exactly what hangs below it; and a group that is folded into
another goes alone, since what hung below it hangs below the other one from then on.

## Main definitions

* `Arena.Within a n x` — the way up from `x` leads over `n`, where `x` itself counts.

## Main results

* `isLive_congr` — liveness of old nodes depends on the parents of old nodes only.
* `isLive_detach`, `isLive_absorb` — **what a removal and the folding of a group take away**.
-/

namespace Uci
namespace Arena

variable {a b : Arena} {g h n p s x y z : Handle} {c : Content} {type : Text} {name : Option Text}

/-- **The way up** from `x` leads over `n`, where `x` itself counts. -/
def Within (a : Arena) (n x : Handle) : Prop :=
  Relation.ReflTransGen (fun x p => a.parent? x = some p) x n

theorem within_iff : a.Within n x ↔ x = n ∨ ∃ p, a.parent? x = some p ∧ a.Within n p :=
  Relation.ReflTransGen.cases_head_iff

theorem Within.self (a : Arena) (x : Handle) : a.Within x x := .refl

/-- What the way up from a live node leads over is live. -/
theorem Within.isLive (hw : a.WellFormed) (h : a.Within n x) (hx : a.isLive x = true) :
    a.isLive n = true := by
  induction h using Relation.ReflTransGen.head_induction_on with
  | refl => exact hx
  | head hp _ ih => exact ih ((hw.isLive_of_parent hp).symm.trans hx)

/-- Liveness of the nodes below a bound depends on their parents, which are below it too. -/
theorem isLive_congr (ha : a.WellFormed) (hb : b.WellFormed) {m : Handle}
    (hp : ∀ y < m, b.parent? y = a.parent? y) (hx : x < m) : b.isLive x = a.isLive x := by
  induction x using Nat.strongRecOn with
  | _ x ih =>
    rw [Bool.eq_iff_iff, hb.isLive_iff, ha.isLive_iff, hp x hx]
    refine or_congr_right (exists_congr fun q => and_congr_right fun hq => ?_)
    have hlt := ha.parent_lt x q hq
    rw [ih q hlt (Nat.lt_trans hlt hx)]

/-- What has all parents as they were has the same live nodes. -/
theorem isLive_eq (ha : a.WellFormed) (hb : b.WellFormed) (hp : ∀ y, b.parent? y = a.parent? y)
    (x : Handle) : b.isLive x = a.isLive x :=
  isLive_congr ha hb (fun y _ => hp y) (Nat.lt_succ_self x)

section

variable (hw : a.WellFormed)
include hw

/-- Only what was issued is live. -/
theorem lt_size_of_isLive (hx : a.isLive x = true) : x < a.size := by
  rcases hw.isLive_iff.mp hx with rfl | ⟨p, hp, -⟩
  · exact hw.size_pos
  · exact lt_size_of_parent? hp

theorem isLive_modifyContent {f : Content → Content} (hf : ∀ c, (f c).kind = c.kind)
    (h x : Handle) : (a.modifyContent h f).isLive x = a.isLive x :=
  isLive_eq hw (hw.modifyContent hf h) (parent?_modifyContent a h f) x

theorem isLive_nameSection (s x : Handle) : (a.nameSection s).isLive x = a.isLive x :=
  isLive_eq hw (hw.nameSection s) (parent?_nameSection a s) x

/-- An old node is live as it was when a new one comes in. -/
theorem isLive_hang (hb : (a.hang p c).WellFormed) (hp : p < a.size) (hx : x < a.size) :
    (a.hang p c).isLive x = a.isLive x :=
  isLive_congr hw hb (fun y hy => by rw [parent?_hang hp, if_neg (Nat.ne_of_lt hy)]) hx

theorem isLive_hangSection (hg : a.kind? g = some .sectionType) (hx : x < a.size) :
    (a.hangSection g type name).isLive x = a.isLive x := by
  refine isLive_congr hw (hw.hangSection hg type name) (fun y hy => ?_) hx
  rw [parent?_hangSection (lt_size_of_kind? hg), if_neg (Nat.ne_of_lt hy)]

/-- **A removal takes away what hangs below the node**, the node itself included, and nothing
else. -/
theorem isLive_detach (h0 : h ≠ 0) (h1 : h ≠ 1) (x : Handle) :
    (a.detach h).isLive x = true ↔ a.isLive x = true ∧ ¬a.Within h x := by
  induction x using Nat.strongRecOn with
  | _ x ih =>
    rw [(hw.detach h1).isLive_iff, parent?_detach]
    by_cases hxh : x = h
    · rw [if_pos hxh, hxh]
      refine iff_of_false ?_ fun hx => hx.2 (.self a h)
      rintro (hx | ⟨p, hp, -⟩)
      · exact h0 hx
      · cases hp
    · rw [if_neg hxh, hw.isLive_iff, within_iff]
      constructor
      · rintro (hx | ⟨p, hp, hlive⟩)
        · refine ⟨Or.inl hx, ?_⟩
          rintro (hh | ⟨p, hp, -⟩)
          · exact hxh hh
          · rw [hx, hw.root_parent] at hp
            cases hp
        · obtain ⟨hplive, hpwithin⟩ := (ih p (hw.parent_lt x p hp)).mp hlive
          refine ⟨Or.inr ⟨p, hp, hplive⟩, ?_⟩
          rintro (hh | ⟨q, hq, hwithin⟩)
          · exact hxh hh
          · rw [hp] at hq
            exact hpwithin (Option.some.inj hq ▸ hwithin)
      · rintro ⟨hx | ⟨p, hp, hlive⟩, hno⟩
        · exact Or.inl hx
        · exact Or.inr ⟨p, hp, (ih p (hw.parent_lt x p hp)).mpr
            ⟨hlive, fun hwithin => hno (Or.inr ⟨p, hp, hwithin⟩)⟩⟩

/-- **A group that is folded into another goes alone.** -/
theorem isLive_absorb (hx : x ∈ a.liveChildren 1) (hy : y ∈ a.liveChildren 1) (hlt : x < y)
    (z : Handle) : (a.absorb x y).isLive z = true ↔ a.isLive z = true ∧ z ≠ y := by
  have hyx : y ≠ x := Nat.ne_of_gt hlt
  have hwb := hw.absorb (hw.kind?_of_mem_groups hx) (hw.kind?_of_mem_groups hy) hlt
  have hlive : ∀ {q}, q ∈ a.liveChildren 1 → a.isLive q = true := fun hq =>
    (hw.isLive_of_parent (hw.mem_liveChildren_iff.mp hq)).trans hw.isLive_config
  induction z using Nat.strongRecOn with
  | _ z ih =>
    rw [hwb.isLive_iff, parent?_absorb hyx]
    by_cases hzy : z = y
    · rw [if_pos hzy]
      refine iff_of_false ?_ fun hz => hz.2 hzy
      rintro (hz | ⟨p, hp, -⟩)
      · rw [hzy.symm.trans hz] at hlt
        exact Nat.not_lt_zero _ hlt
      · cases hp
    · rw [if_neg hzy]
      by_cases hgiven : z ∈ a.children y ∧ a.parent? z = some y
      · -- what is handed over hangs below the other group, which is live
        rw [if_pos hgiven]
        have hxz : x < z := Nat.lt_trans hlt (hw.parent_lt z y hgiven.2)
        refine iff_of_true (Or.inr ⟨x, rfl, (ih x hxz).mpr ⟨hlive hx, Ne.symm hyx⟩⟩) ⟨?_, hzy⟩
        exact (hw.isLive_of_parent hgiven.2).trans (hlive hy)
      · rw [if_neg hgiven, hw.isLive_iff]
        have hstep : ∀ p, a.parent? z = some p →
            ((a.absorb x y).isLive p = true ↔ a.isLive p = true) := by
          intro p hp
          refine (ih p (hw.parent_lt z p hp)).trans (and_iff_left ?_)
          rintro rfl
          exact hgiven ⟨hw.mem_of_parent z p hp, hp⟩
        rw [and_iff_left hzy]
        exact or_congr_right (exists_congr fun p => and_congr_right fun hp => hstep p hp)

end

end Arena
end Uci
