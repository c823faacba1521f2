import Uci.Proofs.Document.History

/-!
# Refused operations

A refusal ends an edit where it stands and takes nothing back.  That it leaves every
document as it was, whatever handles and texts the operation names, is because each edit
makes all of its checks before its first write: no group is left behind without a
section, no counter is ahead of the names, no half of a group is under another type.

## Main definitions

* `Document.accepted` — the operations of a sequence that are not refused when their turn
  comes.

## Main results

* `play_accepted` — a sequence of operations does what its accepted ones do.
* `refused_of_reachable` — **a refused operation leaves the document as it was**, and it is
  refused exactly if the document does not accept it.
-/

namespace Uci
namespace Document

variable {d : Document}

/-- An operation is refused if and only if the document does not accept it. -/
theorem exists_error_iff (hw : d.arena.WellFormed) (op : Operation) :
    (∃ e d', op.edit.run d = (.error e, d')) ↔ ¬∃ r d', d.Accepts op r d' := by
  constructor
  · rintro ⟨e, d', hrefused⟩ ⟨r, d₁, hacc⟩
    have hrun := (Operation.run_eq_ok_iff hw).mpr hacc
    cases congrArg Prod.fst (hrefused.symm.trans hrun)
  · intro hno
    cases hrun : (op.edit.run d).1 with
    | error e => exact ⟨e, _, Prod.ext hrun rfl⟩
    | ok r => exact absurd ⟨r, _, (Operation.run_eq_ok_iff hw).mp (Prod.ext hrun rfl)⟩ hno

/-! ### Sequences of operations -/

/-- **The accepted operations** of a sequence: those that are not refused when their turn
comes. -/
def accepted : Document → List Operation → List Operation
  | _, [] => []
  | d, op :: ops =>
    match (op.edit.run d).1 with
    | .ok _ => op :: accepted (op.after d) ops
    | .error _ => accepted (op.after d) ops

/-- **A sequence of operations does what its accepted ones do.** -/
theorem play_accepted (d : Document) (ops : List Operation) :
    d.play (d.accepted ops) = d.play ops := by
  induction ops generalizing d with
  | nil => rfl
  | cons op ops ih =>
    have hplay : d.play (op :: ops) = (op.after d).play ops := rfl
    rw [hplay, accepted]
    cases hrun : (op.edit.run d).1 with
    | ok r => exact ih (op.after d)
    | error e =>
      -- the refused operation is left out, and the document is the one before it
      have hsame := Operation.after_of_error hrun
      rw [hsame]
      exact ih d

/-! ### Every document -/

/-- **A refused operation leaves the document as it was**: every node with its content, parent
and children, the counters, the package and the number of nodes.  It is refused exactly if
the document does not accept it. -/
theorem refused_of_reachable (hd : d.Reachable OnAny) (op : Operation) :
    (∀ e d', op.edit.run d = (.error e, d') → d' = d) ∧
      ((∃ e d', op.edit.run d = (.error e, d')) ↔ ¬∃ r d', d.Accepts op r d') := by
  have hw : d.arena.WellFormed := (hd.built fun _ _ _ => trivial).wellFormed
  exact ⟨fun e d' hrun => op.atomic_edit d e d' hrun, exists_error_iff hw op⟩

/-- A section cannot take its group into another type where its name is in use, and the group
keeps its type. -/
theorem refused_retyping :
    let d := empty.play [.addSection 0 "interface".toList (some "lan".toList),
      .addSection 1 "zone".toList none, .addSection 1 "zone".toList (some "lan".toList)]
    let op := Operation.setSectionType 5 "interface".toList
    d.Reachable OnAny ∧ (op.edit.run d).1 = .error (.duplicate "lan".toList 2) ∧ op.after d = d ∧
      ¬∃ r d', d.Accepts op r d' := by
  intro d op
  have hd : d.Reachable OnAny := Reachable.play .empty ⟨trivial, trivial, trivial, trivial⟩
  have hrun : (op.edit.run d).1 = .error (.duplicate "lan".toList 2) := by rfl
  obtain ⟨hsame, hrefused⟩ := refused_of_reachable hd op
  exact ⟨hd, hrun, hsame _ _ (Prod.ext hrun rfl), hrefused.mp ⟨_, _, Prod.ext hrun rfl⟩⟩

end Document
end Uci
