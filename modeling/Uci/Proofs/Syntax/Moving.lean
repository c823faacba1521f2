import Uci.Proofs.Syntax.Sound

/-!
# What is said at another place

Strips say the same wherever they begin: every value and every error is found as many bytes further
on as the strips are.  Behind other strips they say it in addition to those, if they do not begin
with a line that belongs to the section above.

## Main definitions

* `Value.moved`, `Entry.moved`, `Item.moved`, `SyntaxError.moved` — the same at another place.

## Main results

* `reading_add`, `strays_add` — **strips that begin further on** say the same at other places.
* `reading_behind` — strips that need no section above them say the same behind others.
-/

namespace Uci
namespace Syntax

/-- An error at another place. -/
def SyntaxError.moved (g : Nat → Nat) (e : SyntaxError) : SyntaxError :=
  ⟨e.fault, g e.start, g e.stop⟩

/-- The value at another place. -/
def Value.moved (g : Nat → Nat) (v : Value) : Value := ⟨v.text, g v.offset⟩

/-- The entry with its values at other places. -/
def Entry.moved (g : Nat → Nat) : Entry → Entry
  | option name value => option (name.map (Value.moved g)) (value.map (Value.moved g))
  | list name value => list (name.map (Value.moved g)) (value.map (Value.moved g))

/-- **The statement with all of its values at other places.** -/
def Item.moved (g : Nat → Nat) : Item → Item
  | package name => package (name.map (Value.moved g))
  | «section» body => «section» {
      type := body.type.map (Value.moved g)
      name := body.name.map (Value.moved g)
      header := body.header
      entries := body.entries.map (Entry.moved g) }

section

variable (f g : Nat → Nat)

@[simp] theorem Value.moved_moved (v : Value) : (v.moved f).moved g = v.moved (g ∘ f) := rfl

@[simp] theorem Entry.moved_moved (e : Entry) : (e.moved f).moved g = e.moved (g ∘ f) := by
  cases e <;> simp [moved, Function.comp_def]

@[simp] theorem Item.moved_moved (i : Item) : (i.moved f).moved g = i.moved (g ∘ f) := by
  cases i <;> simp [moved, Function.comp_def]

end

/-! ### Strips that begin further on -/

/-- The values of a line that begins further on. -/
theorem values_add (n o : Nat) (ts : List Tree) :
    Tree.values (n + o) ts = (Tree.values o ts).map (Value.moved (n + ·)) := by
  unfold Tree.values
  induction ts generalizing o with
  | nil => rfl
  | cons t ts ih =>
    have hvalue : Tree.value? (n + o, t) = (Tree.value? (o, t)).map (Value.moved (n + ·)) := by
      cases t with
      | token k text => rfl
      | node k us => cases k <;> rfl
    rw [Tree.located, Tree.located, List.filterMap_cons, List.filterMap_cons, hvalue,
      Nat.add_assoc, ih]
    cases Tree.value? (o, t) <;> rfl

/-- **Strips that begin further on** say the same, at places that are further on. -/
theorem reading_add (n o : Nat) (ss : List Strip) :
    reading (n + o) ss = ((reading o ss).1.map (Entry.moved (n + ·)),
      (reading o ss).2.map (Item.moved (n + ·))) := by
  induction ss generalizing o with
  | nil => rfl
  | cons s ss ih =>
    cases s with
    | trivia t ht =>
      rw [reading, reading, Nat.add_assoc, ih]
    | clause c =>
      rw [reading, reading, Nat.add_assoc, ih, values_add]
      dsimp only
      cases c.keyword <;> simp [Entry.moved, Item.moved]

/-- So are their errors. -/
theorem strays_add (inside : Bool) (n o : Nat) (ss : List Strip) :
    strays inside (n + o) ss = (strays inside o ss).map (SyntaxError.moved (n + ·)) := by
  induction ss generalizing inside o with
  | nil => rfl
  | cons s ss ih =>
    cases s with
    | trivia t ht =>
      rw [strays, strays, Nat.add_assoc, ih]
    | clause c =>
      rw [strays, strays]
      simp only [Nat.add_assoc, ih]
      cases c.keyword with
      | package | config => rfl
      | option | list => cases inside <;> rfl

/-! ### Strips behind others -/

/-- What is nested with further strips behind it is nested. -/
theorem Nested.of_append {inside : Bool} {ss ss' : List Strip} (h : Nested inside (ss ++ ss')) :
    Nested inside ss := by
  induction ss generalizing inside with
  | nil => trivial
  | cons s ss ih =>
    cases s with
    | trivia t ht => exact ih h
    | clause c =>
      obtain ⟨k, parts⟩ := c
      cases k with
      | package | config => exact ih h
      | option | list => exact ⟨h.1, ih h.2⟩

/-- Strips that need no section above them have no entries for it. -/
theorem Nested.reading_fst {ss : List Strip} (h : Nested false ss) (o : Nat) :
    (reading o ss).1 = [] := by
  induction ss generalizing o with
  | nil => rfl
  | cons s ss ih =>
    cases s with
    | trivia t ht => exact ih h _
    | clause c =>
      obtain ⟨k, parts⟩ := c
      cases k with
      | package | config => rfl
      | option | list => exact Bool.noConfusion h.1

/-- **Strips that need no section above them** say the same behind others. -/
theorem reading_behind {ss ss' : List Strip} (h : Nested false ss') (o : Nat) :
    reading o (ss ++ ss') = ((reading o ss).1,
      (reading o ss).2 ++ (reading (o + sizeOf (ss.flatMap Strip.tokens)) ss').2) := by
  induction ss generalizing o with
  | nil => exact Prod.ext (h.reading_fst o) rfl
  | cons s ss ih =>
    rw [List.cons_append, List.flatMap_cons, sizeOf_append, ← Nat.add_assoc]
    cases s with
    | trivia t ht =>
      rw [reading, reading, ih, sizeOf_trivia]
    | clause c =>
      rw [reading, reading, ih]
      dsimp only
      cases c.keyword <;> rfl

end Syntax
end Uci
