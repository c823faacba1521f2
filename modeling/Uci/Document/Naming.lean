import Uci.Document.Edit

/-!
# Types and generated names

All sections of one type hang below one group. Giving a section another type
therefore renames its whole group; if another group has that type already, the two
are merged into the earlier one. A section without a name of its own gets a
generated one, `@type[n]`, with the next number of its group. The numbers of a
group only grow, so that no name comes back after its section was removed.

* `generatedName`, `isGeneratedName` — the form of generated names.
* `Arena.nameSection` — gives a section a generated name if it needs one.
* `Arena.mergeGroups` — folds groups of one type into the first of them.
* `Document.addSection`, `Document.setSectionType` — the edits.
-/

namespace Uci

/-- The generated name with number `n` for sections of the type `type`. -/
def generatedName (type : Text) (n : Nat) : Text :=
  '@' :: type ++ '[' :: Nat.toDigits 10 n ++ [']']

/-- The number in a generated name for sections of the type `type`, as it is
written; any digits at all make one. -/
def generatedDigits? (type name : Text) : Option Text := do
  let rest ← ('@' :: type ++ ['[']).isPrefixOf? name
  let digits ← [']'].isSuffixOf? rest
  if !digits.isEmpty && digits.all Char.isDigit then some digits else none

/-- Whether the name is a generated one for the type `type`. -/
def isGeneratedName (type name : Text) : Bool := (generatedDigits? type name).isSome

/-- Whether a section of the type `type` has to get a generated name: if it has no
name yet, or one that was generated for another type. -/
def needsGeneratedName (type : Text) : Option Text → Bool
  | none => true
  | some name => name.head? = some '@' && !isGeneratedName type name

namespace Arena

/-- Gives a section the next generated name of its group, if it needs one. -/
def nameSection (a : Arena) (s : Handle) : Arena :=
  match a.parent? s with
  | none => a
  | some group =>
    match a.name? group with
    | none => a
    | some type =>
      if needsGeneratedName type (a.name? s) then
        (a.modifyContent group (·.withCounter (a.counter group + 1))).modifyContent s
          (·.withName (generatedName type (a.counter group)))
      else a

/-- Folds a group into another one: its sections go behind those of `target`, the
higher counter counts on, and the emptied group is removed. -/
def absorb (a : Arena) (target group : Handle) : Arena :=
  ((a.moveChildren group target).modifyContent target fun c =>
    c.withCounter (max c.counter (a.counter group))).detach group

/-- One step of `mergeGroups`: a group is either the first of its type or is folded
into that. `firsts` maps the types met so far to their first groups. -/
def mergeStep (acc : Arena × List (Text × Handle)) (group : Handle) :
    Arena × List (Text × Handle) :=
  match acc.1.name? group with
  | none => acc
  | some type =>
    match acc.2.lookup type with
    | none => (acc.1, (type, group) :: acc.2)
    | some first => (acc.1.absorb first group, acc.2)

/-- **Merges groups**: every live group below `config` is folded into the first one
of the same type. -/
def mergeGroups (a : Arena) (config : Handle) : Arena :=
  ((a.liveChildren config).foldl mergeStep (a, [])).1

end Arena

namespace Document

/-- The group of the sections of a type. -/
def groupNamed? (d : Document) (config : Handle) (type : Text) : Option Handle :=
  d.arena.childNamed? config type

/-- What has to hold before a section is added. Found out on the way: where it will
hang, and the group of its type if there is one. -/
def checkAddSection (parent : Handle) (type : Text) (name : Option Text) (d : Document) :
    Except Refusal (Handle × Option Handle) := do
  let config ← d.sectionParent parent
  checkWord .sectionType type
  name.forM checkSectionName
  match d.groupNamed? config type, name with
  | some group, some n => d.checkUnused group n none
  | _, _ => .ok ()
  return (config, d.groupNamed? config type)

/-- What adding a section changes: it hangs below the group of its type, which is made
first if need be, and gets a generated name if it came without one. -/
def attachSection (config : Handle) (group : Option Handle) (type : Text) (name : Option Text)
    (d : Document) : Handle × Document :=
  match group with
  | some g =>
    let (s, d) := d.attach g (.section name)
    (s, d.mapArena (·.nameSection s))
  | none =>
    let (g, d) := d.attach config (.sectionType (some type) 0)
    let (s, d) := d.attach g (.section name)
    (s, d.mapArena (·.nameSection s))

/-- The group of a type: the one that is there, or a new one. -/
def openGroup (config : Handle) (existing : Option Handle) (type : Text) : Edit Handle :=
  match existing with
  | some group => pure group
  | none => Edit.write (attach config (.sectionType (some type) 0))

/-- **Adds a section** at the end of the group of its type. The parent is the root
or the configuration. -/
def addSection (parent : Handle) (type : Text) (name : Option Text) : Edit Handle := do
  let (config, existing) ← Edit.read (checkAddSection parent type name)
  let group ← openGroup config existing type
  let s ← Edit.write (attach group (.section name))
  Edit.write fun d => ((), d.mapArena (·.nameSection s))
  return s

/-- No section with a name of its own, out of those of `source`, meets a section of
that name in `target`. -/
def checkMerge (d : Document) (source target : Handle) : Except Refusal Unit :=
  (d.arena.liveChildren source).forM fun s =>
    match d.arena.name? s with
    | none => .ok ()
    | some name =>
      if name.head? = some '@' then .ok () else d.checkUnused target name none

/-- What has to hold before a section gets another type. Found out on the way: its
group, and the configuration. -/
def checkSetSectionType (s : Handle) (type : Text) (d : Document) :
    Except Refusal (Handle × Handle) := do
  let group ← d.groupOf s
  checkWord .sectionType type
  let config ← d.configuration
  match d.groupNamed? config type with
  | some other => if other ≠ group then d.checkMerge group other
  | none => .ok ()
  return (group, config)

/-- **Gives a section another type**, and with it every section of its group. Two
groups of that type become one, and a name that was generated for the old type is
replaced; other sections of the group keep theirs. -/
def setSectionType (s : Handle) (type : Text) : Edit Unit := do
  let (group, config) ← Edit.read (checkSetSectionType s type)
  Edit.write (rename group type)
  Edit.write fun d => ((), d.mapArena (·.mergeGroups config))
  Edit.write fun d => ((), d.mapArena (·.nameSection s))

/-! ### The writes of an edit as one change -/

theorem run_addSection (parent : Handle) (type : Text) (name : Option Text) (d : Document) :
    (addSection parent type name).run d =
      (Edit.guarded (checkAddSection parent type name)
        fun (config, group) => attachSection config group type name).run d := by
  rw [addSection, Edit.guarded, Edit.run_bind, Edit.run_bind, Edit.run_read]
  rcases checkAddSection parent type name d with e | ⟨config, _ | group⟩ <;> rfl

theorem run_setSectionType (s : Handle) (type : Text) (d : Document) :
    (setSectionType s type).run d =
      (Edit.guarded (checkSetSectionType s type) fun (group, config) d =>
        ((), d.mapArena fun a =>
          ((a.modifyContent group (·.withName type)).mergeGroups config).nameSection s)).run d := by
  rw [setSectionType, Edit.guarded, Edit.run_bind, Edit.run_bind, Edit.run_read]
  rcases checkSetSectionType s type d with e | ⟨group, config⟩ <;> rfl

end Document
end Uci
