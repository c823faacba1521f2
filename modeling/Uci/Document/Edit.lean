import Uci.Document.Basic

/-!
# Edits

An edit reads and changes a document. It ends in a result or a refusal, and leaves
a document behind in either case: a refusal ends an edit, but takes nothing back that
was written before it. So every edit makes its checks first.

* `Edit`, `Edit.run` — edits, and an edit applied to a document.
* `Edit.read`, `Edit.write` — what edits are made of: the one may refuse, the other
  may change the document.
* `Edit.guarded` — a check with a change behind it.
* `Document.setPackage`, `Document.addOption`, `Document.remove`, … — the edits of
  nodes. Sections, which may bring a group with them, are in
  `Uci.Document.Naming`.
-/

namespace Uci

/-- **Edit**: from a document to a result or a refusal, and a document. -/
abbrev Edit (α : Type) := ExceptT Refusal (StateM Document) α

namespace Edit

/-- The result of an edit on a document, and the document it leaves. -/
def run {α : Type} (e : Edit α) (d : Document) : Except Refusal α × Document :=
  StateT.run (ExceptT.run e) d

/-- Reads from the document and changes nothing. -/
def read {α : Type} (r : Document → Except Refusal α) : Edit α := ExceptT.mk fun d => (r d, d)

/-- Changes the document and refuses nothing. -/
def write {α : Type} (change : Document → α × Document) : Edit α :=
  ExceptT.mk fun d => (.ok (change d).1, (change d).2)

/-- **A check with a change behind it.** The change takes what the check found out,
and is not made if the check refuses. -/
def guarded {α β : Type} (check : Document → Except Refusal α)
    (change : α → Document → β × Document) : Edit β := do
  let a ← read check
  write (change a)

variable {α β : Type}

@[simp] theorem run_pure (a : α) (d : Document) : run (pure a) d = (.ok a, d) := rfl

theorem run_bind (e : Edit α) (f : α → Edit β) (d : Document) :
    run (e >>= f) d =
      match run e d with
      | (.ok a, d₁) => run (f a) d₁
      | (.error r, d₁) => (.error r, d₁) := by
  change (ExceptT.bindCont f (run e d).1) (run e d).2 = _
  rcases run e d with ⟨_ | _, _⟩ <;> rfl

@[simp] theorem run_read (r : Document → Except Refusal α) (d : Document) :
    run (read r) d = (r d, d) := rfl

@[simp] theorem run_write (change : Document → α × Document) (d : Document) :
    run (write change) d = (.ok (change d).1, (change d).2) := rfl

theorem run_guarded (check : Document → Except Refusal α) (change : α → Document → β × Document)
    (d : Document) :
    run (guarded check change) d =
      match check d with
      | .ok a => (.ok (change a d).1, (change a d).2)
      | .error e => (.error e, d) := by
  rw [guarded, run_bind, run_read]
  cases check d <;> rfl

end Edit

namespace Document

/-! ### Changes of the tree -/

/-- Changes the nodes and keeps the package. -/
def mapArena (f : Arena → Arena) (d : Document) : Document := { d with arena := f d.arena }

/-- Hangs a new node below `parent`. -/
def attach (parent : Handle) (c : Content) (d : Document) : Handle × Document :=
  (d.allocated, d.mapArena fun a => (a.create c).link parent a.size)

/-- Gives a node another name. -/
def rename (h : Handle) (name : Text) (d : Document) : Unit × Document :=
  ((), d.mapArena (·.modifyContent h (·.withName name)))

/-- Gives a node another value. -/
def revalue (h : Handle) (value : Text) (d : Document) : Unit × Document :=
  ((), d.mapArena (·.modifyContent h (·.withValue value)))

/-! ### Edits -/

/-- States the package that the file belongs to, or that it belongs to none. -/
def setPackage (package : Option Text) : Edit Unit :=
  Edit.guarded (fun _ => package.forM (checkWord .packageName))
    fun _ d => ((), { d with package })

/-- Adds an option at the end of a section. -/
def addOption (parent : Handle) (name value : Text) : Edit Handle :=
  Edit.guarded
    (fun d => do
      d.checkHolds parent .option
      checkWord .optionName name
      d.checkUnused parent name none)
    fun _ => attach parent (.option (some name) (some value))

/-- Adds a list without elements at the end of a section. -/
def addList (parent : Handle) (name : Text) : Edit Handle :=
  Edit.guarded
    (fun d => do
      d.checkHolds parent .list
      checkWord .listName name
      d.checkUnused parent name none)
    fun _ => attach parent (.list (some name))

/-- Adds a value at the end of a list, which may hold it already. -/
def addElement (parent : Handle) (value : Text) : Edit Handle :=
  Edit.guarded (·.checkHolds parent .element) fun _ => attach parent (.element (some value))

/-- **Removes a node** with all that hangs below it. A node that was removed before
stays removed. -/
def remove (h : Handle) : Edit Unit :=
  Edit.guarded
    (fun d => do
      let n ← d.node h
      if n.kind = .root ∨ n.kind = .config then .error (.mismatch (.removalOfRoot h)))
    fun _ d => ((), d.mapArena (·.detach h))

/-- Gives a section a name of its own, which no other section of its type has. -/
def setSectionName (s : Handle) (name : Text) : Edit Unit :=
  Edit.guarded
    (fun d => do
      let group ← d.groupOf s
      checkSectionName name
      d.checkUnused group name (some s))
    fun _ => rename s name

/-- Gives an option or a list another name, which nothing else in its section has. -/
def renameEntry (k : NodeKind) (use : WordUse) (h : Handle) (name : Text) : Edit Unit :=
  Edit.guarded
    (fun d => do
      let parent ← d.parentOf h k
      checkWord use name
      d.checkUnused parent name (some h))
    fun _ => rename h name

/-- Gives an option another name. -/
def setOptionName : Handle → Text → Edit Unit := renameEntry .option .optionName

/-- Gives a list another name. -/
def setListName : Handle → Text → Edit Unit := renameEntry .list .listName

/-- Gives an option another value. -/
def setOptionValue (h : Handle) (value : Text) : Edit Unit :=
  Edit.guarded (·.liveOf h .option) fun _ => revalue h value

/-- Gives an element of a list another value. -/
def setElementValue (h : Handle) (value : Text) : Edit Unit :=
  Edit.guarded (·.liveOf h .element) fun _ => revalue h value

end Document
end Uci
