import Uci.Document.Lookup
import Uci.Document.Outline
import Uci.Document.Print
import Uci.Document.Walk
import Uci.Proofs.Document.History

/-!
# Sheets

A document without its past: the live nodes as a plain nested list.  This module says
what the list is, what an edit of it is, and what can be read off it, all without any
arena; that documents keep to it is the business of the modules behind.

* `Sheet` — the package, and the type groups with their sections, entries and elements.
* `Document.sheet` — the sheet of a document.
* `Sheet.edited` — an edit of a sheet.
* `Sheet.sections`, `.below`, `.nexts`, `.find`, `.listValues`, `.outline`, `.print` — readings
  of a sheet.
-/

namespace Uci
namespace Sheet

/-- An element of a list. -/
structure Element where
  handle : Handle
  value : Text
  deriving DecidableEq, Repr

/-- What an entry is, and holds. -/
inductive Body where
  | option (value : Text)
  | list (elements : List Element)
  deriving DecidableEq, Repr

/-- An option or a list. -/
structure Entry where
  handle : Handle
  name : Text
  body : Body
  deriving DecidableEq, Repr

/-- A section with its entries. -/
structure Section where
  handle : Handle
  name : Text
  entries : List Entry
  deriving DecidableEq, Repr

/-- A type group with its sections. -/
structure Group where
  handle : Handle
  type : Text
  sections : List Section
  deriving DecidableEq, Repr

end Sheet

/-- **Sheet**: a document as a plain nested list. -/
structure Sheet where
  package : Option Text
  groups : List Sheet.Group
  deriving DecidableEq, Repr

/-! ### The sheet of a document -/

namespace Arena

/-- A live element of a list. -/
def sheetElement (a : Arena) (h : Handle) : Sheet.Element := ⟨h, (a.value? h).getD []⟩

/-- What a live entry holds. -/
def sheetBody (a : Arena) (h : Handle) : Sheet.Body :=
  if a.kind? h = some .list then .list ((a.liveChildren h).map a.sheetElement)
  else .option ((a.value? h).getD [])

/-- A live option or list. -/
def sheetEntry (a : Arena) (h : Handle) : Sheet.Entry := ⟨h, (a.name? h).getD [], a.sheetBody h⟩

/-- A live section with its live entries. -/
def sheetSection (a : Arena) (h : Handle) : Sheet.Section :=
  ⟨h, (a.name? h).getD [], (a.liveChildren h).map a.sheetEntry⟩

/-- A live group with its live sections. -/
def sheetGroup (a : Arena) (h : Handle) : Sheet.Group :=
  ⟨h, (a.name? h).getD [], (a.liveChildren h).map a.sheetSection⟩

end Arena

/-- **The sheet of a document.** -/
def Document.sheet (d : Document) : Sheet :=
  ⟨d.package, (d.arena.liveChildren 1).map d.arena.sheetGroup⟩

/-! ### Edits of a sheet -/

namespace Sheet

/-- Changes the elements of a list; an option has none. -/
def Entry.mapElements (f : Element → Element) (e : Entry) : Entry :=
  match e.body with
  | .option _ => e
  | .list elements => { e with body := .list (elements.map f) }

/-- Changes the entries of a section. -/
def Section.mapEntries (f : Entry → Entry) (s : Section) : Section :=
  { s with entries := s.entries.map f }

/-- Changes the sections of a group. -/
def Group.mapSections (f : Section → Section) (g : Group) : Group :=
  { g with sections := g.sections.map f }

/-- Changes the groups. -/
def mapGroups (f : Group → Group) (S : Sheet) : Sheet := { S with groups := S.groups.map f }

/-- Changes the group of a handle, and no other. -/
def onGroup (h : Handle) (f : Group → Group) : Sheet → Sheet :=
  mapGroups fun g => if g.handle = h then f g else g

/-- Changes the section of a handle, and no other. -/
def onSection (h : Handle) (f : Section → Section) : Sheet → Sheet :=
  mapGroups (·.mapSections fun s => if s.handle = h then f s else s)

/-- Changes the entry of a handle, and no other. -/
def onEntry (h : Handle) (f : Entry → Entry) : Sheet → Sheet :=
  mapGroups (·.mapSections (·.mapEntries fun e => if e.handle = h then f e else e))

/-- Changes the element of a handle, and no other. -/
def onElement (h : Handle) (f : Element → Element) : Sheet → Sheet :=
  mapGroups (·.mapSections (·.mapEntries (·.mapElements fun e => if e.handle = h then f e else e)))

/-- Puts a section behind those of its type, or into a new group at the end. -/
def addSection (fresh : Handle) (type name : Text) (S : Sheet) : Sheet :=
  match S.groups.find? (·.type = type) with
  | some g => S.onGroup g.handle fun g => { g with sections := g.sections ++ [⟨fresh, name, []⟩] }
  | none => { S with groups := S.groups ++ [⟨fresh, type, [⟨fresh + 1, name, []⟩]⟩] }

/-- Puts an entry behind those of its section. -/
def addEntry (s : Handle) (e : Entry) : Sheet → Sheet :=
  onSection s fun s => { s with entries := s.entries ++ [e] }

/-- Puts an element behind those of its list. -/
def addElement (l : Handle) (x : Element) : Sheet → Sheet :=
  onEntry l fun e =>
    match e.body with
    | .option _ => e
    | .list elements => { e with body := .list (elements ++ [x]) }

/-- Gives an option another value; a list has none. -/
def Entry.withValue (value : Text) (e : Entry) : Entry :=
  match e.body with
  | .option _ => { e with body := .option value }
  | .list _ => e

/-- Takes an element out of a list. -/
def Entry.remove (h : Handle) (e : Entry) : Entry :=
  match e.body with
  | .option _ => e
  | .list elements => { e with body := .list (elements.filter (·.handle ≠ h)) }

/-- Takes an entry, or something below one, out of a section. -/
def Section.remove (h : Handle) (s : Section) : Section :=
  { s with entries := (s.entries.filter (·.handle ≠ h)).map (·.remove h) }

/-- Takes an entry, and nothing else, out of a section. -/
def Section.without (h : Handle) (s : Section) : Section :=
  { s with entries := s.entries.filter (·.handle ≠ h) }

/-- Takes a section, or something below one, out of a group. -/
def Group.remove (h : Handle) (g : Group) : Group :=
  { g with sections := (g.sections.filter (·.handle ≠ h)).map (·.remove h) }

/-- Takes out what has the handle, with all that is below it. -/
def remove (h : Handle) (S : Sheet) : Sheet :=
  { S with groups := (S.groups.filter (·.handle ≠ h)).map (·.remove h) }

/-- **An edit of a sheet.**  The handles from `fresh` on are not in use yet, and `number`
is the next number for generated names of a type.  Giving a section another type is not
an edit of one place and is left out here. -/
def edited (fresh : Handle) (number : Text → Nat) (S : Sheet) : Operation → Sheet
  | .setPackage package => { S with package }
  | .addSection _ type name =>
    S.addSection fresh type (name.getD (generatedName type (number type)))
  | .addOption s name value => S.addEntry s ⟨fresh, name, .option value⟩
  | .addList s name => S.addEntry s ⟨fresh, name, .list []⟩
  | .addElement l value => S.addElement l ⟨fresh, value⟩
  | .remove h => S.remove h
  | .setSectionType _ _ => S
  | .setSectionName s name => S.onSection s ({ · with name })
  | .setOptionName h name | .setListName h name => S.onEntry h ({ · with name })
  | .setOptionValue h value => S.onEntry h (·.withValue value)
  | .setElementValue h value => S.onElement h ({ · with value })

end Sheet

namespace Sheet

/-- **The answer of an addition**: the handle of what came in. -/
def answer (fresh : Handle) (S : Sheet) : Operation → Option Handle
  | .addSection _ type _ => some (if S.groups.any (·.type = type) then fresh else fresh + 1)
  | .addOption _ _ _ | .addList _ _ | .addElement _ _ => some fresh
  | _ => none

end Sheet

/-! ### Readings of a sheet -/

namespace Sheet

/-- What has a handle in a document: the two root levels, and what is on its sheet. -/
inductive Item where
  | root
  | config
  | group
  | section (s : Section)
  | entry (e : Entry)
  | element (x : Element)
  deriving DecidableEq, Repr

/-- The kind of the node behind an item. -/
def Item.kind : Item → NodeKind
  | root => .root
  | config => .config
  | group => .sectionType
  | .section _ => .section
  | entry ⟨_, _, .option _⟩ => .option
  | entry ⟨_, _, .list _⟩ => .list
  | element _ => .element

/-- The elements of an entry, which only a list has. -/
def Entry.elements (e : Entry) : List Element :=
  match e.body with
  | .option _ => []
  | .list elements => elements

/-- An entry, and what is below it. -/
def Entry.items (e : Entry) : List (Handle × Item) :=
  (e.handle, .entry e) :: e.elements.map fun x => (x.handle, .element x)

/-- A section, and what is below it. -/
def Section.items (s : Section) : List (Handle × Item) :=
  (s.handle, .section s) :: s.entries.flatMap Entry.items

/-- A group, and what is below it. -/
def Group.items (g : Group) : List (Handle × Item) :=
  (g.handle, .group) :: g.sections.flatMap Section.items

/-- Everything that has a handle. -/
def items (S : Sheet) : List (Handle × Item) :=
  (0, .root) :: (1, .config) :: S.groups.flatMap Group.items

/-- What has the handle `h`; nothing has it if the node was removed. -/
def item? (S : Sheet) (h : Handle) : Option Item := S.items.lookup h

/-- The handles of the sections, group after group. -/
def sections (S : Sheet) : List Handle := S.groups.flatMap (·.sections.map (·.handle))

/-- All nodes that a walk below `h` visits. -/
def below (S : Sheet) (h : Handle) : Except Refusal (List Handle) :=
  match S.item? h with
  | none => .error (.absence (.removed h))
  | some .root | some .config => .ok S.sections
  | some (.section s) => .ok (s.entries.map (·.handle))
  | some (.entry ⟨_, _, .list elements⟩) => .ok (elements.map (·.handle))
  | some i => .error (.mismatch (.walk i.kind))

/-- The first answers of a walk that has still to visit the nodes `l`. -/
def answers : Nat → List Handle → List (Except Refusal Handle)
  | 0, _ => []
  | n + 1, [] => .error .endOfWalk :: answers n []
  | n + 1, h :: l => .ok h :: answers n l

/-- The first `count` answers of the walk below `h`. -/
def nexts (S : Sheet) (h : Handle) (count : Nat) :
    Except Refusal (List (Except Refusal Handle)) :=
  (S.below h).map (answers count)

/-- The values of a list in their order. -/
def listValues (S : Sheet) (h : Handle) : Except Refusal (List Text) :=
  match S.item? h with
  | none => .error (.absence (.removed h))
  | some (.entry ⟨_, _, .list elements⟩) => .ok (elements.map (·.value))
  | some i => .error (.mismatch (.kind h i.kind .list))

/-- The first section that has the name. -/
def sectionNamed (S : Sheet) (name : Text) : Except Refusal Section :=
  match (S.groups.flatMap (·.sections)).find? (·.name = name) with
  | some s => .ok s
  | none => .error (.absence (.section name))

/-- **Lookup by names**: the configuration, a section, or an entry of a section. -/
def find (S : Sheet) : Option Text → Option Text → Except Refusal Handle
  | none, none => .ok 1
  | none, some _ => .error (.misuse .optionWithoutSection)
  | some owner, none => (S.sectionNamed owner).map (·.handle)
  | some owner, some name => do
    let s ← S.sectionNamed owner
    match s.entries.find? (·.name = name) with
    | some e => .ok e.handle
    | none => .error (.absence (.entry owner name))

/-- An entry by what it says. -/
def Entry.outline (e : Entry) : EntryOutline :=
  match e.body with
  | .option value => .option e.name value
  | .list elements => .list e.name (elements.map (·.value))

/-- A section of the type `type` by what it says. -/
def Section.outline (type : Text) (s : Section) : SectionOutline :=
  ⟨type, s.name, s.entries.map Entry.outline⟩

/-- The outline of a sheet, section by section. -/
def outline (S : Sheet) : List SectionOutline :=
  S.groups.flatMap fun g => g.sections.map (·.outline g.type)

/-- The lines of an entry. -/
def Entry.print (e : Entry) : Text :=
  match e.body with
  | .option value => Document.printedOption e.name value
  | .list elements => Document.printedList e.name (elements.map (·.value))

/-- The lines of a section of the type `type`. -/
def Section.print (type : Text) (s : Section) : Text :=
  Document.printedHeader type s.name ++ s.entries.flatMap Entry.print ++ ['\n']

/-- **The text of a sheet.** -/
def print (S : Sheet) : Text :=
  Document.printedPackage S.package ++ S.groups.flatMap fun g => g.sections.flatMap (·.print g.type)

end Sheet
end Uci
