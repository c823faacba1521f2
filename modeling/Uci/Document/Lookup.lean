import Uci.Document.Basic

/-!
# Lookups

A path names a section, or an entry of a section behind a dot. Names may themselves
contain dots: the whole path is tried as the name of a section first, then every
split at a dot from the leftmost one on, and the first that leads to something wins.

* `Document.find` — by the names of a section and of an entry.
* `splits` — every split of a path at a dot.
* `Document.query` — the node at a path.
* `Document.queryEntry` — the section and the name of an entry that need not be
  there yet.
-/

namespace Uci

/-- Every split of a text at a dot, the leftmost first. -/
def splits : Text → List (Text × Text)
  | [] => []
  | c :: t =>
    let further := (splits t).map fun (s, e) => (c :: s, e)
    if c = '.' then ([], t) :: further else further

/-- Both parts of a split, with the dot between them, are the whole. -/
theorem splits_append {t s e : Text} (h : (s, e) ∈ splits t) : s ++ '.' :: e = t := by
  induction t generalizing s with
  | nil => simp [splits] at h
  | cons c t ih =>
    simp only [splits] at h
    have further : ∀ {s}, (s, e) ∈ (splits t).map (fun p => (c :: p.1, p.2)) →
        s ++ '.' :: e = c :: t := by
      intro s hs
      simp only [List.mem_map, Prod.mk.injEq] at hs
      obtain ⟨⟨s', e'⟩, hm, rfl, rfl⟩ := hs
      simp [ih hm]
    split at h
    · next hc =>
      rcases List.mem_cons.1 h with h | h
      · simp_all
      · exact further h
    · exact further h

/-- The first lookup that does not end in an absence, and `fallback` if none does. -/
def firstPresent {α β : Type} (look : β → Except Refusal α) (fallback : Refusal) :
    List β → Except Refusal α
  | [] => .error fallback
  | k :: ks =>
    match look k with
    | .ok a => .ok a
    | .error e => if e.isAbsence then firstPresent look fallback ks else .error e

namespace Document

/-- The first section that has the name. -/
def sectionNamed (d : Document) (name : Text) : Except Refusal Handle :=
  match d.sections.find? fun s => d.arena.name? s = some name with
  | some s => .ok s
  | none => .error (.absence (.section name))

/-- The entry of a name in the first section of a name. -/
def entryNamed (d : Document) (owner name : Text) : Except Refusal Handle := do
  let s ← d.sectionNamed owner
  match d.arena.childNamed? s name with
  | some h => .ok h
  | none => .error (.absence (.entry owner name))

/-- **Lookup by names**: the configuration, a section, or an entry of a section. -/
def find (d : Document) (owner name : Option Text) : Except Refusal Handle := do
  let config ← d.configuration
  match owner, name with
  | none, none => return config
  | none, some _ => .error (.misuse .optionWithoutSection)
  | some s, none => d.sectionNamed s
  | some s, some e => d.entryNamed s e

/-- A path is not empty and neither begins nor ends with a dot. -/
def checkPath (path : Text) : Except Refusal Unit :=
  if path.isEmpty ∨ path.head? = some '.' ∨ path.getLast? = some '.' then
    .error (.misuse (.malformedPath path))
  else .ok ()

/-- The readings of a path, in the order in which they are tried. -/
def readings (path : Text) : List (Text × Option Text) :=
  (path, none) :: (splits path).map fun (s, e) => (s, some e)

/-- **The node at a path**; the empty path is the configuration. -/
def query (d : Document) (path : Text) : Except Refusal Handle :=
  if path.isEmpty then d.find none none
  else do
    checkPath path
    firstPresent (fun (s, e) => d.find (some s) e) (.absence (.atPath path)) (readings path)

/-- **The section and the entry that a path names.** The section is the first one
that is there; the entry need not be. -/
def queryEntry (d : Document) (path : Text) : Except Refusal (Handle × Text) := do
  checkPath path
  if (splits path).isEmpty then .error (.misuse (.pathWithoutOption path))
  else
    firstPresent (fun (s, e) => (d.find (some s) none).map ((·, e)))
      (.absence (.sectionOnPath path)) (splits path)

end Document
end Uci
