import Uci.Proofs.Document.Names
import Uci.Proofs.Syntax.Script

/-!
# What is written of a document

A document is written without its handles and without generated names: what is left of a
sheet is a draft, and the written form is that of a script with one block for each
section, one line for each option and for each value of a list.  What holds of the names
of a document is what the script needs: that its bare words are words, and that no header
and no line is taken for one that was there before.

## Main definitions

* `Draft` — a document as it is written.
* `Sheet.draft` — the draft of a sheet.
* `Draft.statements` — the script of a draft.
* `Draft.Writable` — drafts that can be written and read again.

## Main results

* `Sheet.print_eq` — the written form of a sheet is that of the script of its draft.
* `Document.Named.writable` — the draft of every document can be written and read again.
-/

namespace Uci

open Syntax (Line Block Statement isWord)

namespace Draft

/-- A section, with the name it was given, if it was given one. -/
structure Section where
  name : Option Text
  entries : List EntryOutline
  deriving DecidableEq, Repr

/-- The sections of a type. -/
structure Group where
  type : Text
  sections : List Section
  deriving DecidableEq, Repr

end Draft

/-- **Draft**: a document without handles and without generated names. -/
structure Draft where
  package : Option Text
  groups : List Draft.Group
  deriving DecidableEq, Repr

/-! ### The draft of a sheet -/

/-- The name of a section as it is written: a generated one is not. -/
def givenName? (name : Text) : Option Text := if name.head? = some '@' then none else some name

theorem mem_givenName?_iff {n name : Text} :
    n ∈ givenName? name ↔ name.head? ≠ some '@' ∧ name = n := by
  unfold givenName?
  split
  · next h => simp [h]
  · next h => simp [h]

namespace Sheet

/-- What is written of a section. -/
def Section.draft (s : Section) : Draft.Section := ⟨givenName? s.name, s.entries.map Entry.outline⟩

/-- What is written of a group. -/
def Group.draft (g : Group) : Draft.Group := ⟨g.type, g.sections.map Section.draft⟩

/-- **The draft of a sheet.** -/
def draft (S : Sheet) : Draft := ⟨S.package, S.groups.map Group.draft⟩

end Sheet

/-! ### The script of a draft -/

namespace EntryOutline

def name : EntryOutline → Text
  | .option name _ | .list name _ => name

/-- The lines of an entry: one for an option, one for each value of a list, and one for a list
without values. -/
def lines : EntryOutline → List Line
  | .option name value => [.option name value]
  | .list name [] => [.list name none]
  | .list name (v :: values) => (v :: values).map fun v => .list name (some v)

end EntryOutline

namespace Draft

/-- The block of a section. -/
def Section.block (type : Text) (s : Section) : Block :=
  ⟨type, s.name, s.entries.flatMap EntryOutline.lines⟩

/-- The blocks of a group. -/
def Group.blocks (g : Group) : List Statement := g.sections.map fun s => .block (s.block g.type)

/-- **The script of a draft.** -/
def statements (D : Draft) : List Statement :=
  (D.package.map Statement.package).toList ++ D.groups.flatMap Group.blocks

/-- The written form of a draft. -/
def text (D : Draft) : Text := D.statements.flatMap Statement.text

/-- The draft without the groups that have no sections. -/
def trim (D : Draft) : Draft := { D with groups := D.groups.filter (·.sections ≠ []) }

/-- What a group has of its sections alone does not tell whether the draft was trimmed. -/
theorem flatMap_groups_trim {α : Type} (f : Text → Section → α) (D : Draft) :
    (D.trim.groups.flatMap fun g => g.sections.map (f g.type)) =
      D.groups.flatMap fun g => g.sections.map (f g.type) := by
  unfold trim
  induction D.groups with
  | nil => rfl
  | cons g gs ih =>
    rw [List.flatMap_cons, ← ih, List.filter_cons]
    split
    · rw [List.flatMap_cons]
    · next h =>
      -- a group that is left out has no sections to begin with
      have hnil : g.sections = [] := by simpa using h
      rw [hnil, List.map_nil, List.nil_append]

/-- Groups without sections are not written. -/
theorem text_trim (D : Draft) : D.trim.text = D.text := by
  have hblocks : D.trim.groups.flatMap Group.blocks = D.groups.flatMap Group.blocks :=
    D.flatMap_groups_trim fun type s => Statement.block (s.block type)
  unfold text statements
  rw [hblocks]
  rfl

/-! ### Drafts that can be written -/

/-- Entries are told apart by their names, which are words. -/
structure Section.Writable (s : Section) : Prop where
  name_given : ∀ n ∈ s.name, IsGivenName n
  entry_word : ∀ e ∈ s.entries, isWord e.name = true
  entries_apart : s.entries.Pairwise fun e e' => e.name ≠ e'.name

/-- Sections that were given names are told apart by them. -/
structure Group.Writable (g : Group) : Prop where
  type_word : isWord g.type = true
  sections : ∀ s ∈ g.sections, s.Writable
  names_apart : g.sections.Pairwise fun s s' => ∀ n ∈ s.name, n ∉ s'.name

/-- **Drafts that can be written and read again.** -/
structure Writable (D : Draft) : Prop where
  package : ∀ p ∈ D.package, isWord p = true
  groups : ∀ g ∈ D.groups, g.Writable
  types_apart : D.groups.Pairwise fun g g' => g.type ≠ g'.type

/-- Every line of an entry carries its name. -/
private theorem writable_of_mem_lines {e : EntryOutline} (he : isWord e.name = true) :
    ∀ l ∈ e.lines, l.Writable := by
  intro l hl
  cases e with
  | option name value =>
    rw [List.mem_singleton.mp hl]
    exact he
  | list name values =>
    cases values with
    | nil =>
      rw [List.mem_singleton.mp hl]
      exact he
    | cons v values =>
      obtain ⟨v', -, rfl⟩ := List.mem_map.mp hl
      exact he

theorem Writable.statements {D : Draft} (h : D.Writable) : ∀ s ∈ D.statements, s.Writable := by
  intro s hs
  unfold Draft.statements at hs
  rcases List.mem_append.mp hs with hs | hs
  · cases hp : D.package with
    | none =>
      rw [hp] at hs
      cases hs
    | some p =>
      rw [hp] at hs
      rw [List.mem_singleton.mp hs]
      exact h.package p hp
  · obtain ⟨g, hg, hs⟩ := List.mem_flatMap.mp hs
    obtain ⟨x, hx, rfl⟩ := List.mem_map.mp hs
    have hgroup := h.groups g hg
    refine ⟨hgroup.type_word, ?_⟩
    intro l hl
    -- every line is one of an entry, and carries its name
    obtain ⟨e, he, hl⟩ := List.mem_flatMap.mp hl
    exact writable_of_mem_lines ((hgroup.sections x hx).entry_word e he) l hl

end Draft

/-! ### The written form of a sheet -/

namespace Sheet

/-- A line with a bare word. -/
private theorem written_word (k : Syntax.Keyword) (w : Text) :
    Syntax.written k [Syntax.wordToken w] = Document.printedLine (k.text ++ ' ' :: w) := by
  unfold Syntax.written Document.printedLine
  rw [List.flatMap_singleton]
  rfl

/-- A line with a bare word and a value. -/
private theorem written_word_quote (k : Syntax.Keyword) (w v : Text) :
    Syntax.written k [Syntax.wordToken w, Syntax.quoteToken v] =
      Document.printedLine (k.text ++ ' ' :: w ++ ' ' :: Syntax.quote v) := by
  unfold Syntax.written Document.printedLine
  rw [List.flatMap_cons, List.flatMap_singleton, ← List.append_assoc]
  rfl

private theorem printedOption_eq (n v : Text) :
    Document.printedOption n v = Line.text (.option n v) := by
  show _ = '\t' :: Syntax.written .option [Syntax.wordToken n, Syntax.quoteToken v]
  rw [written_word_quote]
  rfl

private theorem printedList_eq (n : Text) (values : List Text) :
    Document.printedList n values = (EntryOutline.list n values).lines.flatMap Line.text := by
  cases values with
  | nil =>
    show _ = ('\t' :: Syntax.written .list [Syntax.wordToken n]) ++ []
    rw [written_word, List.append_nil]
    rfl
  | cons v values =>
    show _ = ((v :: values).map fun v => Line.list n (some v)).flatMap Line.text
    rw [List.flatMap_map]
    apply List.flatMap_congr
    intro v _
    show _ = '\t' :: Syntax.written .list [Syntax.wordToken n, Syntax.quoteToken v]
    rw [written_word_quote]
    rfl

private theorem Entry.print_eq (e : Entry) : e.print = e.outline.lines.flatMap Line.text := by
  unfold print outline
  cases e.body with
  | option value =>
    show Document.printedOption e.name value = Line.text (.option e.name value) ++ []
    rw [printedOption_eq, List.append_nil]
  | list elements => exact printedList_eq e.name _

private theorem printedHeader_eq (type name : Text) (lines : List Line) :
    Document.printedHeader type name =
      Syntax.written .config (Block.args ⟨type, givenName? name, lines⟩) := by
  unfold Document.printedHeader givenName?
  split
  · exact (written_word .config type).symm
  · exact (written_word_quote .config type name).symm

private theorem Section.print_eq (type : Text) (s : Section) :
    s.print type = (s.draft.block type).text := by
  unfold print Block.text
  rw [printedHeader_eq type s.name (s.draft.entries.flatMap EntryOutline.lines)]
  have hentries : s.entries.flatMap Entry.print =
      (s.draft.entries.flatMap EntryOutline.lines).flatMap Line.text := by
    unfold draft
    rw [List.flatMap_assoc, List.flatMap_map]
    exact List.flatMap_congr fun e _ => e.print_eq
  rw [hentries]
  rfl

/-- **The written form of a sheet is that of its draft.** -/
theorem print_eq (S : Sheet) : S.print = S.draft.text := by
  unfold print Draft.text Draft.statements
  rw [List.flatMap_append, List.flatMap_assoc]
  congr 1
  · show Document.printedPackage S.package =
      (S.package.map Statement.package).toList.flatMap Statement.text
    cases S.package with
    | none => rfl
    | some p =>
      show Document.printedLine ("package ".toList ++ p) ++ ['\n'] =
        (Syntax.written .package [Syntax.wordToken p] ++ ['\n']) ++ []
      rw [written_word, List.append_nil]
      rfl
  · unfold draft
    rw [List.flatMap_map]
    apply List.flatMap_congr
    intro g _
    unfold Draft.Group.blocks Group.draft
    rw [List.map_map, List.flatMap_map]
    exact List.flatMap_congr fun s _ => s.print_eq g.type

@[simp] theorem Entry.name_outline (e : Entry) : e.outline.name = e.name := by
  unfold outline
  split <;> rfl

end Sheet

/-! ### Documents can be written -/

namespace Document

open Arena

variable {d : Document}

/-- Children whose names are apart have different names, one by one. -/
private theorem pairwise_of_apart {P : Text → Prop} {p : Handle} (hw : d.arena.WellFormed)
    (ha : d.arena.Apart p P) (hname : ∀ x ∈ d.arena.liveChildren p, ∃ n, d.arena.name? x = some n) :
    (d.arena.liveChildren p).Pairwise fun x y =>
      P ((d.arena.name? x).getD []) → (d.arena.name? x).getD [] ≠ (d.arena.name? y).getD [] := by
  refine (hw.nodup_liveChildren p).pairwise_of_forall_ne ?_
  intro x hx y hy hxy hP heq
  obtain ⟨n, hn⟩ := hname x hx
  obtain ⟨m, hm⟩ := hname y hy
  -- one name for two children is what was excluded
  rw [hn, hm] at heq
  rw [hn] at hP
  have hnm : n = m := heq
  exact hxy (ha n hP x hx y hy hn (hnm ▸ hm))

section Writable

variable {g s : Handle} (hd : d.Named) (hw : d.arena.WellFormed) (ht : d.arena.Tidy)
include hd hw ht

theorem Named.writable_section (hk : d.arena.kind? s = some .section) :
    (d.arena.sheetSection s).draft.Writable := by
  have hentry : ∀ x ∈ d.arena.liveChildren s, ∃ n, d.arena.name? x = some n ∧ isWord n = true := by
    intro x hx
    have hkx := hw.kind?_of_mem_entries hk hx
    obtain ⟨n, hn⟩ := exists_name_of_entry ht hkx
    exact ⟨n, hn, hd.entries.word x hkx n hn⟩
  refine ⟨?_, ?_, ?_⟩
  · intro n hn
    obtain ⟨m, hm⟩ := exists_name_of_tidy ht hk (by simp)
    have hname : (d.arena.sheetSection s).name = m := by
      simp only [sheetSection, hm, Option.getD_some]
    -- a name that is written is not generated, so it was given
    obtain ⟨hhead, rfl⟩ := mem_givenName?_iff.mp hn
    rw [hname] at hhead ⊢
    exact ⟨hd.groups.name_ne_nil s hk m hm, hhead⟩
  · intro e he
    obtain ⟨E, hE, rfl⟩ := List.mem_map.mp he
    obtain ⟨x, hx, rfl⟩ := List.mem_map.mp hE
    obtain ⟨n, hn, hword⟩ := hentry x hx
    simp only [Sheet.Entry.name_outline, sheetEntry, hn]
    exact hword
  · have hp := pairwise_of_apart hw (hd.entries.apart s hk) fun x hx => by
      obtain ⟨n, hn, -⟩ := hentry x hx
      exact ⟨n, hn⟩
    refine List.pairwise_map.mpr (List.pairwise_map.mpr (hp.imp ?_))
    intro x y hxy
    rw [Sheet.Entry.name_outline, Sheet.Entry.name_outline]
    exact hxy trivial

theorem Named.writable_group (hg : g ∈ d.arena.liveChildren 1) :
    (d.arena.sheetGroup g).draft.Writable := by
  have hkg := hw.kind?_of_mem_groups hg
  have hsection : ∀ s ∈ d.arena.liveChildren g, d.arena.kind? s = some .section := fun s hs =>
    hw.kind?_of_mem_sections ht hkg hs
  refine ⟨?_, ?_, ?_⟩
  · obtain ⟨t, htype⟩ := exists_name_of_tidy ht hkg (by simp)
    simp only [Sheet.Group.draft, sheetGroup, htype]
    exact hd.groups.type_word g hg t htype
  · intro S hS
    obtain ⟨S, hS', rfl⟩ := List.mem_map.mp hS
    obtain ⟨s, hs, rfl⟩ := List.mem_map.mp hS'
    exact hd.writable_section hw ht (hsection s hs)
  · have hp := pairwise_of_apart hw (hd.groups.given_apart g hg) fun s hs =>
      exists_name_of_tidy ht (hsection s hs) (by simp)
    refine List.pairwise_map.mpr (List.pairwise_map.mpr (hp.imp ?_))
    intro x y hxy n hn hn'
    obtain ⟨hhead, hname⟩ := mem_givenName?_iff.mp hn
    exact hxy hhead (hname.trans (mem_givenName?_iff.mp hn').2.symm)

/-- **The draft of every document can be written and read again.** -/
theorem Named.writable : d.sheet.draft.Writable := by
  refine ⟨hd.package, ?_, ?_⟩
  · intro G hG
    obtain ⟨G, hG', rfl⟩ := List.mem_map.mp hG
    obtain ⟨g, hg, rfl⟩ := List.mem_map.mp hG'
    exact hd.writable_group hw ht hg
  · have hp := pairwise_of_apart hw hd.groups.types_apart fun g hg =>
      exists_name_of_tidy ht (hw.kind?_of_mem_groups hg) (by simp)
    exact List.pairwise_map.mpr (List.pairwise_map.mpr (hp.imp fun hxy => hxy trivial))

end Writable

end Document
end Uci
