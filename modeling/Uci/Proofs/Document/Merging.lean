import Uci.Proofs.Document.Gathering
import Uci.Proofs.Document.Writing

/-!
# Merging the statements of a script

A script may name its package more than once, scatter a section over several headers and an
entry over several lines.  What it comes to is said twice: statement by statement, where
each one changes the draft that the ones before it have made, or is refused; and at a
glance, where what belongs together is gathered from the whole script.

## Main definitions

* `Draft.add?` — the draft after one more statement.
* `merged` — **what a script comes to.**
* `Replayable` — the scripts of which no statement is refused.

## Main results

* `foldlM_addLine_eq_some_iff` — the lines of a section, one by one and at a glance.
* `foldlM_add?_eq_some_iff` — **the statements of a script, one by one and at a glance.**
-/

namespace Uci

open Syntax (Line Block Statement isWord)

/-! ### Lines and entries -/

namespace Syntax

namespace Line

def name : Line → Text
  | option name _ | list name _ => name

def isList : Line → Bool
  | option _ _ => false
  | list _ _ => true

/-- The values that a line adds to a list. -/
def values : Line → List Text
  | option _ _ => []
  | list _ value => value.toList

end Line

namespace Statement

def block? : Statement → Option Block
  | package _ => none
  | block b => some b

def package? : Statement → Option Text
  | package name => some name
  | block _ => none

end Statement

/-- The blocks of a script. -/
def blocks (sts : List Statement) : List Block := sts.filterMap Statement.block?

end Syntax

open Syntax (blocks)

namespace EntryOutline

def isList : EntryOutline → Bool
  | option _ _ => false
  | list _ _ => true

/-- The values of a list; an option has none. -/
def values : EntryOutline → List Text
  | option _ _ => []
  | list _ values => values

end EntryOutline

/-- What a line makes of the entry of its name, which has held the values `before`. -/
def Syntax.Line.entry (before : List Text) : Line → EntryOutline
  | .option name value => .option name value
  | .list name value => .list name (before ++ value.toList)

/-! ### One statement after the other -/

/-- A line can stand in a section that has the entries `es`: its name is a word, and is not
that of an entry of the other kind. -/
def Takes (es : List EntryOutline) (l : Line) : Prop :=
  isWord l.name = true ∧ ∀ e ∈ es, e.name = l.name → e.isList = l.isList

instance (es : List EntryOutline) (l : Line) : Decidable (Takes es l) :=
  inferInstanceAs (Decidable (_ ∧ _))

/-- The entries with a line put in. -/
def putLine (es : List EntryOutline) (l : Line) : List EntryOutline :=
  upsert (·.name = l.name) (fun e => l.entry e.values) (l.entry []) es

/-- **The entries after one more line**, unless it is refused. -/
def addLine (es : List EntryOutline) (l : Line) : Option (List EntryOutline) :=
  if Takes es l then some (putLine es l) else none

/-- A line of a new name. -/
theorem addLine_new {es : List EntryOutline} {l : Line} (h : ∀ e ∈ es, e.name ≠ l.name) :
    addLine es l = if isWord l.name then some (es ++ [l.entry []]) else none := by
  have htakes : Takes es l ↔ isWord l.name = true :=
    and_iff_left fun e he hname => absurd hname (h e he)
  unfold addLine putLine
  rw [upsert_of_forall_not h]
  exact if_congr htakes rfl rfl

/-- A line of a name that an entry has. -/
theorem addLine_old {es es' : List EntryOutline} {e : EntryOutline} {l : Line}
    (hapart : (es ++ e :: es').Pairwise fun x y => x.name ≠ y.name) (hword : isWord e.name = true)
    (he : e.name = l.name) :
    addLine (es ++ e :: es') l =
      if e.isList = l.isList then some (es ++ l.entry e.values :: es') else none := by
  obtain ⟨-, hbehind, hbefore⟩ := List.pairwise_append.mp hapart
  have hes : ∀ x ∈ es, ¬ x.name = l.name := fun x hx =>
    he ▸ hbefore x hx e (List.mem_cons_self ..)
  have htakes : Takes (es ++ e :: es') l ↔ e.isList = l.isList := by
    constructor
    · rintro ⟨-, hsame⟩
      exact hsame e (List.mem_append_right es (List.mem_cons_self ..)) he
    · intro hlist
      refine ⟨he ▸ hword, ?_⟩
      -- no other entry has the name
      intro x hx hname
      rcases List.mem_append.mp hx with hx | hx
      · exact absurd hname (hes x hx)
      rcases List.mem_cons.mp hx with rfl | hx
      · exact hlist
      · exact absurd (he.trans hname.symm) ((List.pairwise_cons.mp hbehind).1 x hx)
  unfold addLine putLine
  rw [upsert_middle hes he]
  exact if_congr htakes rfl rfl

namespace Draft

/-- The entries of the section that was given a name; there are none if no section was. -/
def Group.entriesAt (g : Group) (name : Text) : List EntryOutline :=
  (g.sections.find? (·.name = some name)).elim [] (·.entries)

/-- The entries that a header finds: those of the section that it opens again. -/
def entriesAt (D : Draft) (type : Text) : Option Text → List EntryOutline
  | none => []
  | some name => (D.groups.find? (·.type = type)).elim [] (·.entriesAt name)

/-- Puts a section behind the others, or in the place of the one of its name. -/
def Group.put (s : Section) (g : Group) : Group :=
  { g with sections := upsert (fun x => x.name = s.name ∧ s.name ≠ none) (fun _ => s) s g.sections }

/-- Puts a section into the group of its type, which may be a new one. -/
def put (D : Draft) (type : Text) (s : Section) : Draft :=
  { D with groups := upsert (·.type = type) (Group.put s) (Group.put s ⟨type, []⟩) D.groups }

section Put

variable {p : Option Text} {Gs Gs' : List Group} {ss ss' : List Section} {type n : Text}
  {name : Option Text} {s x : Section}

theorem put_new_group (h : ∀ G ∈ Gs, G.type ≠ type) :
    (⟨p, Gs⟩ : Draft).put type s = ⟨p, Gs ++ [⟨type, [s]⟩]⟩ :=
  congrArg (Draft.mk p) (upsert_of_forall_not h)

theorem put_group (h : ∀ G ∈ Gs, G.type ≠ type) :
    (⟨p, Gs ++ ⟨type, ss⟩ :: Gs'⟩ : Draft).put type s =
      ⟨p, Gs ++ Group.put s ⟨type, ss⟩ :: Gs'⟩ :=
  congrArg (Draft.mk p) (upsert_middle h rfl)

theorem Group.put_new_section (h : ∀ x ∈ ss, ∀ n ∈ s.name, n ∉ x.name) :
    Group.put s ⟨type, ss⟩ = ⟨type, ss ++ [s]⟩ := by
  refine congrArg (Group.mk type) (upsert_of_forall_not ?_)
  rintro x hx ⟨hname, hne⟩
  obtain ⟨n, hn⟩ := Option.ne_none_iff_exists'.mp hne
  exact h x hx n hn (hname.trans hn)

theorem Group.put_section (h : ∀ x ∈ ss, x.name ≠ some n) (hx : x.name = some n)
    (os : List EntryOutline) :
    Group.put ⟨some n, os⟩ ⟨type, ss ++ x :: ss'⟩ = ⟨type, ss ++ ⟨some n, os⟩ :: ss'⟩ :=
  congrArg (Group.mk type)
    (upsert_middle (fun y hy hname => h y hy hname.1) ⟨hx, Option.some_ne_none n⟩)

theorem entriesAt_new_group (h : ∀ G ∈ Gs, G.type ≠ type) :
    (⟨p, Gs⟩ : Draft).entriesAt type name = [] := by
  cases name with
  | none => rfl
  | some n =>
    have hfind : Gs.find? (·.type = type) = none :=
      List.find?_eq_none.mpr fun G hG => by simpa using h G hG
    exact congrArg (·.elim [] (Group.entriesAt · n)) hfind

theorem entriesAt_group (h : ∀ G ∈ Gs, G.type ≠ type) (n : Text) :
    (⟨p, Gs ++ ⟨type, ss⟩ :: Gs'⟩ : Draft).entriesAt type (some n) =
      Group.entriesAt ⟨type, ss⟩ n := by
  have hfind : (Gs ++ (⟨type, ss⟩ : Group) :: Gs').find? (·.type = type) = some ⟨type, ss⟩ :=
    List.find?_eq_some_iff_append.mpr
      ⟨decide_eq_true rfl, Gs, Gs', rfl, fun G hG => by simpa using h G hG⟩
  exact congrArg (·.elim [] (Group.entriesAt · n)) hfind

theorem Group.entriesAt_new_section (h : ∀ x ∈ ss, x.name ≠ some n) :
    Group.entriesAt ⟨type, ss⟩ n = [] := by
  have hfind : ss.find? (·.name = some n) = none :=
    List.find?_eq_none.mpr fun x hx => by simpa using h x hx
  exact congrArg (·.elim [] Section.entries) hfind

theorem Group.entriesAt_section (h : ∀ x ∈ ss, x.name ≠ some n) (hx : x.name = some n) :
    Group.entriesAt ⟨type, ss ++ x :: ss'⟩ n = x.entries := by
  have hfind : (ss ++ x :: ss').find? (·.name = some n) = some x :=
    List.find?_eq_some_iff_append.mpr
      ⟨decide_eq_true hx, ss, ss', rfl, fun y hy => by simpa using h y hy⟩
  exact congrArg (·.elim [] Section.entries) hfind

end Put

/-- A header can stand: its type is a word, and it does not give an empty name. -/
def TakesHeader (type : Text) (name : Option Text) : Prop := isWord type = true ∧ name ≠ some []

instance (type : Text) (name : Option Text) : Decidable (TakesHeader type name) :=
  inferInstanceAs (Decidable (_ ∧ _))

/-- **The draft after one more statement**, unless it is refused. -/
def add? (D : Draft) : Statement → Option Draft
  | .package name => if isWord name then some { D with package := some name } else none
  | .block b =>
    if TakesHeader b.type b.name then
      (b.lines.foldlM addLine (D.entriesAt b.type b.name)).map fun es => D.put b.type ⟨b.name, es⟩
    else none

end Draft

/-! ### The script at a glance -/

/-- The entry that the lines of one name make: an option with the value of the last line, or a
list with the values of all lines. -/
def entryOf (name : Text) (ls : List Line) : EntryOutline :=
  match ls.getLast? with
  | some (.option _ value) => .option name value
  | _ => .list name (ls.flatMap Line.values)

/-- **The entries that lines make**, name by name. -/
def entriesOf (ls : List Line) : List EntryOutline :=
  (gather Line.name ls).map fun x => entryOf x.1 x.2

/-- What tells a section from the others of its type: the name in its header, or else the place
of the header. -/
def heading (x : Block × Nat) : Text ⊕ Nat := x.1.name.elim (.inr x.2) .inl

/-- **The sections that blocks of one type make**: one for each name, and one for each header
without a name. -/
def sectionsOf (bs : List Block) : List Draft.Section :=
  (gather heading bs.zipIdx).map fun x => ⟨x.1.getLeft?, entriesOf (x.2.flatMap (·.1.lines))⟩

/-- **What a script comes to**: the last package, and the sections of each type. -/
def merged (sts : List Statement) : Draft where
  package := (sts.filterMap Statement.package?).getLast?
  groups := (gather Block.type (blocks sts)).map fun x => ⟨x.1, sectionsOf x.2⟩

/-- Lines that can stand in one section: their names are words, and none of them is that of an
option and of a list. -/
structure Fit (ls : List Line) : Prop where
  word : ∀ l ∈ ls, isWord l.name = true
  unmixed : ∀ l ∈ ls, ∀ l' ∈ ls, l.name = l'.name → l.isList = l'.isList

/-- The lines below all headers that give a name, in their order. -/
def linesNamed (bs : List Block) (name : Text) : List Line :=
  (bs.filter (·.name = some name)).flatMap Block.lines

/-- The lines of the section that a header belongs to, below all headers of the section. -/
def linesWith (bs : List Block) (b : Block) : List Line :=
  b.name.elim b.lines (linesNamed (bs.filter (·.type = b.type)))

/-- **Scripts of which no statement is refused.** -/
structure Replayable (sts : List Statement) : Prop where
  package_word : ∀ name ∈ sts.filterMap Statement.package?, isWord name = true
  type_word : ∀ b ∈ blocks sts, isWord b.type = true
  name_ne_nil : ∀ b ∈ blocks sts, b.name ≠ some []
  fit : ∀ b ∈ blocks sts, Fit (linesWith (blocks sts) b)

instance (ls : List Line) : Decidable (Fit ls) :=
  decidable_of_iff ((∀ l ∈ ls, isWord l.name = true) ∧
      ∀ l ∈ ls, ∀ l' ∈ ls, l.name = l'.name → l.isList = l'.isList)
    ⟨fun ⟨hword, hunmixed⟩ => ⟨hword, hunmixed⟩, fun h => ⟨h.word, h.unmixed⟩⟩

instance (sts : List Statement) : Decidable (Replayable sts) :=
  decidable_of_iff ((∀ name ∈ sts.filterMap Statement.package?, isWord name = true) ∧
      (∀ b ∈ blocks sts, isWord b.type = true) ∧ (∀ b ∈ blocks sts, b.name ≠ some []) ∧
      ∀ b ∈ blocks sts, Fit (linesWith (blocks sts) b))
    ⟨fun ⟨hpackage, htype, hname, hfit⟩ => ⟨hpackage, htype, hname, hfit⟩,
      fun h => ⟨h.package_word, h.type_word, h.name_ne_nil, h.fit⟩⟩

/-! ### Lines, one by one and at a glance -/

section Lines

variable {ls : List Line} {l : Line}

theorem Fit.nil : Fit [] := ⟨List.forall_mem_nil _, List.forall_mem_nil _⟩

theorem Fit.mono {ls ls' : List Line} (h : Fit ls') (hsub : ls ⊆ ls') : Fit ls :=
  ⟨fun l hl => h.word l (hsub hl), fun l hl l' hl' => h.unmixed l (hsub hl) l' (hsub hl')⟩

@[simp] theorem name_entryOf (name : Text) (ls : List Line) : (entryOf name ls).name = name := by
  unfold entryOf
  split <;> rfl

/-- The last line of a name tells the kind of its entry. -/
private theorem isList_entryOf (name : Text) {l : Line} (hl : ls.getLast? = some l) :
    (entryOf name ls).isList = l.isList := by
  unfold entryOf
  rw [hl]
  cases l <;> rfl

/-- One more line of a name, if all lines of the name are of one kind. -/
private theorem entryOf_append_singleton (hkind : ∀ l' ∈ ls, l'.isList = l.isList) :
    entryOf l.name (ls ++ [l]) = l.entry (entryOf l.name ls).values := by
  unfold entryOf
  rw [List.getLast?_concat]
  cases l with
  | option name value => rfl
  | list name value =>
    have hlast : ∀ n v, ls.getLast? ≠ some (.option n v) := by
      intro n v hl
      have hkind' := hkind _ (List.mem_of_getLast? hl)
      cases hkind'
    dsimp only
    rw [List.flatMap_append, List.flatMap_singleton]
    split
    · next hl => exact absurd hl (hlast _ _)
    · rfl

/-- Every entry has lines of its name, and is of the kind of one of them. -/
private theorem exists_line_of_mem {e : EntryOutline} (he : e ∈ entriesOf ls) :
    ∃ l ∈ ls, l.name = e.name ∧ l.isList = e.isList := by
  obtain ⟨x, hx, rfl⟩ := List.mem_map.mp he
  have hlast := List.getLast?_eq_some_getLast (ne_nil_of_mem_gather hx)
  have hmem := List.getLast_mem (ne_nil_of_mem_gather hx)
  generalize x.2.getLast (ne_nil_of_mem_gather hx) = l at hlast hmem
  rw [eq_filter_of_mem_gather hx] at hmem
  obtain ⟨hl, hname⟩ := List.mem_filter.mp hmem
  refine ⟨l, hl, ?_, (isList_entryOf x.1 hlast).symm⟩
  rw [name_entryOf]
  exact of_decide_eq_true hname

/-- Every line has an entry of its name. -/
private theorem exists_entry_of_mem (hl : l ∈ ls) : ∃ e ∈ entriesOf ls, e.name = l.name := by
  obtain ⟨x, hx, hname⟩ := exists_mem_gather Line.name hl
  exact ⟨_, List.mem_map_of_mem hx, (name_entryOf ..).trans hname⟩

/-- A line can stand among the entries of lines if it can stand among the lines. -/
theorem takes_entriesOf_iff (h : Fit ls) : Takes (entriesOf ls) l ↔ Fit (ls ++ [l]) := by
  constructor
  · rintro ⟨hword, hsame⟩
    have hkind : ∀ l' ∈ ls, l'.name = l.name → l'.isList = l.isList := by
      intro l' hl' hname
      obtain ⟨e, he, hen⟩ := exists_entry_of_mem hl'
      obtain ⟨l'', hl'', hname'', hlist''⟩ := exists_line_of_mem he
      rw [h.unmixed l' hl' l'' hl'' (hen.symm.trans hname''.symm), hlist'']
      exact hsame e he (hen.trans hname)
    refine ⟨?_, ?_⟩
    · intro x hx
      rcases List.mem_append.mp hx with hx | hx
      · exact h.word x hx
      · rwa [List.mem_singleton.mp hx]
    · intro x hx y hy hxy
      rcases List.mem_append.mp hx with hx | hx <;> rcases List.mem_append.mp hy with hy | hy
      · exact h.unmixed x hx y hy hxy
      · rw [List.mem_singleton.mp hy] at hxy ⊢
        exact hkind x hx hxy
      · rw [List.mem_singleton.mp hx] at hxy ⊢
        exact (hkind y hy hxy.symm).symm
      · rw [List.mem_singleton.mp hx, List.mem_singleton.mp hy]
  · intro hfit
    have hself : l ∈ ls ++ [l] := List.mem_append_right _ (List.mem_singleton_self l)
    refine ⟨hfit.word l hself, ?_⟩
    intro e he hname
    obtain ⟨l', hl', hname', hlist'⟩ := exists_line_of_mem he
    rw [← hlist']
    exact hfit.unmixed l' (List.mem_append_left _ hl') l hself (hname'.trans hname)

/-- **One more line**, at a glance. -/
theorem entriesOf_append_singleton (h : Fit (ls ++ [l])) :
    entriesOf (ls ++ [l]) = putLine (entriesOf ls) l := by
  have hself : l ∈ ls ++ [l] := List.mem_append_right _ (List.mem_singleton_self l)
  have hchange : ∀ x ∈ gather Line.name ls, x.1 = l.name →
      entryOf x.1 (x.2 ++ [l]) = l.entry (entryOf x.1 x.2).values := by
    intro x hx hname
    rw [hname]
    apply entryOf_append_singleton
    intro l' hl'
    rw [eq_filter_of_mem_gather hx] at hl'
    obtain ⟨hl', hname'⟩ := List.mem_filter.mp hl'
    exact h.unmixed l' (List.mem_append_left _ hl') l hself
      ((of_decide_eq_true hname').trans hname)
  have hnew : entryOf l.name [l] = l.entry [] := by
    cases l with
    | option name value => rfl
    | list name value => exact congrArg (EntryOutline.list name) (List.append_nil _)
  unfold entriesOf putLine
  rw [gather_append_singleton]
  exact map_upsert (fun x _ => by rw [name_entryOf]) hchange fun _ => hnew

/-- **The lines of a section, one by one and at a glance.** -/
theorem foldlM_addLine_eq_some_iff (h : Fit ls) (ms : List Line) (es : List EntryOutline) :
    ms.foldlM addLine (entriesOf ls) = some es ↔
      Fit (ls ++ ms) ∧ es = entriesOf (ls ++ ms) := by
  induction ms generalizing ls with
  | nil => simp [h, eq_comm]
  | cons m ms ih =>
    rw [List.foldlM_cons, addLine]
    by_cases hm : Fit (ls ++ [m])
    · rw [if_pos ((takes_entriesOf_iff h).mpr hm), ← entriesOf_append_singleton hm]
      show ms.foldlM addLine (entriesOf (ls ++ [m])) = some es ↔ _
      rw [ih hm, List.append_assoc]
      rfl
    · rw [if_neg (mt (takes_entriesOf_iff h).mp hm)]
      refine iff_of_false (Option.some_ne_none _).symm ?_
      rintro ⟨hall, -⟩
      refine hm (hall.mono ?_)
      intro x hx
      rw [List.append_cons]
      exact List.mem_append_left _ hx

end Lines

/-! ### Statements, one by one and at a glance -/

section Statements

variable {bs : List Block} {b : Block} {sts : List Statement}

/-- The lines that a header finds among the blocks of its type that stand above. -/
private def linesAbove (bs : List Block) (name : Option Text) : List Line :=
  name.elim [] (linesNamed bs)

theorem heading_eq_inl_iff {x : Block × Nat} {n : Text} :
    heading x = .inl n ↔ x.1.name = some n := by
  unfold heading
  cases x.1.name <;> simp

/-- The lines below a heading are those of its name. -/
private theorem lines_heading (bs : List Block) (n : Text) :
    (bs.zipIdx.filter (heading · = .inl n)).flatMap (·.1.lines) = linesNamed bs n := by
  have hfilter : (bs.zipIdx.filter (heading · = .inl n)).map Prod.fst =
      bs.filter (·.name = some n) := by
    have hsame : bs.zipIdx.filter (heading · = .inl n) =
        bs.zipIdx.filter ((fun b : Block => decide (b.name = some n)) ∘ Prod.fst) :=
      List.filter_congr fun x _ => decide_eq_decide.mpr heading_eq_inl_iff
    rw [hsame, ← List.filter_map, List.zipIdx_map_fst]
  unfold linesNamed
  rw [← hfilter, List.flatMap_map]

/-- The place of a header tells it from those above. -/
private theorem heading_ne (hb : b.name = none) {x : (Text ⊕ Nat) × List (Block × Nat)}
    (hx : x ∈ gather heading bs.zipIdx) : x.1 ≠ heading (b, bs.length) := by
  intro heq
  obtain ⟨y, hy⟩ := List.exists_mem_of_ne_nil _ (ne_nil_of_mem_gather hx)
  rw [eq_filter_of_mem_gather hx, heq] at hy
  obtain ⟨hmem, hhead⟩ := List.mem_filter.mp hy
  have hlt : y.2 < bs.length := by
    have hidx := (List.mem_zipIdx hmem).2.1
    rwa [Nat.zero_add] at hidx
  have hsame : heading y = .inr bs.length := by
    rw [of_decide_eq_true hhead, heading, hb]
    rfl
  unfold heading at hsame
  cases hname : y.1.name with
  | none =>
    rw [hname] at hsame
    exact absurd (Sum.inr.inj hsame) hlt.ne
  | some n =>
    rw [hname] at hsame
    cases hsame

/-- **One more block of a type** opens the section of its name again, or adds one. -/
private theorem sectionsOf_append_singleton (bs : List Block) (b : Block) :
    sectionsOf (bs ++ [b]) =
      upsert (fun x => x.name = b.name ∧ b.name ≠ none)
        (fun _ => ⟨b.name, entriesOf (linesAbove bs b.name ++ b.lines)⟩)
        ⟨b.name, entriesOf (linesAbove bs b.name ++ b.lines)⟩ (sectionsOf bs) := by
  have hidx : (bs ++ [b]).zipIdx = bs.zipIdx ++ [(b, bs.length)] := by
    rw [List.zipIdx_append, Nat.zero_add]
    rfl
  unfold sectionsOf
  rw [hidx, gather_append_singleton]
  cases hb : b.name with
  | none =>
    -- the header opens a section of its own
    have hfresh : ∀ x ∈ gather heading bs.zipIdx, ¬ x.1 = heading (b, bs.length) :=
      fun x hx => heading_ne hb hx
    refine map_upsert (fun x hx => iff_of_false (hfresh x hx) fun h => h.2 rfl)
      (fun x hx h => absurd h (hfresh x hx)) fun _ => ?_
    rw [heading, hb]
    exact congrArg (fun ls => Draft.Section.mk none (entriesOf ls)) (List.append_nil _)
  | some n =>
    have hhead : heading (b, bs.length) = .inl n := heading_eq_inl_iff.mpr hb
    rw [hhead]
    refine map_upsert ?_ ?_ ?_
    · intro x _
      rw [Sum.getLeft?_eq_some_iff]
      exact (and_iff_left (Option.some_ne_none n)).symm
    · intro x hx hkey
      have hlines : x.2.flatMap (·.1.lines) = linesNamed bs n := by
        rw [eq_filter_of_mem_gather hx, hkey, lines_heading]
      show (⟨x.1.getLeft?, entriesOf ((x.2 ++ [(b, bs.length)]).flatMap (·.1.lines))⟩ :
        Draft.Section) = _
      rw [hkey, List.flatMap_append, hlines, List.flatMap_singleton]
      rfl
    · intro hnone
      have hlines : linesNamed bs n = [] := by
        rw [← lines_heading, filter_eq_nil_of_gather hnone]
        rfl
      show _ = (⟨some n, entriesOf (linesNamed bs n ++ b.lines)⟩ : Draft.Section)
      rw [hlines]
      exact congrArg (fun ls => Draft.Section.mk (some n) (entriesOf ls)) (List.append_nil _)

/-- The entries below a name, in the group that blocks make. -/
private theorem entriesAt_sectionsOf (type : Text) (bs : List Block) (n : Text) :
    (⟨type, sectionsOf bs⟩ : Draft.Group).entriesAt n = entriesOf (linesNamed bs n) := by
  have hfind : (sectionsOf bs).find? (·.name = some n) =
      ((gather heading bs.zipIdx).find? (·.1 = .inl n)).map fun x =>
        ⟨x.1.getLeft?, entriesOf (x.2.flatMap (·.1.lines))⟩ := by
    unfold sectionsOf
    rw [List.find?_map]
    congr 1
    exact List.find?_congr fun x _ => decide_eq_decide.mpr Sum.getLeft?_eq_some_iff
  unfold Draft.Group.entriesAt
  rw [hfind, Option.elim_map, ← lines_heading]
  exact elim_find?_gather heading bs.zipIdx (.inl n) fun xs => entriesOf (xs.flatMap (·.1.lines))

/-- **What a header finds**: the entries of the lines above. -/
private theorem entriesAt_merged (sts : List Statement) (type : Text) (name : Option Text) :
    (merged sts).entriesAt type name =
      entriesOf (linesAbove ((blocks sts).filter (·.type = type)) name) := by
  cases name with
  | none => rfl
  | some n =>
    have hfind : (merged sts).groups.find? (·.type = type) =
        ((gather Block.type (blocks sts)).find? (·.1 = type)).map fun x =>
          ⟨x.1, sectionsOf x.2⟩ := List.find?_map ..
    have hentries : (fun x : Text × List Block =>
        (⟨x.1, sectionsOf x.2⟩ : Draft.Group).entriesAt n) =
        fun x => entriesOf (linesNamed x.2 n) :=
      funext fun x => entriesAt_sectionsOf x.1 x.2 n
    show ((merged sts).groups.find? (·.type = type)).elim [] (·.entriesAt n) = _
    rw [hfind, Option.elim_map]
    show (Option.elim _ [] fun x : Text × List Block =>
      (⟨x.1, sectionsOf x.2⟩ : Draft.Group).entriesAt n) = _
    rw [hentries]
    exact elim_find?_gather Block.type (blocks sts) type fun bs => entriesOf (linesNamed bs n)

private theorem blocks_append_package (sts : List Statement) (name : Text) :
    blocks (sts ++ [.package name]) = blocks sts := by
  unfold blocks
  rw [List.filterMap_append]
  exact List.append_nil _

private theorem blocks_append_block (sts : List Statement) (b : Block) :
    blocks (sts ++ [.block b]) = blocks sts ++ [b] := by
  unfold blocks
  rw [List.filterMap_append]
  rfl

private theorem packages_append_package (sts : List Statement) (name : Text) :
    (sts ++ [Statement.package name]).filterMap Statement.package? =
      sts.filterMap Statement.package? ++ [name] := by
  rw [List.filterMap_append]
  rfl

private theorem packages_append_block (sts : List Statement) (b : Block) :
    (sts ++ [Statement.block b]).filterMap Statement.package? =
      sts.filterMap Statement.package? := by
  rw [List.filterMap_append]
  exact List.append_nil _

/-- The section of the last block has the lines above and those of the block. -/
private theorem linesWith_self (bs : List Block) (b : Block) :
    linesWith (bs ++ [b]) b = linesAbove (bs.filter (·.type = b.type)) b.name ++ b.lines := by
  unfold linesWith linesAbove
  cases hb : b.name with
  | none => rfl
  | some n => simp [linesNamed, List.filter_append, hb]

/-- One more block comes to the section of its header, and to no other. -/
private theorem linesWith_append_singleton (bs : List Block) (b b' : Block) :
    linesWith (bs ++ [b]) b' = linesWith bs b' ∨
      linesWith (bs ++ [b]) b' = linesWith (bs ++ [b]) b := by
  cases hb' : b'.name with
  | none =>
    left
    unfold linesWith
    rw [hb']
    rfl
  | some n =>
    by_cases hsame : b.type = b'.type ∧ b.name = some n
    · right
      unfold linesWith
      rw [hb', hsame.1, hsame.2]
      rfl
    · left
      have hout : (([b].filter (·.type = b'.type)).filter (·.name = some n)) = [] := by
        simpa [List.filter_filter, and_comm] using hsame
      unfold linesWith
      rw [hb']
      show linesNamed ((bs ++ [b]).filter _) n = linesNamed (bs.filter _) n
      unfold linesNamed
      rw [List.filter_append, List.filter_append, hout, List.append_nil]

private theorem linesWith_subset (bs : List Block) (b b' : Block) :
    linesWith bs b' ⊆ linesWith (bs ++ [b]) b' := by
  unfold linesWith
  cases b'.name with
  | none => exact List.Subset.refl _
  | some n =>
    show linesNamed (bs.filter _) n ⊆ linesNamed ((bs ++ [b]).filter _) n
    unfold linesNamed
    rw [List.filter_append, List.filter_append, List.flatMap_append]
    exact List.subset_append_left _ _

private theorem replayable_append_package {name : Text} :
    Replayable (sts ++ [.package name]) ↔ Replayable sts ∧ isWord name = true := by
  constructor
  · intro h
    have hword := h.package_word
    have htype := h.type_word
    have hname := h.name_ne_nil
    have hfit := h.fit
    rw [packages_append_package, List.forall_mem_append, List.forall_mem_singleton] at hword
    rw [blocks_append_package] at htype hname hfit
    exact ⟨⟨hword.1, htype, hname, hfit⟩, hword.2⟩
  · rintro ⟨⟨hwords, htype, hname, hfit⟩, hword⟩
    refine ⟨?_, ?_, ?_, ?_⟩
    · rw [packages_append_package, List.forall_mem_append, List.forall_mem_singleton]
      exact ⟨hwords, hword⟩
    all_goals rwa [blocks_append_package]

private theorem replayable_append_block :
    Replayable (sts ++ [.block b]) ↔
      Replayable sts ∧ Draft.TakesHeader b.type b.name ∧ Fit (linesWith (blocks sts ++ [b]) b) := by
  constructor
  · intro h
    have hword := h.package_word
    have htype := h.type_word
    have hname := h.name_ne_nil
    have hfit := h.fit
    rw [packages_append_block] at hword
    rw [blocks_append_block, List.forall_mem_append, List.forall_mem_singleton] at htype hname hfit
    -- the sections above had fewer lines
    have hfewer : ∀ b' ∈ blocks sts, Fit (linesWith (blocks sts) b') := fun b' hb' =>
      (hfit.1 b' hb').mono (linesWith_subset (blocks sts) b b')
    exact ⟨⟨hword, htype.1, hname.1, hfewer⟩, ⟨htype.2, hname.2⟩, hfit.2⟩
  · rintro ⟨⟨hwords, htype, hname, hfit⟩, ⟨hword, hne⟩, hself⟩
    refine ⟨?_, ?_, ?_, ?_⟩
    · rwa [packages_append_block]
    · rw [blocks_append_block, List.forall_mem_append, List.forall_mem_singleton]
      exact ⟨htype, hword⟩
    · rw [blocks_append_block, List.forall_mem_append, List.forall_mem_singleton]
      exact ⟨hname, hne⟩
    · rw [blocks_append_block, List.forall_mem_append, List.forall_mem_singleton]
      refine ⟨fun b' hb' => ?_, hself⟩
      rcases linesWith_append_singleton (blocks sts) b b' with hlines | hlines
      · rw [hlines]
        exact hfit b' hb'
      · rwa [hlines]

/-- The lines above a header can stand in one section. -/
private theorem Replayable.fit_linesAbove (h : Replayable sts) (type : Text)
    (name : Option Text) : Fit (linesAbove ((blocks sts).filter (·.type = type)) name) := by
  cases name with
  | none => exact .nil
  | some n =>
    show Fit ((((blocks sts).filter (·.type = type)).filter (·.name = some n)).flatMap Block.lines)
    rcases List.eq_nil_or_concat' (((blocks sts).filter (·.type = type)).filter (·.name = some n))
      with hnil | ⟨front, b, hsplit⟩
    · rw [hnil]
      exact .nil
    · -- they are the lines of the section of any header that has the name
      have hb : b ∈ ((blocks sts).filter (·.type = type)).filter (·.name = some n) := by
        rw [hsplit]
        exact List.mem_append_right _ (List.mem_singleton_self b)
      obtain ⟨hmem, hname⟩ := List.mem_filter.mp hb
      obtain ⟨hmem, htype⟩ := List.mem_filter.mp hmem
      have hfit := h.fit b hmem
      unfold linesWith at hfit
      rwa [of_decide_eq_true hname, of_decide_eq_true htype] at hfit

/-- **One more block**, at a glance. -/
private theorem merged_append_block (sts : List Statement) (b : Block) :
    merged (sts ++ [.block b]) =
      (merged sts).put b.type ⟨b.name, entriesOf (linesWith (blocks sts ++ [b]) b)⟩ := by
  unfold merged Draft.put
  rw [packages_append_block, blocks_append_block, gather_append_singleton, linesWith_self]
  dsimp only
  congr 1
  refine map_upsert (fun x _ => Iff.rfl) ?_ ?_
  · intro x hx htype
    unfold Draft.Group.put
    rw [eq_filter_of_mem_gather hx, htype, sectionsOf_append_singleton]
  · intro hnone
    have hfilter := filter_eq_nil_of_gather hnone
    unfold Draft.Group.put
    rw [hfilter]
    exact congrArg (Draft.Group.mk b.type) (sectionsOf_append_singleton [] b)

private theorem merged_append_package (sts : List Statement) (name : Text) :
    merged (sts ++ [.package name]) = { merged sts with package := some name } := by
  unfold merged
  rw [packages_append_package, blocks_append_package, List.getLast?_concat]

/-- **One more statement**, at a glance. -/
theorem add?_merged_eq_some_iff (h : Replayable sts) {st : Statement} {D : Draft} :
    (merged sts).add? st = some D ↔ Replayable (sts ++ [st]) ∧ D = merged (sts ++ [st]) := by
  cases st with
  | package name =>
    rw [replayable_append_package, merged_append_package, Draft.add?]
    by_cases hword : isWord name = true
    · simp [h, hword, eq_comm]
    · simp [hword]
  | block b =>
    rw [replayable_append_block, merged_append_block, Draft.add?, entriesAt_merged,
      linesWith_self]
    by_cases hheader : Draft.TakesHeader b.type b.name
    · have hlines := foldlM_addLine_eq_some_iff (h.fit_linesAbove b.type b.name) b.lines
      rw [if_pos hheader, Option.map_eq_some_iff]
      simp only [hlines, h, hheader, true_and]
      constructor
      · rintro ⟨es, ⟨hfit, rfl⟩, rfl⟩
        exact ⟨hfit, rfl⟩
      · rintro ⟨hfit, rfl⟩
        exact ⟨_, ⟨hfit, rfl⟩, rfl⟩
    · rw [if_neg hheader]
      exact iff_of_false (Option.some_ne_none _).symm fun hall => hheader hall.1.2.1

/-- **The statements of a script, one by one and at a glance.** -/
theorem foldlM_add?_eq_some_iff (sts : List Statement) {D : Draft} :
    sts.foldlM Draft.add? ⟨none, []⟩ = some D ↔ Replayable sts ∧ D = merged sts := by
  induction sts using List.reverseRecOn generalizing D with
  | nil =>
    have hnil : Replayable [] := ⟨nofun, nofun, nofun, nofun⟩
    show some _ = some D ↔ _
    rw [Option.some.injEq, eq_comm]
    exact (and_iff_right hnil).symm
  | append_singleton sts st ih =>
    have hearlier : Replayable (sts ++ [st]) → Replayable sts := by
      cases st with
      | package name => exact fun h => (replayable_append_package.mp h).1
      | block b => exact fun h => (replayable_append_block.mp h).1
    have hlast : ∀ D : Draft, [st].foldlM Draft.add? D = D.add? st := fun D => bind_pure _
    rw [List.foldlM_append]
    simp only [Option.bind_eq_bind, Option.bind_eq_some_iff, ih, hlast]
    constructor
    · rintro ⟨D', ⟨h, rfl⟩, hadd⟩
      exact (add?_merged_eq_some_iff h).mp hadd
    · intro h
      exact ⟨_, ⟨hearlier h.1, rfl⟩, (add?_merged_eq_some_iff (hearlier h.1)).mpr h⟩

end Statements
end Uci
