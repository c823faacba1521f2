import Uci.Command.Change
import Uci.Proofs.Document.Naming

/-!
# What a path leads to

Names may contain dots, so a path can often be read in several ways.  A lookup takes the whole
path for the name of a section first; after that it splits the path at its dots, the leftmost
first, until the entry is there.  A change of an entry that may still be missing stops at the
first section that is there.  Both come to the same entry unless names of sections overlap: if
the path up to an earlier dot, or the whole of it, is the name of a section as well, then the
two part ways, and it is settled here who comes where.

## Main definitions

* `Document.NoSection d o` — no live section has the name `o`.
* `Document.IsEntry d s e n` — `e` is a live option or list of `s`, and has the name `n`.
* `Document.FirstOnPath` — the section with the shortest name that a path begins with.
* `Document.EntriesAddressed` — what the two readings of a path have to do with each other.

## Main results

* `firstPresent_eq_ok_iff` — a search by rank ends at the least rank that is there.
* `queryEntry_eq_ok_iff`, `query_eq_ok_iff` — where each of the two readings ends.
* `entryIn?_eq` — what a change is made to, once its section is known.
* `entriesAddressed_of_reachable` — **both lead to the same entry, exactly if no name of a
  section gets in between**.
* `overlapping_names` — they do not always.
-/

namespace Uci

variable {path o r : Text}

/-! ### Splits and readings -/

/-- A path is split at each of its dots. -/
theorem mem_splits_iff : (o, r) ∈ splits path ↔ o ++ '.' :: r = path := by
  refine ⟨splits_append, ?_⟩
  rintro rfl
  induction o with
  | nil => simp [splits]
  | cons c o ih =>
    have hfurther : (c :: o, r) ∈ (splits (o ++ '.' :: r)).map fun x => (c :: x.1, x.2) :=
      List.mem_map.mpr ⟨_, ih, rfl⟩
    rw [List.cons_append, splits]
    split
    · exact List.mem_cons_of_mem _ hfurther
    · exact hfurther

/-- The leftmost dot comes first. -/
theorem pairwise_splits (path : Text) :
    (splits path).Pairwise fun x y => x.1.length < y.1.length := by
  induction path with
  | nil => exact .nil
  | cons c t ih =>
    have hfurther : ((splits t).map fun x => (c :: x.1, x.2)).Pairwise
        fun x y => x.1.length < y.1.length :=
      ih.map _ fun _ _ h => Nat.succ_lt_succ h
    rw [splits]
    split
    · refine List.pairwise_cons.mpr ⟨fun x hx => ?_, hfurther⟩
      obtain ⟨y, -, rfl⟩ := List.mem_map.mp hx
      exact Nat.succ_pos _
    · exact hfurther

namespace Document

/-- **The rank of a reading**: the whole path comes first, and then the splits, by the length of
what stands before the dot. -/
def readingRank : Text × Option Text → Nat
  | (_, none) => 0
  | (o, some _) => o.length + 1

theorem mem_readings_iff {k : Text × Option Text} :
    k ∈ readings path ↔ k = (path, none) ∨ ∃ o r, o ++ '.' :: r = path ∧ k = (o, some r) := by
  rw [readings, List.mem_cons, List.mem_map]
  refine or_congr_right ⟨?_, ?_⟩
  · rintro ⟨⟨o, r⟩, hmem, rfl⟩
    exact ⟨o, r, mem_splits_iff.mp hmem, rfl⟩
  · rintro ⟨o, r, hpath, rfl⟩
    exact ⟨(o, r), mem_splits_iff.mpr hpath, rfl⟩

theorem pairwise_readings (path : Text) :
    (readings path).Pairwise fun x y => readingRank x < readingRank y := by
  refine List.pairwise_cons.mpr ⟨fun x hx => ?_, ?_⟩
  · obtain ⟨y, -, rfl⟩ := List.mem_map.mp hx
    exact Nat.succ_pos _
  · exact (pairwise_splits path).map _ fun _ _ h => Nat.succ_lt_succ h

end Document

/-! ### Searches -/

/-- The lookup ends in an absence. -/
def Absent {α : Type} (x : Except Refusal α) : Prop := ∃ e, x = .error e ∧ e.isAbsence = true

section

variable {α β : Type} {look : β → Except Refusal α} {fallback : Refusal} {k : β} {l : List β}
  {a : α}

theorem not_absent_of_ok (h : look k = .ok a) : ¬Absent (look k) := by
  rintro ⟨e, he, -⟩
  cases h.symm.trans he

/-- A search passes over what is absent. -/
theorem firstPresent_cons_of_absent (h : Absent (look k)) :
    firstPresent look fallback (k :: l) = firstPresent look fallback l := by
  obtain ⟨e, he, habsence⟩ := h
  rw [firstPresent, he]
  exact if_pos habsence

/-- What is not absent ends a search, be it there or refused. -/
theorem firstPresent_cons_of_not_absent (h : ¬Absent (look k)) :
    firstPresent look fallback (k :: l) = look k := by
  rw [firstPresent]
  cases hlook : look k with
  | ok a => rfl
  | error e => exact if_neg fun habsence => h ⟨e, hlook, habsence⟩

/-- **A search in the order of ranks** ends at the least rank at which something is there. -/
theorem firstPresent_eq_ok_iff {rank : β → Nat} (hl : l.Pairwise fun x y => rank x < rank y) :
    firstPresent look fallback l = .ok a ↔
      ∃ k ∈ l, look k = .ok a ∧ ∀ k' ∈ l, rank k' < rank k → Absent (look k') := by
  induction l with
  | nil => exact iff_of_false nofun fun ⟨_, hk, _⟩ => absurd hk List.not_mem_nil
  | cons x l ih =>
    obtain ⟨hx, hrest⟩ := List.pairwise_cons.mp hl
    by_cases habsent : Absent (look x)
    · rw [firstPresent_cons_of_absent habsent, ih hrest]
      constructor
      · rintro ⟨k, hk, hok, hbefore⟩
        refine ⟨k, List.mem_cons_of_mem _ hk, hok, fun k' hk' hlt => ?_⟩
        rcases List.mem_cons.mp hk' with rfl | hk'
        · exact habsent
        · exact hbefore k' hk' hlt
      · rintro ⟨k, hk, hok, hbefore⟩
        have hne : k ≠ x := by
          rintro rfl
          exact not_absent_of_ok hok habsent
        exact ⟨k, List.mem_of_ne_of_mem hne hk, hok,
          fun k' hk' => hbefore k' (List.mem_cons_of_mem _ hk')⟩
    · rw [firstPresent_cons_of_not_absent habsent]
      constructor
      · intro hok
        refine ⟨x, List.mem_cons_self, hok, fun k' hk' hlt => ?_⟩
        -- no rank is below the first one
        rcases List.mem_cons.mp hk' with rfl | hk'
        · exact absurd hlt (Nat.lt_irrefl _)
        · exact absurd hlt (Nat.lt_asymm (hx k' hk'))
      · rintro ⟨k, hk, hok, hbefore⟩
        rcases List.mem_cons.mp hk with rfl | hk
        · exact hok
        · exact absurd (hbefore x List.mem_cons_self (hx k hk)) habsent

end

theorem absent_map_iff {α β : Type} {x : Except Refusal α} {f : α → β} :
    Absent (x.map f) ↔ Absent x := by
  cases x with
  | ok a => exact iff_of_false nofun nofun
  | error e => simp [Absent, Except.map]

namespace Document

open Arena (childNamed?_eq_some childNamed?_eq_none_iff kind?_of_get?)

variable {d : Document} {e h s x : Handle} {n : Text}

/-! ### Sections and entries by their names -/

/-- **No live section has the name.** -/
def NoSection (d : Document) (o : Text) : Prop := ∀ s, d.sectionName s ≠ .ok o

/-- **The entry of a section** under a name: a live option or list. -/
def IsEntry (d : Document) (s e : Handle) (n : Text) : Prop :=
  d.arena.parent? e = some s ∧ (d.optionName e = .ok n ∨ d.listName e = .ok n)

/-- Attributes are those of live nodes of the right kind. -/
private theorem live_of_given {k : NodeKind} {f : Content → Option Text} {a : Attribute} {t : Text}
    (h : (do let n ← d.liveOf x k; given a (f n.content)) = .ok t) :
    d.isLive x = true ∧ d.arena.kind? x = some k := by
  obtain ⟨n, hn, -⟩ := bind_eq_ok_iff.mp h
  exact exists_liveOf_iff.mp ⟨n, hn⟩

theorem sectionName_eq_ok : d.sectionName s = .ok o ↔
    d.isLive s = true ∧ d.arena.kind? s = some .section ∧ d.arena.name? s = some o := by
  constructor
  · intro h
    obtain ⟨hlive, hk⟩ := live_of_given h
    exact ⟨hlive, hk, (sectionName_of_live hlive hk o).mp h⟩
  · rintro ⟨hlive, hk, hname⟩
    exact (sectionName_of_live hlive hk o).mpr hname

/-- An entry is what it is called as, an option or a list. -/
theorem named_entry_iff : d.optionName e = .ok n ∨ d.listName e = .ok n ↔
    d.isLive e = true ∧ (d.arena.kind? e = some .option ∨ d.arena.kind? e = some .list) ∧
      d.arena.name? e = some n := by
  constructor
  · rintro (h | h) <;> obtain ⟨hlive, hk⟩ := live_of_given h
    · exact ⟨hlive, Or.inl hk, (optionName_of_live hlive hk n).mp h⟩
    · exact ⟨hlive, Or.inr hk, (listName_of_live hlive hk n).mp h⟩
  · rintro ⟨hlive, hk | hk, hname⟩
    · exact Or.inl ((optionName_of_live hlive hk n).mpr hname)
    · exact Or.inr ((listName_of_live hlive hk n).mpr hname)

theorem isAbsence_of_sectionNamed {x : Refusal} (h : d.sectionNamed o = .error x) :
    x.isAbsence = true := by
  unfold sectionNamed at h
  split at h
  · cases h
  · cases h
    rfl

section

variable (hw : d.arena.WellFormed)
include hw

theorem find_section (o : Text) : d.find (some o) none = d.sectionNamed o := by
  rw [find, configuration_eq hw]
  rfl

theorem find_entry (o n : Text) : d.find (some o) (some n) = d.entryNamed o n := by
  rw [find, configuration_eq hw]
  rfl

/-- What is looked for in a section is found or absent; no other refusal comes of it. -/
theorem absent_find_iff {m : Option Text} :
    Absent (d.find (some o) m) ↔ ∀ h, d.find (some o) m ≠ .ok h := by
  constructor
  · rintro ⟨_, habsent, -⟩ h hok
    cases habsent.symm.trans hok
  intro hno
  cases hfind : d.find (some o) m with
  | ok h => exact absurd hfind (hno h)
  | error x =>
    refine ⟨x, rfl, ?_⟩
    cases m with
    | none => exact isAbsence_of_sectionNamed ((find_section hw o).symm.trans hfind)
    | some n =>
      rw [find_entry hw, entryNamed] at hfind
      cases hs : d.sectionNamed o with
      | error y =>
        rw [hs] at hfind
        cases hfind
        exact isAbsence_of_sectionNamed hs
      | ok s =>
        rw [hs] at hfind
        dsimp only [bind, Except.bind] at hfind
        split at hfind
        · cases hfind
        · cases hfind
          rfl

/-- The entry of a name is the only one. -/
theorem childNamed?_eq_some_iff (he : d.arena.Exclusive) (hs : d.sectionName s = .ok o) :
    d.arena.childNamed? s n = some e ↔ d.IsEntry s e n := by
  obtain ⟨hlive, hk, -⟩ := sectionName_eq_ok.mp hs
  constructor
  · intro h
    obtain ⟨hmem, hname⟩ := childNamed?_eq_some h
    have hpar := hw.mem_liveChildren_iff.mp hmem
    exact ⟨hpar, named_entry_iff.mpr
      ⟨(hw.isLive_of_parent hpar).trans hlive, hw.kind?_of_mem_entries hk hmem, hname⟩⟩
  · rintro ⟨hpar, hname⟩
    obtain ⟨-, -, hname⟩ := named_entry_iff.mp hname
    have hmem := hw.mem_liveChildren_iff.mpr hpar
    cases hchild : d.arena.childNamed? s n with
    | none => exact absurd hname (childNamed?_eq_none_iff.mp hchild e hmem)
    | some x =>
      obtain ⟨hx, hxname⟩ := childNamed?_eq_some hchild
      rw [he s _ hk n trivial x hx e hmem hxname hname]

variable (ht : d.arena.Tidy)
include ht

theorem mem_sections_iff :
    s ∈ d.sections ↔ d.isLive s = true ∧ d.arena.kind? s = some .section := by
  constructor
  · intro hs
    have hk := kind?_of_mem_sections hw ht hs
    rw [sections_eq hw] at hs
    obtain ⟨g, hg, hs⟩ := List.mem_flatMap.mp hs
    exact ⟨(isLive_of_mem_sections hw hg hs).2, hk⟩
  · rintro ⟨hlive, hk⟩
    rw [sections_eq hw]
    exact List.mem_flatMap.mpr (exists_group_of_isLive hw hlive hk)

/-- A section that is found by a name has it. -/
theorem sectionName_of_find (h : d.find (some o) none = .ok s) : d.sectionName s = .ok o := by
  rw [find_section hw, sectionNamed] at h
  split at h
  · next x hx =>
    cases h
    obtain ⟨hlive, hk⟩ := (mem_sections_iff hw ht).mp (List.mem_of_find?_eq_some hx)
    exact sectionName_eq_ok.mpr ⟨hlive, hk, by simpa using List.find?_some hx⟩
  · cases h

/-- A section is found by a name if there is one that has it. -/
theorem noSection_iff : d.NoSection o ↔ ∀ s, d.find (some o) none ≠ .ok s := by
  refine ⟨fun hno s h => hno s (sectionName_of_find hw ht h), fun hno s hs => ?_⟩
  obtain ⟨hlive, hk, hname⟩ := sectionName_eq_ok.mp hs
  cases hfind : d.sections.find? fun s => d.arena.name? s = some o with
  | some x =>
    refine hno x ?_
    rw [find_section hw, sectionNamed, hfind]
  | none =>
    have := List.find?_eq_none.mp hfind s ((mem_sections_iff hw ht).mpr ⟨hlive, hk⟩)
    exact this (by simpa using hname)

/-- An entry is found by the names of a section and its own. -/
theorem find_entry_eq_ok_iff (he : d.arena.Exclusive) :
    d.find (some o) (some n) = .ok e ↔ ∃ s, d.find (some o) none = .ok s ∧ d.IsEntry s e n := by
  rw [find_entry hw, find_section hw, entryNamed, bind_eq_ok_iff]
  refine exists_congr fun s => and_congr_right fun hs => ?_
  have hname := sectionName_of_find hw ht ((find_section hw o).trans hs)
  rw [← childNamed?_eq_some_iff hw he hname]
  cases d.arena.childNamed? s n <;> simp

end

/-! ### Where the two readings of a path end -/

/-- **The section with the shortest name** that the path begins with, up to a dot; of the sections
of that name it is the one that a lookup finds. -/
structure FirstOnPath (d : Document) (path o : Text) (s : Handle) (r : Text) : Prop where
  path_eq : o ++ '.' :: r = path
  found : d.find (some o) none = .ok s
  shortest : ∀ o' r', o' ++ '.' :: r' = path → o'.length < o.length → d.NoSection o'

/-- The rest of a path tells the part in front of the dot. -/
theorem eq_of_path_eq {o' : Text} (h : o ++ '.' :: r = path) (h' : o' ++ '.' :: r = path) :
    o = o' := List.append_cancel_right (h.trans h'.symm)

theorem isEmpty_of_checkPath (h : checkPath path = .ok ()) : path.isEmpty = false := by
  cases path with
  | nil => cases h
  | cons c t => rfl

section

variable (hw : d.arena.WellFormed) (ht : d.arena.Tidy)
include hw ht

/-- If a path begins with the name of a section, there is a shortest one. -/
theorem exists_firstOnPath (hpath : o ++ '.' :: r = path) (hs : d.sectionName s = .ok o) :
    ∃ o' s' r', d.FirstOnPath path o' s' r' := by
  -- the induction is on the length of the name
  induction hlen : o.length using Nat.strongRecOn generalizing o r s with
  | _ m ih =>
    by_cases hfirst : ∀ o' r', o' ++ '.' :: r' = path → o'.length < o.length → d.NoSection o'
    · obtain ⟨s', hs'⟩ : ∃ s', d.find (some o) none = .ok s' := by
        by_contra hno
        exact (noSection_iff hw ht).mpr (not_exists.mp hno) s hs
      exact ⟨o, s', r, hpath, hs', hfirst⟩
    · simp only [not_forall, NoSection, not_not] at hfirst
      obtain ⟨o', r', hpath', hlt, s', hs'⟩ := hfirst
      exact ih o'.length (hlen ▸ hlt) hpath' hs' rfl

/-- **A change by path** comes to the section with the shortest name. -/
theorem queryEntry_eq_ok_iff :
    d.queryEntry path = .ok (s, r) ↔ checkPath path = .ok () ∧ ∃ o, d.FirstOnPath path o s r := by
  rw [queryEntry, bind_eq_ok_iff]
  have hsearch : firstPresent (fun x => (d.find (some x.1) none).map (·, x.2))
      (.absence (.sectionOnPath path)) (splits path) = .ok (s, r) ↔ _ :=
    firstPresent_eq_ok_iff (pairwise_splits path)
  constructor
  · rintro ⟨⟨⟩, hcheck, h⟩
    refine ⟨hcheck, ?_⟩
    split at h
    · cases h
    · obtain ⟨⟨o, r'⟩, hmem, hok, hbefore⟩ := hsearch.mp h
      obtain ⟨s', hs', heq⟩ := map_eq_ok_iff.mp hok
      cases heq
      refine ⟨o, mem_splits_iff.mp hmem, hs', fun o' r' hpath hlt => ?_⟩
      exact (noSection_iff hw ht).mpr ((absent_find_iff hw).mp
        (absent_map_iff.mp (hbefore (o', r') (mem_splits_iff.mpr hpath) hlt)))
  · rintro ⟨hcheck, o, hpath, hs, hshortest⟩
    have hmem := mem_splits_iff.mpr hpath
    refine ⟨(), hcheck, ?_⟩
    rw [if_neg (by rw [List.isEmpty_iff]; exact List.ne_nil_of_mem hmem)]
    refine hsearch.mpr ⟨(o, r), hmem, map_eq_ok_iff.mpr ⟨s, hs, rfl⟩, ?_⟩
    rintro ⟨o', r'⟩ hmem' hlt
    exact absent_map_iff.mpr ((absent_find_iff hw).mpr
      ((noSection_iff hw ht).mp (hshortest o' r' (mem_splits_iff.mp hmem') hlt)))

/-- **A lookup** comes to the section that has the whole path for its name, or else to the entry
whose section has the shortest name. -/
theorem query_eq_ok_iff (hcheck : checkPath path = .ok ()) :
    d.query path = .ok h ↔ d.find (some path) none = .ok h ∨
      d.NoSection path ∧ ∃ o n, o ++ '.' :: n = path ∧ d.find (some o) (some n) = .ok h ∧
        ∀ o' n', o' ++ '.' :: n' = path → o'.length < o.length →
          ∀ x, d.find (some o') (some n') ≠ .ok x := by
  have hsearch : firstPresent (fun x => d.find (some x.1) x.2) (.absence (.atPath path))
      (readings path) = .ok h ↔ _ := firstPresent_eq_ok_iff (pairwise_readings path)
  rw [query, isEmpty_of_checkPath hcheck, hcheck]
  refine hsearch.trans ⟨?_, ?_⟩
  · rintro ⟨k, hk, hok, hbefore⟩
    rcases mem_readings_iff.mp hk with rfl | ⟨o, n, hpath, rfl⟩
    · exact Or.inl hok
    · refine Or.inr ⟨?_, o, n, hpath, hok, fun o' n' hpath' hlt => ?_⟩
      · exact (noSection_iff hw ht).mpr ((absent_find_iff hw).mp
          (hbefore (path, none) (mem_readings_iff.mpr (Or.inl rfl)) (Nat.succ_pos _)))
      · exact (absent_find_iff hw).mp (hbefore (o', some n')
          (mem_readings_iff.mpr (Or.inr ⟨o', n', hpath', rfl⟩)) (Nat.succ_lt_succ hlt))
  · rintro (hs | ⟨hno, o, n, hpath, hok, hbefore⟩)
    · exact ⟨(path, none), mem_readings_iff.mpr (Or.inl rfl), hs,
        fun k _ hlt => absurd hlt (Nat.not_lt_zero _)⟩
    · refine ⟨(o, some n), mem_readings_iff.mpr (Or.inr ⟨o, n, hpath, rfl⟩), hok, ?_⟩
      intro k hk hlt
      rcases mem_readings_iff.mp hk with rfl | ⟨o', n', hpath', rfl⟩
      · exact (absent_find_iff hw).mpr ((noSection_iff hw ht).mp hno)
      · exact (absent_find_iff hw).mpr (hbefore o' n' hpath' (Nat.lt_of_succ_lt_succ hlt))

end

/-! ### What a change by path is made to -/

/-- A search by a test that refuses nothing. -/
theorem findM?_eq {α : Type} {f : α → Except Refusal Bool} {q : α → Bool} {l : List α}
    (h : ∀ x ∈ l, f x = .ok (q x)) : l.findM? f = .ok (l.find? q) := by
  induction l with
  | nil => rfl
  | cons x l ih =>
    have hrest := ih fun y hy => h y (List.mem_cons_of_mem _ hy)
    rw [List.findM?, h x List.mem_cons_self, List.find?_cons]
    cases hq : q x with
    | true => rfl
    | false => exact hrest

/-- What is below a section are its live children. -/
theorem below_section (hs : d.sectionName s = .ok o) :
    d.below s = .ok (d.arena.liveChildren s) := by
  obtain ⟨hlive, hk, -⟩ := sectionName_eq_ok.mp hs
  exact below_children hlive (Or.inl hk)

/-- The name that counts for an entry is its own. -/
private theorem entryName_eq (hlive : d.isLive e = true)
    (hk : d.arena.kind? e = some .option ∨ d.arena.kind? e = some .list)
    (hname : d.arena.name? e = some n) : d.entryName e = .ok (some n) := by
  rcases hk with hk | hk
  · rw [entryName, role_of_live hlive hk, (optionName_of_live hlive hk n).mpr hname]
    rfl
  · rw [entryName, role_of_live hlive hk, (listName_of_live hlive hk n).mpr hname]
    rfl

/-- **The entry that a change is made to** is the one of the name. -/
theorem entryIn?_eq (hw : d.arena.WellFormed) (ht : d.arena.Tidy) (hs : d.sectionName s = .ok o)
    (n : Text) : d.entryIn? s n = .ok (d.arena.childNamed? s n) := by
  rw [entryIn?, below_section hs]
  refine findM?_eq fun x hx => ?_
  obtain ⟨hlive, hk, -⟩ := sectionName_eq_ok.mp hs
  have hkx := hw.kind?_of_mem_entries hk hx
  obtain ⟨m, hm⟩ := exists_name_of_entry ht hkx
  have hxlive := (hw.isLive_of_parent (hw.mem_liveChildren_iff.mp hx)).trans hlive
  rw [entryName_eq hxlive hkx hm, hm]
  rfl

/-! ### Both readings of a path -/

theorem IsEntry.kind? (h : d.IsEntry s e n) :
    d.arena.kind? e = some .option ∨ d.arena.kind? e = some .list := (named_entry_iff.mp h.2).2.1

/-- An option or a list is of no other kind. -/
theorem ne_kind_of_entry (h : d.arena.kind? e = some .option ∨ d.arena.kind? e = some .list)
    {k : NodeKind} (hk : d.arena.kind? e = some k) : k = .option ∨ k = .list :=
  h.imp (fun h => Option.some.inj (hk.symm.trans h)) fun h => Option.some.inj (hk.symm.trans h)

private theorem kind?_of_role (h : d.role e = .ok .option ∨ d.role e = .ok .list) :
    d.arena.kind? e = some .option ∨ d.arena.kind? e = some .list := by
  have hkind : ∀ {role}, d.role e = .ok role → ∃ k, d.arena.kind? e = some k ∧ k.role = role := by
    intro role h
    obtain ⟨n, hn, hrole⟩ := bind_eq_ok_iff.mp h
    exact ⟨n.kind, kind?_of_get? (live_eq_ok_iff.mp hn).1, Except.ok.inj hrole⟩
  rcases h with h | h
  · obtain ⟨k, hk, hrole⟩ := hkind h
    cases k with
    | option => exact Or.inl hk
    | _ => cases hrole
  · obtain ⟨k, hk, hrole⟩ := hkind h
    cases k with
    | list => exact Or.inr hk
    | _ => cases hrole

section

variable (hw : d.arena.WellFormed) (ht : d.arena.Tidy)
include hw

/-- A path that leads to an entry is well made, since the empty one leads to the
configuration. -/
theorem checkPath_of_query (h : d.query path = .ok e)
    (he : d.arena.kind? e = some .option ∨ d.arena.kind? e = some .list) :
    checkPath path = .ok () := by
  rw [query] at h
  split at h
  · rw [find, configuration_eq hw] at h
    cases h
    rcases ne_kind_of_entry he hw.kind_config with h | h <;> cases h
  · obtain ⟨⟨⟩, hcheck, -⟩ := bind_eq_ok_iff.mp h
    exact hcheck

include ht

/-- The path of an entry that is found is made of the names of its section and its own. -/
theorem path_of_query (hx : d.arena.Exclusive) (h : d.query path = .ok e)
    (he : d.arena.kind? e = some .option ∨ d.arena.kind? e = some .list) :
    ∃ o s n, d.find (some o) none = .ok s ∧ d.IsEntry s e n ∧ o ++ '.' :: n = path := by
  rcases (query_eq_ok_iff hw ht (checkPath_of_query hw h he)).mp h with
    hsection | ⟨-, o, n, hpath, hfound, -⟩
  · obtain ⟨-, hk, -⟩ := sectionName_eq_ok.mp (sectionName_of_find hw ht hsection)
    rcases ne_kind_of_entry he hk with h | h <;> cases h
  · obtain ⟨s, hs, hentry⟩ := (find_entry_eq_ok_iff hw ht hx).mp hfound
    exact ⟨o, s, n, hs, hentry, hpath⟩

/-- Where a change comes to an entry, no lookup ends before. -/
theorem query_of_firstOnPath (hx : d.arena.Exclusive) (hcheck : checkPath path = .ok ())
    (hfirst : d.FirstOnPath path o s n) (he : d.IsEntry s e n) (hno : d.NoSection path) :
    d.query path = .ok e := by
  refine (query_eq_ok_iff hw ht hcheck).mpr (Or.inr ⟨hno, o, n, hfirst.path_eq,
    (find_entry_eq_ok_iff hw ht hx).mpr ⟨s, hfirst.found, he⟩, fun o' n' hpath hlt x hfound => ?_⟩)
  obtain ⟨s', hs', -⟩ := (find_entry_eq_ok_iff hw ht hx).mp hfound
  exact hfirst.shortest o' n' hpath hlt s' (sectionName_of_find hw ht hs')

end

/-- **Paths of entries**: what a lookup by path and a change by path have to do with each
other. -/
structure EntriesAddressed (d : Document) : Prop where
  /-- The path of an option or list that is found is made of the names of its section and its
  own; and a change comes to it too, exactly if the path begins with no shorter name of a
  section. -/
  changed : ∀ path e, d.query path = .ok e → d.role e = .ok .option ∨ d.role e = .ok .list →
    ∃ s o n, d.sectionName s = .ok o ∧ d.IsEntry s e n ∧ o ++ '.' :: n = path ∧
      (d.queryEntry path = .ok (s, n) ↔
        ∀ o' r, o' ++ '.' :: r = path → o'.length < o.length → d.NoSection o')
  /-- In any case a change comes to the section with the shortest name. -/
  shortest : ∀ path e, d.query path = .ok e → d.role e = .ok .option ∨ d.role e = .ok .list →
    ∃ o s r, d.FirstOnPath path o s r ∧ d.queryEntry path = .ok (s, r)
  /-- If there is an entry where a change comes to, the change is made to it; and a lookup finds
  it too, exactly if the whole path is the name of no section. -/
  seen : ∀ path s e n, d.queryEntry path = .ok (s, n) → d.IsEntry s e n →
    d.entryIn? s n = .ok (some e) ∧ (d.query path = .ok e ↔ d.NoSection path)
  /-- In the other case a lookup finds that section. -/
  whole : ∀ path x s, d.queryEntry path = .ok x → d.find (some path) none = .ok s →
    d.query path = .ok s

/-- **A change and a lookup come to the same entry**, exactly if no name of another section gets
in between. -/
theorem entriesAddressed_of_reachable (hd : d.Reachable OnIssued) : d.EntriesAddressed := by
  have hb : d.Built OnIssued := hd.built fun _ _ h => h.1
  have hw := hb.wellFormed
  have ht := hb.tidy fun _ _ h => h
  obtain ⟨-, -, hx⟩ := (hb.mono fun _ _ _ => trivial).names
  refine
    { changed := fun path e hquery hrole => ?_
      shortest := fun path e hquery hrole => ?_
      seen := fun path s e n hchange he => ?_
      whole := fun path x s hchange hs => ?_ }
  · have hcheck := checkPath_of_query hw hquery (kind?_of_role hrole)
    obtain ⟨o, s, n, hs, he, hpath⟩ := path_of_query hw ht hx hquery (kind?_of_role hrole)
    refine ⟨s, o, n, sectionName_of_find hw ht hs, he, hpath, ?_, fun hshortest => ?_⟩
    · intro hchange
      obtain ⟨-, o', hfirst⟩ := (queryEntry_eq_ok_iff hw ht).mp hchange
      rw [eq_of_path_eq hpath hfirst.path_eq]
      exact hfirst.shortest
    · exact (queryEntry_eq_ok_iff hw ht).mpr ⟨hcheck, o, hpath, hs, hshortest⟩
  · have hcheck := checkPath_of_query hw hquery (kind?_of_role hrole)
    obtain ⟨o, s, n, hs, -, hpath⟩ := path_of_query hw ht hx hquery (kind?_of_role hrole)
    obtain ⟨o', s', r', hfirst⟩ := exists_firstOnPath hw ht hpath (sectionName_of_find hw ht hs)
    exact ⟨o', s', r', hfirst, (queryEntry_eq_ok_iff hw ht).mpr ⟨hcheck, o', hfirst⟩⟩
  · obtain ⟨hcheck, o, hfirst⟩ := (queryEntry_eq_ok_iff hw ht).mp hchange
    have hname := sectionName_of_find hw ht hfirst.found
    refine ⟨?_, fun hquery => ?_, query_of_firstOnPath hw ht hx hcheck hfirst he⟩
    · rw [entryIn?_eq hw ht hname, (childNamed?_eq_some_iff hw hx hname).mpr he]
    · refine (noSection_iff hw ht).mpr fun s' hs' => ?_
      -- a section of that name would have been found in place of the entry
      have hsection := (query_eq_ok_iff hw ht hcheck).mpr (Or.inl hs')
      cases hsection.symm.trans hquery
      obtain ⟨-, hk, -⟩ := sectionName_eq_ok.mp (sectionName_of_find hw ht hs')
      rcases ne_kind_of_entry he.kind? hk with h | h <;> cases h
  · obtain ⟨s', r⟩ := x
    exact (query_eq_ok_iff hw ht ((queryEntry_eq_ok_iff hw ht).mp hchange).1).mpr (Or.inl hs)

/-- A section whose name has a dot, and an entry whose name has one. -/
theorem entriesAddressed_of_dottedNames :
    let d := empty.play [.addSection 0 "host".toList (some "nas.lan".toList),
      .addSection 0 "host".toList (some "lan".toList), .addOption 3 "ip.v4".toList "1".toList]
    d.Reachable OnIssued ∧ d.query "nas.lan.ip.v4".toList = .ok 5 ∧
      d.queryEntry "nas.lan.ip.v4".toList = .ok (3, "ip.v4".toList) ∧ d.EntriesAddressed := by
  intro d
  have hd : d.Reachable OnIssued := Reachable.play .empty (by decide)
  exact ⟨hd, by rfl, by rfl, entriesAddressed_of_reachable hd⟩

/-- **A change and a lookup can part ways.**  Two sections are called `a` and `a.b`.  A lookup of
`a.b.c` finds the option `c` of the second one, and a change comes to the first; a change of
`a.b` comes to the option `b` of the first one, and a lookup finds the second.  So neither of
the two follows the other to every entry. -/
theorem overlapping_names :
    let d := empty.play [.addSection 0 "t".toList (some "a".toList),
      .addSection 0 "t".toList (some "a.b".toList), .addOption 3 "b".toList "1".toList,
      .addOption 4 "c".toList "2".toList]
    d.Reachable OnIssued ∧
      (d.query "a.b.c".toList = .ok 6 ∧ d.IsEntry 4 6 "c".toList ∧
        d.queryEntry "a.b.c".toList = .ok (3, "b.c".toList)) ∧
      (d.queryEntry "a.b".toList = .ok (3, "b".toList) ∧ d.IsEntry 3 5 "b".toList ∧
        d.query "a.b".toList = .ok 4) ∧
      (¬∀ path s e n, d.query path = .ok e → d.IsEntry s e n → d.queryEntry path = .ok (s, n)) ∧
      ¬∀ path s e n, d.queryEntry path = .ok (s, n) → d.IsEntry s e n → d.query path = .ok e := by
  intro d
  have hc : d.query "a.b.c".toList = .ok 6 := by rfl
  have hcentry : d.IsEntry 4 6 "c".toList := ⟨by rfl, Or.inl (by rfl)⟩
  have hcchange : d.queryEntry "a.b.c".toList = .ok (3, "b.c".toList) := by rfl
  have hb : d.queryEntry "a.b".toList = .ok (3, "b".toList) := by rfl
  have hbentry : d.IsEntry 3 5 "b".toList := ⟨by rfl, Or.inl (by rfl)⟩
  have hblookup : d.query "a.b".toList = .ok 4 := by rfl
  refine ⟨Reachable.play .empty (by decide), ⟨hc, hcentry, hcchange⟩, ⟨hb, hbentry, hblookup⟩,
    fun h => ?_, fun h => ?_⟩
  · have heq := Except.ok.inj (hcchange.symm.trans (h _ _ _ _ hc hcentry))
    exact absurd (congrArg Prod.fst heq) (by decide)
  · exact absurd (Except.ok.inj (hblookup.symm.trans (h _ _ _ _ hb hbentry))) (by decide)

end Document
end Uci
