import Uci.Proofs.Document.Meaning
import Uci.Proofs.Syntax.Directive

/-!
# Replaying line by line

A document is made by obeying the directives of a source in turn, so that what is known of a
reading can be told line by line: what the document is in front of a line, and what the line does
to it or is refused for.

## Main definitions

* `Progress`, `Progress.obey` — a replay on its way, and one directive of it.
* `Progress.Underway` — what holds of a replay on its way.
* `Progress.Refuses` — a value of a directive that is refused, and why.

## Main results

* `replay_eq` — a replay obeys the directives of its items.
* `Progress.Underway.obey` — a directive that is obeyed leaves a replay on its way.
* `Progress.obey_eq_error_iff` — **one directive fails exactly for a value that is refused.**
* `replay_eq_error_iff` — a replay fails at the first directive that does.
-/

namespace Uci

open Syntax (Value Entry Section Item Directive isWord)

/-- **The value that is reported** when `v` is refused.  Of a header that has a name it is the name
in any case. -/
def Syntax.Directive.reported : Directive → Value → Value
  | .header _ (some name), _ => name
  | _, v => v

namespace Document

/-- **A replay on its way**: the section that is open, if there is one, and the document. -/
structure Progress where
  current? : Option Handle
  document : Document

namespace Progress

/-- In front of all directives. -/
def start : Progress := ⟨none, empty⟩

/-- A line for the section that is open; no line of a source comes without one. -/
def inSection (p : Progress) (line : Handle → Document → Except Rejection Document) :
    Except Rejection Progress :=
  match p.current? with
  | none => .ok p
  | some s => (line s p.document).map (Progress.mk (some s))

/-- **One directive.** -/
def obey (p : Progress) : Directive → Except Rejection Progress
  | .package name =>
    (accept name (setPackage (some name.text)) p.document).map fun r => ⟨none, r.2⟩
  | .header type name => (openSection type name p.document).map fun r => ⟨some r.1, r.2⟩
  | .option name value => p.inSection fun s => replayOption s name value
  | .list name value => p.inSection fun s => replayList s name value

variable {p p' : Progress} {r : Rejection} {line : Handle → Document → Except Rejection Document}

/-- A line that is obeyed leaves the same section open, and is passed over if there is none. -/
theorem inSection_eq_ok_iff : p.inSection line = .ok p' ↔
    p.current? = none ∧ p' = p ∨
      ∃ s d', p.current? = some s ∧ line s p.document = .ok d' ∧ p' = ⟨some s, d'⟩ := by
  unfold inSection
  cases p.current? with
  | none => simp [eq_comm]
  | some s =>
    constructor
    · intro h
      obtain ⟨d', hline, rfl⟩ := map_eq_ok_iff.mp h
      exact Or.inr ⟨s, d', rfl, hline, rfl⟩
    · rintro (⟨⟨⟩, -⟩ | ⟨_, d', ⟨⟩, hline, rfl⟩)
      exact map_eq_ok_iff.mpr ⟨d', hline, rfl⟩

theorem inSection_eq_error_iff : p.inSection line = .error r ↔
    ∃ s, p.current? = some s ∧ line s p.document = .error r := by
  unfold inSection
  cases p.current? with
  | none => simp
  | some s => simp [map_eq_error_iff]

end Progress

/-! ### A replay obeys its directives -/

/-- An entry in its section. -/
private theorem obey_entry (e : Entry) :
    (e.directive? = none ∧ e.line? = none) ∨ ∃ x, e.directive? = some x ∧ ∀ s d,
      Progress.obey ⟨some s, d⟩ x = (replayEntry s d e).map (Progress.mk (some s)) := by
  rcases e with ⟨_ | name, _ | value⟩ | ⟨_ | name, value⟩
  · exact Or.inl ⟨rfl, rfl⟩
  · exact Or.inl ⟨rfl, rfl⟩
  · exact Or.inl ⟨rfl, rfl⟩
  · exact Or.inr ⟨_, rfl, fun s d => rfl⟩
  · exact Or.inl ⟨rfl, rfl⟩
  · exact Or.inr ⟨_, rfl, fun s d => rfl⟩

/-- The entries of a section, while it is open. -/
private theorem obey_entries (s : Handle) (es : List Entry) (d : Document) :
    (es.filterMap Entry.directive?).foldlM Progress.obey ⟨some s, d⟩ =
      (es.foldlM (replayEntry s) d).map (Progress.mk (some s)) := by
  induction es generalizing d with
  | nil => rfl
  | cons e es ih =>
    rw [List.foldlM_cons]
    rcases obey_entry e with ⟨hnone, hline⟩ | ⟨x, hx, hobey⟩
    · rw [List.filterMap_cons_none hnone, replayEntry_skip s d e hline]
      exact ih d
    · rw [List.filterMap_cons_some hx, List.foldlM_cons, hobey]
      cases replayEntry s d e with
      | error r => rfl
      | ok d' => exact ih d'

private theorem obey_item (p : Progress) (i : Item) :
    (i.directives.foldlM Progress.obey p).map Progress.document = replayItem p.document i := by
  cases i with
  | package name =>
    cases name with
    | none => rfl
    | some v =>
      show ((accept v _ p.document).map _ >>= _).map _ = (accept v _ p.document).map _
      cases accept v (setPackage (some v.text)) p.document <;> rfl
  | «section» body =>
    obtain ⟨type, name, header, entries⟩ := body
    cases type with
    | none => rfl
    | some type =>
      show ((openSection type name p.document).map _ >>= _).map _ =
        openSection type name p.document >>= _
      cases openSection type name p.document with
      | error r => rfl
      | ok r =>
        show ((entries.filterMap Entry.directive?).foldlM Progress.obey
          ⟨some r.1, r.2⟩).map _ = entries.foldlM (replayEntry r.1) r.2
        rw [obey_entries]
        cases entries.foldlM (replayEntry r.1) r.2 <;> rfl

private theorem obey_items (items : List Item) (p : Progress) :
    ((items.flatMap Item.directives).foldlM Progress.obey p).map Progress.document =
      items.foldlM replayItem p.document := by
  induction items generalizing p with
  | nil => rfl
  | cons i items ih =>
    rw [List.flatMap_cons, List.foldlM_append, List.foldlM_cons, ← obey_item]
    cases i.directives.foldlM Progress.obey p with
    | error r => rfl
    | ok q => exact ih q

/-- **A replay obeys the directives of its items**, one after the other. -/
theorem replay_eq (items : List Item) :
    replay items =
      ((items.flatMap Item.directives).foldlM Progress.obey .start).map Progress.document :=
  (obey_items items .start).symm

/-! ### What holds on the way -/

variable {d d' : Document} {s : Handle}

/-- The section stands on the sheet. -/
def Holds (d : Document) (s : Handle) : Prop :=
  ∃ (c : Sheet.Context) (m : Text) (es : List Sheet.Entry), d.Shows (c.fill ⟨s, m, es⟩)

/-- A section that is opened again is one of the sheet; its type is a word, and its name is not
empty. -/
theorem holds_of_sectionToReopen? (hd : d.Built OnReading) {type : Text} {v : Value}
    (h : d.sectionToReopen? type (some v) = some s) :
    d.Holds s ∧ isWord type = true ∧ v.text ≠ [] := by
  have hshows : d.Shows d.sheet := ⟨hd, rfl⟩
  rw [sectionToReopen?_eq hshows.wellFormed hshows.tidy] at h
  obtain ⟨x, hx, rfl⟩ := Option.map_eq_some_iff.mp h
  obtain ⟨g, hg, hx⟩ := Option.bind_eq_some_iff.mp hx
  obtain ⟨hgtype, gs, gs', hgroups, -⟩ := List.find?_eq_some_iff_append.mp hg
  obtain ⟨hxname, secs, secs', hsections, -⟩ := List.find?_eq_some_iff_append.mp hx
  have hgroup := hshows.writable.groups g.draft (List.mem_map_of_mem (List.mem_of_find?_eq_some hg))
  have hsection := hgroup.sections x.draft (List.mem_map_of_mem (List.mem_of_find?_eq_some hx))
  refine ⟨⟨⟨d.sheet.package, gs, g.handle, g.type, secs, secs', gs'⟩, x.name, x.entries, ?_⟩,
    (of_decide_eq_true hgtype) ▸ hgroup.type_word, fun hnil => ?_⟩
  · have hfill : d.sheet = (⟨d.sheet.package, gs, g.handle, g.type, secs, secs', gs'⟩ :
        Sheet.Context).fill ⟨x.handle, x.name, x.entries⟩ := by
      unfold Sheet.Context.fill
      rw [← hsections, ← hgroups]
    exact hfill ▸ hshows
  · -- an empty name would be one that was given, and those are not empty
    have hxnil : x.name = [] := (of_decide_eq_true hxname).trans hnil
    have hgiven : givenName? x.name = some [] := by
      rw [hxnil]
      rfl
    exact (hsection.name_given [] hgiven).1 rfl

/-- What a header opens is one of the sheet, whatever name it has. -/
theorem holds_of_openSection (hd : d.Built OnReading) {type : Value} {name : Option Value}
    (h : openSection type name d = .ok (s, d')) : d'.Holds s := by
  have hshows : d.Shows d.sheet := ⟨hd, rfl⟩
  rcases openSection_cases hshows.wellFormed h with ⟨v, rfl, hreopen, rfl⟩ | ⟨-, hacc⟩
  · exact (holds_of_sectionToReopen? hd hreopen).1
  · obtain ⟨hheader, hgiven⟩ := hacc.takesHeader
    obtain ⟨c, ⟨s₁, m, es, d₁, hsame, h₁, -⟩, -⟩ :=
      hshows.opens hheader fun n hn => (hgiven n hn).2
    obtain ⟨rfl, rfl⟩ := Prod.mk.inj (Except.ok.inj (h.symm.trans (hsame type name rfl rfl)))
    exact ⟨c, m, es, h₁⟩

/-- A line leaves the section where it stands. -/
theorem Holds.replayEntry (h : d.Holds s) {e : Entry} {l : Syntax.Line} (he : e.line? = some l)
    (hreplay : Document.replayEntry s d e = .ok d') : d'.Holds s := by
  obtain ⟨c, m, es, hshows⟩ := h
  have hagrees := hshows.line_agrees he
  rw [hreplay, agrees_ok_iff] at hagrees
  obtain ⟨-, -, es', hshows', -⟩ := hagrees
  exact ⟨c, m, es', hshows'⟩

namespace Progress

variable {p p' : Progress} {x : Directive} {r : Rejection}

/-- **A replay on its way.** -/
structure Underway (p : Progress) : Prop where
  built : p.document.Built OnReplay
  holds : ∀ s ∈ p.current?, p.document.Holds s

theorem underway_start : start.Underway := ⟨.empty, nofun⟩

namespace Underway

theorem reading (h : p.Underway) : p.document.Built OnReading :=
  h.built.mono fun _ _ hop => hop.onReading

/-- The open section is an issued handle. -/
theorem toReading (h : p.Underway) (hs : p.current? = some s) : p.document.Reading s := by
  obtain ⟨c, m, es, hshows⟩ := h.holds s hs
  exact ⟨h.built, .section, hshows.open_section.2.1, by nofun⟩

/-- So does a line, if the section that is open still holds together behind it. -/
private theorem inSection (h : p.Underway)
    {line : Handle → Document → Except Rejection Document} (hobey : p.inSection line = .ok p')
    (hline : ∀ s d', p.document.Reading s → p.document.Holds s → line s p.document = .ok d' →
      d'.Built OnReplay ∧ d'.Holds s) : p'.Underway := by
  rcases inSection_eq_ok_iff.mp hobey with ⟨-, rfl⟩ | ⟨s, d', hs, hreplay, rfl⟩
  · exact h
  · obtain ⟨hbuilt, hholds⟩ := hline s d' (h.toReading hs) (h.holds s hs) hreplay
    refine ⟨hbuilt, ?_⟩
    rintro _ ⟨⟩
    exact hholds

/-- **A directive that is obeyed** leaves a replay on its way. -/
theorem obey (h : p.Underway) (hobey : p.obey x = .ok p') : p'.Underway := by
  cases x with
  | package name =>
    obtain ⟨⟨⟨⟩, d'⟩, hacc, rfl⟩ := map_eq_ok_iff.mp hobey
    have hissued := h.built.onIssued_root
    exact ⟨(Reading.edit (r := none) ⟨h.built, hissued⟩ (.setPackage (some name.text))
      ⟨by nofun, rfl⟩ (run_map_of_accept _ hacc)).1.1, nofun⟩
  | header type name =>
    obtain ⟨⟨s, d'⟩, hopen, rfl⟩ := map_eq_ok_iff.mp hobey
    refine ⟨(reading_openSection h.built hopen).1, ?_⟩
    rintro _ ⟨⟩
    exact holds_of_openSection h.reading hopen
  | option name value =>
    exact h.inSection hobey fun s d' hreading hholds hreplay =>
      ⟨(reading_replayOption hreading hreplay).1,
        hholds.replayEntry (e := .option (some name) (some value)) rfl hreplay⟩
  | list name value =>
    exact h.inSection hobey fun s d' hreading hholds hreplay =>
      ⟨(reading_replayList hreading hreplay).1,
        hholds.replayEntry (e := .list (some name) value) rfl hreplay⟩

end Underway

/-! ### What is refused -/

/-- **A value that is refused**, and why. -/
inductive Refuses (p : Progress) : Directive → Value → ParseCause → Prop
  | package {v : Value} :
    ¬isWord v.text = true →
    Refuses p (.package v) v (.refused (.misuse (.notAWord .packageName v.text)))
  | type {v : Value} {name : Option Value} :
    ¬isWord v.text = true →
    Refuses p (.header v name) v (.refused (.misuse (.notAWord .sectionType v.text)))
  | emptyName {type v : Value} :
    isWord type.text = true → v.text = [] →
    Refuses p (.header type (some v)) v (.refused (.misuse .emptySectionName))
  /-- A name of the generated kind that no section of the type has. -/
  | reservedName {type v : Value} :
    isWord type.text = true → v.text.head? = some '@' →
    p.document.sectionToReopen? type.text (some v) = none →
    Refuses p (.header type (some v)) v (.refused (.misuse (.reservedSectionName v.text)))
  | optionName {v value : Value} {s : Handle} :
    p.current? = some s → ¬isWord v.text = true →
    Refuses p (.option v value) v (.refused (.misuse (.notAWord .optionName v.text)))
  /-- The name of a list of the section. -/
  | optionOfList {v value : Value} {s l : Handle} :
    p.current? = some s → p.document.entryOf? s v.text = some (l, .list) →
    Refuses p (.option v value) v (.isList v.text)
  | listName {v : Value} {value : Option Value} {s : Handle} :
    p.current? = some s → ¬isWord v.text = true →
    Refuses p (.list v value) v (.refused (.misuse (.notAWord .listName v.text)))
  /-- The name of an option of the section. -/
  | listOfOption {v : Value} {value : Option Value} {s o : Handle} :
    p.current? = some s → p.document.entryOf? s v.text = some (o, .option) →
    Refuses p (.list v value) v (.isOption v.text)

end Progress

section Refused

variable {α : Type} {v : Value} {r : Rejection} {n : Text} {l : Handle} {k : NodeKind}

/-- An edit that is refused blames its value. -/
theorem accept_eq_error_iff {e : Edit α} :
    accept v e d = .error r ↔ ∃ c, (e.run d).1 = .error c ∧ r = ⟨.refused c, v.offset⟩ := by
  unfold accept
  rcases Edit.run e d with ⟨c | a, d'⟩
  · simp [eq_comm]
  · simp

/-- A guarded edit is refused for what its check finds. -/
theorem accept_guarded_eq_error_iff {β : Type} {check : Document → Except Refusal α}
    {change : α → Document → β × Document} :
    accept v (Edit.guarded check change) d = .error r ↔
      ∃ c, check d = .error c ∧ r = ⟨.refused c, v.offset⟩ := by
  rw [accept_eq_error_iff, Edit.run_guarded]
  cases check d <;> simp

/-! ### Headers -/

/-- Without a section to open again, a header is refused for its type, or else for its name. -/
private theorem checkAddSection_eq_error_iff (hw : d.arena.WellFormed) {type : Text}
    {name : Option Value} (hnone : d.sectionToReopen? type name = none) {c : Refusal} :
    checkAddSection root type (name.map Value.text) d = .error c ↔
      ¬isWord type = true ∧ c = .misuse (.notAWord .sectionType type) ∨
        isWord type = true ∧ ∃ v ∈ name, checkSectionName v.text = .error c := by
  have hparent : d.sectionParent root = .ok 1 :=
    (sectionParent_eq_ok_iff hw).mpr ⟨Or.inl rfl, rfl⟩
  -- the group of the type has no section of the name, or it would be opened again
  have hunused : ∀ v ∈ name, ∀ g, d.groupNamed? 1 type = some g →
      d.checkUnused g v.text none = .ok () := by
    rintro v rfl g hg
    refine checkUnused_eq_ok_iff.mpr fun x hx _ hxn => ?_
    unfold sectionToReopen? at hnone
    rw [configuration_eq hw] at hnone
    change (d.groupNamed? 1 type).bind (fun g => d.arena.childNamed? g v.text) = none at hnone
    rw [hg, Option.bind_some] at hnone
    exact List.find?_eq_none.mp hnone x hx (decide_eq_true hxn)
  unfold checkAddSection
  rw [hparent]
  change (checkWord .sectionType type >>= _) = .error c ↔ _
  rw [check_bind_eq_error_iff, checkWord_eq_error_iff, checkWord_eq_ok_iff]
  refine or_congr_right (and_congr_right fun _ => ?_)
  cases name with
  | none =>
    cases d.groupNamed? 1 type <;> simp [Option.forM, bind, Except.bind, pure, Except.pure]
  | some v =>
    show (checkSectionName v.text >>= _) = .error c ↔ _
    rw [bind_eq_error_iff]
    simp only [Option.mem_def, Option.some.injEq, exists_eq_left']
    refine or_iff_left ?_
    rintro ⟨⟨⟩, -, hrest⟩
    cases hg : d.groupNamed? 1 type with
    | none =>
      rw [hg] at hrest
      cases hrest
    | some g =>
      have hrest : (d.checkUnused g v.text none >>= _) = .error c := hg ▸ hrest
      rw [hunused v rfl g hg] at hrest
      cases hrest

/-- **A header is refused** for its type if that is no word, and else for its name; what is
blamed is the name, if it has one. -/
private theorem openSection_eq_error_iff (hd : d.Built OnReading) {type : Value}
    {name : Option Value} :
    openSection type name d = .error r ↔ d.sectionToReopen? type.text name = none ∧
      ∃ c, r = ⟨.refused c, (name.getD type).offset⟩ ∧
        (¬isWord type.text = true ∧ c = .misuse (.notAWord .sectionType type.text) ∨
          isWord type.text = true ∧ ∃ v ∈ name, checkSectionName v.text = .error c) := by
  unfold openSection
  cases hreopen : d.sectionToReopen? type.text name with
  | some s => simp
  | none =>
    rw [accept_eq_error_iff, run_addSection, Edit.run_guarded]
    have hcheck := fun c => checkAddSection_eq_error_iff hd.wellFormed hreopen (c := c)
    cases hadd : checkAddSection root type.text (name.map Value.text) d with
    | error c =>
      simp only [hadd] at hcheck
      simp only [Except.error.injEq, true_and, ← hcheck]
      exact ⟨fun ⟨c', hc, hr⟩ => ⟨c', hr, hc⟩, fun ⟨c', hr, hc⟩ => ⟨c', hc, hr⟩⟩
    | ok a =>
      simp only [hadd] at hcheck
      simp only [← hcheck, reduceCtorEq, false_and, exists_false, and_false]

/-! ### Lines -/

/-- An entry of the section has a word as its name, and is a live option or a live list. -/
theorem Holds.of_entryOf? (h : d.Holds s) (he : d.entryOf? s n = some (l, k)) :
    isWord n = true ∧ d.isLive l = true ∧ d.arena.kind? l = some k ∧ (k = .option ∨ k = .list) := by
  obtain ⟨c, m, es, hshows⟩ := h
  rw [hshows.entryOf?_eq] at he
  obtain ⟨e, hfind, hpair⟩ := Option.map_eq_some_iff.mp he
  cases hpair
  have hmem : e ∈ es := List.mem_of_find?_eq_some hfind
  have hname : e.name = n := by simpa using List.find?_some hfind
  obtain ⟨hlive, hk⟩ := hshows.entry_live (x := ⟨s, m, es⟩) hmem
  have hword := hshows.section_writable.entry_word e.outline (List.mem_map_of_mem hmem)
  rw [Sheet.Entry.name_outline, hname] at hword
  refine ⟨hword, hlive, hk, ?_⟩
  obtain ⟨l, m, _ | _⟩ := e
  · exact Or.inl rfl
  · exact Or.inr rfl

/-- A new entry of the section is refused for its name alone. -/
private theorem checkEntry_eq_error_iff (h : d.Holds s) (he : d.entryOf? s n = none)
    (hk : NodeKind.section.mayHold k = true) (use : WordUse) {c : Refusal} :
    (do d.checkHolds s k; checkWord use n; d.checkUnused s n none) = .error c ↔
      ¬isWord n = true ∧ c = .misuse (.notAWord use n) := by
  obtain ⟨c', m, es, hshows⟩ := h
  obtain ⟨hlive, hkind, -⟩ := hshows.open_section
  rw [checkHolds_eq_ok_iff.mpr ⟨hlive, _, hkind, hk⟩]
  -- no entry has the name, so that it is free
  have hun : d.checkUnused s n none = .ok () := by
    refine checkUnused_eq_ok_iff.mpr (hshows.unused (x := ⟨s, m, es⟩) fun e hmem hname => ?_).1
    rw [hshows.entryOf?_eq, Option.map_eq_none_iff] at he
    simpa [hname] using List.find?_eq_none.mp he e hmem
  change (checkWord use n >>= _) = .error c ↔ _
  rw [bind_eq_error_iff, checkWord_eq_error_iff, hun]
  simp

/-- The list that a line opens is a live one. -/
private theorem Holds.of_openList (h : d.Holds s) (hopen : openList s v d = .ok (l, d')) :
    d'.isLive l = true ∧ d'.arena.kind? l = some .list := by
  unfold openList at hopen
  cases he : d.entryOf? s v.text with
  | some e =>
    obtain ⟨l', k⟩ := e
    obtain ⟨-, hlive, hk, -⟩ := h.of_entryOf? he
    rw [he] at hopen
    cases k with
    | list =>
      cases hopen
      exact ⟨hlive, hk⟩
    | _ => cases hopen
  | none =>
    rw [he] at hopen
    obtain ⟨c, m, es, hshows⟩ := h
    have hword : isWord v.text = true := by
      have hacc := accepts_of_accept hshows.wellFormed (.addList s v.text) rfl hopen
      cases hacc with
      | addList _ hword _ => exact hword
    have hun : ∀ e ∈ es, e.name ≠ v.text := by
      rw [hshows.entryOf?_eq, Option.map_eq_none_iff] at he
      exact fun e hmem => by simpa using List.find?_eq_none.mp he e hmem
    obtain ⟨d₁, hadd, hshows'⟩ := hshows.addList (x := ⟨s, m, es⟩) hword hun
    cases (hadd v).symm.trans hopen
    exact hshows'.entry_live (List.mem_append_right es List.mem_cons_self)

/-- **An option line is refused** for a name that is no word, or that a list has. -/
private theorem replayOption_eq_error_iff (h : d.Holds s) {value : Value} :
    replayOption s v value d = .error r ↔ r.offset = v.offset ∧
      (¬isWord v.text = true ∧ r.cause = .refused (.misuse (.notAWord .optionName v.text)) ∨
        (∃ l, d.entryOf? s v.text = some (l, .list)) ∧ r.cause = .isList v.text) := by
  unfold replayOption
  cases he : d.entryOf? s v.text with
  | none =>
    rw [map_eq_error_iff]
    change accept v (Edit.guarded _ _) d = _ ↔ _
    rw [accept_guarded_eq_error_iff]
    simp only [checkEntry_eq_error_iff (k := .option) h he rfl .optionName]
    obtain ⟨cause, offset⟩ := r
    simp [and_comm, and_assoc]
  | some e =>
    obtain ⟨l, k⟩ := e
    obtain ⟨hword, hlive, hk, rfl | rfl⟩ := h.of_entryOf? he
    · -- another value for an option is never refused
      obtain ⟨n, hn⟩ := exists_liveOf_iff.mpr ⟨hlive, hk⟩
      have hset : accept v (setOptionValue l value.text) d ≠ .error r := by
        intro hset
        obtain ⟨c, hc, -⟩ := accept_guarded_eq_error_iff.mp hset
        cases hn.symm.trans hc
      simp [map_eq_error_iff, hset, hword]
    · obtain ⟨cause, offset⟩ := r
      simp [hword, and_comm, eq_comm]

/-- **A list line is refused** for a name that is no word, or that an option has. -/
private theorem replayList_eq_error_iff (h : d.Holds s) {value : Option Value} :
    replayList s v value d = .error r ↔ r.offset = v.offset ∧
      (¬isWord v.text = true ∧ r.cause = .refused (.misuse (.notAWord .listName v.text)) ∨
        (∃ o, d.entryOf? s v.text = some (o, .option)) ∧ r.cause = .isOption v.text) := by
  -- a value for the list that was opened is never refused
  have hopened : replayList s v value d = .error r ↔ openList s v d = .error r := by
    unfold replayList
    rw [bind_eq_error_iff]
    refine or_iff_left ?_
    rintro ⟨⟨l, d'⟩, hopen, hrest⟩
    cases value with
    | none => cases hrest
    | some w =>
      obtain ⟨hlive, hk⟩ := h.of_openList hopen
      rw [map_eq_error_iff] at hrest
      obtain ⟨c, hc, -⟩ := accept_guarded_eq_error_iff.mp hrest
      cases (checkHolds_eq_ok_iff.mpr ⟨hlive, _, hk, rfl⟩).symm.trans hc
  rw [hopened]
  unfold openList
  cases he : d.entryOf? s v.text with
  | none =>
    change accept v (Edit.guarded _ _) d = _ ↔ _
    rw [accept_guarded_eq_error_iff]
    simp only [checkEntry_eq_error_iff (k := .list) h he rfl .listName]
    obtain ⟨cause, offset⟩ := r
    simp [and_comm, and_assoc]
  | some e =>
    obtain ⟨l, k⟩ := e
    obtain ⟨hword, -, -, rfl | rfl⟩ := h.of_entryOf? he
    · obtain ⟨cause, offset⟩ := r
      simp [hword, and_comm, eq_comm]
    · simp [hword]

end Refused

/-! ### One directive -/

namespace Progress

variable {p : Progress} {x : Directive} {r : Rejection}

/-- A header whose type is no word, or whose name is empty, opens nothing again. -/
private theorem Underway.sectionToReopen?_eq_none (h : p.Underway) {type : Text}
    {name : Option Value} (hno : isWord type = true → ∃ v ∈ name, v.text = []) :
    p.document.sectionToReopen? type name = none := by
  by_contra hsome
  obtain ⟨s, hs⟩ := Option.ne_none_iff_exists'.mp hsome
  cases name with
  | none => cases hs
  | some v =>
    obtain ⟨-, hword, hne⟩ := holds_of_sectionToReopen? h.reading hs
    obtain ⟨_, ⟨⟩, hnil⟩ := hno hword
    exact hne hnil

private theorem obey_header_eq_error_iff (h : p.Underway) {type : Value} {name : Option Value} :
    p.obey (.header type name) = .error r ↔ ∃ v, p.Refuses (.header type name) v r.cause ∧
      r.offset = ((Directive.header type name).reported v).offset := by
  have hreported : ∀ v, (name = none → v = type) →
      (Directive.header type name).reported v = name.getD type := by
    intro v hv
    cases name with
    | none => exact hv rfl
    | some n => rfl
  obtain ⟨cause, offset⟩ := r
  show (openSection type name p.document).map _ = _ ↔ _
  rw [map_eq_error_iff, openSection_eq_error_iff h.reading]
  constructor
  · rintro ⟨hnone, c, hr, ⟨hword, rfl⟩ | ⟨hword, v, rfl, hc⟩⟩
    · cases hr
      exact ⟨type, .type hword, by rw [hreported type fun _ => rfl]⟩
    · cases hr
      rcases checkSectionName_eq_error_iff.mp hc with ⟨hnil, rfl⟩ | ⟨hat, rfl⟩
      · exact ⟨v, .emptyName hword hnil, rfl⟩
      · exact ⟨v, .reservedName hword hat hnone, rfl⟩
  · rintro ⟨v, hrefuses, hoffset⟩
    cases hrefuses with
    | type hword =>
      rw [hreported type fun _ => rfl] at hoffset
      exact ⟨h.sectionToReopen?_eq_none fun hw => absurd hw hword, _, congrArg _ hoffset,
        Or.inl ⟨hword, rfl⟩⟩
    | emptyName hword hnil =>
      exact ⟨h.sectionToReopen?_eq_none fun _ => ⟨v, rfl, hnil⟩, _, congrArg _ hoffset,
        Or.inr ⟨hword, v, rfl, checkSectionName_eq_error_iff.mpr (Or.inl ⟨hnil, rfl⟩)⟩⟩
    | reservedName hword hat hnone =>
      exact ⟨hnone, _, congrArg _ hoffset,
        Or.inr ⟨hword, v, rfl, checkSectionName_eq_error_iff.mpr (Or.inr ⟨hat, rfl⟩)⟩⟩

/-- **One directive fails exactly for a value that is refused**, and the rejection is at the value
that is reported for it. -/
theorem obey_eq_error_iff (h : p.Underway) :
    p.obey x = .error r ↔ ∃ v, p.Refuses x v r.cause ∧ r.offset = (x.reported v).offset := by
  cases x with
  | package name =>
    obtain ⟨cause, offset⟩ := r
    show (accept name (Edit.guarded _ _) p.document).map _ = _ ↔ _
    rw [map_eq_error_iff, accept_guarded_eq_error_iff]
    change (∃ c, checkWord .packageName name.text = .error c ∧ _) ↔ _
    simp only [checkWord_eq_error_iff]
    constructor
    · rintro ⟨c, ⟨hword, rfl⟩, hr⟩
      cases hr
      exact ⟨name, .package hword, rfl⟩
    · rintro ⟨v, hrefuses, hoffset⟩
      cases hrefuses with
      | package hword => exact ⟨_, ⟨hword, rfl⟩, congrArg _ hoffset⟩
  | header type name => exact obey_header_eq_error_iff h
  | option name value =>
    obtain ⟨cause, offset⟩ := r
    refine inSection_eq_error_iff.trans ⟨?_, ?_⟩
    · rintro ⟨s, hs, hline⟩
      obtain ⟨hoffset, ⟨hword, rfl⟩ | ⟨⟨l, hl⟩, rfl⟩⟩ :=
        (replayOption_eq_error_iff (h.holds s hs)).mp hline
      · exact ⟨name, .optionName hs hword, hoffset⟩
      · exact ⟨name, .optionOfList hs hl, hoffset⟩
    · rintro ⟨v, hrefuses, hoffset⟩
      cases hrefuses with
      | optionName hs hword =>
        exact ⟨_, hs, (replayOption_eq_error_iff (h.holds _ hs)).mpr
          ⟨hoffset, Or.inl ⟨hword, rfl⟩⟩⟩
      | optionOfList hs hl =>
        exact ⟨_, hs, (replayOption_eq_error_iff (h.holds _ hs)).mpr
          ⟨hoffset, Or.inr ⟨⟨_, hl⟩, rfl⟩⟩⟩
  | list name value =>
    obtain ⟨cause, offset⟩ := r
    refine inSection_eq_error_iff.trans ⟨?_, ?_⟩
    · rintro ⟨s, hs, hline⟩
      obtain ⟨hoffset, ⟨hword, rfl⟩ | ⟨⟨o, ho⟩, rfl⟩⟩ :=
        (replayList_eq_error_iff (h.holds s hs)).mp hline
      · exact ⟨name, .listName hs hword, hoffset⟩
      · exact ⟨name, .listOfOption hs ho, hoffset⟩
    · rintro ⟨v, hrefuses, hoffset⟩
      cases hrefuses with
      | listName hs hword =>
        exact ⟨_, hs, (replayList_eq_error_iff (h.holds _ hs)).mpr
          ⟨hoffset, Or.inl ⟨hword, rfl⟩⟩⟩
      | listOfOption hs ho =>
        exact ⟨_, hs, (replayList_eq_error_iff (h.holds _ hs)).mpr
          ⟨hoffset, Or.inr ⟨⟨_, ho⟩, rfl⟩⟩⟩

/-! ### All directives -/

theorem Underway.foldlM (h : p.Underway) {xs : List Directive} {p' : Progress}
    (hxs : xs.foldlM Progress.obey p = .ok p') : p'.Underway :=
  foldlM_keeps (fun hp hx => Underway.obey hp hx) h hxs

end Progress

/-- What fails step by step fails at the first step that does. -/
theorem foldlM_eq_error_iff {ε σ α : Type} {f : σ → α → Except ε σ} {l : List α} {x : σ} {e : ε} :
    l.foldlM f x = .error e ↔ ∃ front a back y,
      l = front ++ a :: back ∧ front.foldlM f x = .ok y ∧ f y a = .error e := by
  induction l generalizing x with
  | nil => simp [pure, Except.pure]
  | cons b l ih =>
    rw [List.foldlM_cons, bind_eq_error_iff]
    constructor
    · rintro (hb | ⟨z, hz, hl⟩)
      · exact ⟨[], b, l, x, rfl, rfl, hb⟩
      · obtain ⟨front, a, back, y, rfl, hfront, ha⟩ := ih.mp hl
        refine ⟨b :: front, a, back, y, rfl, ?_, ha⟩
        rw [List.foldlM_cons, hz]
        exact hfront
    · rintro ⟨_ | ⟨c, front⟩, a, back, y, hsplit, hfront, ha⟩
      · cases hsplit
        cases hfront
        exact Or.inl ha
      · cases hsplit
        rw [List.foldlM_cons] at hfront
        obtain ⟨z, hz, hfront⟩ := bind_eq_ok_iff.mp hfront
        exact Or.inr ⟨z, hz, ih.mpr ⟨front, a, back, y, rfl, hfront, ha⟩⟩

/-- There is one such step at most. -/
theorem eq_of_foldlM_error {ε σ α : Type} {f : σ → α → Except ε σ} {front back front' back' : List α}
    {a a' : α} {x y y' : σ} {e e' : ε} (hsplit : front ++ a :: back = front' ++ a' :: back')
    (hfront : front.foldlM f x = .ok y) (ha : f y a = .error e)
    (hfront' : front'.foldlM f x = .ok y') (ha' : f y' a' = .error e') : a = a' ∧ y = y' := by
  induction front generalizing front' x with
  | nil =>
    cases hfront
    cases front' with
    | nil =>
      cases hfront'
      exact ⟨(List.cons.inj hsplit).1, rfl⟩
    | cons b front' =>
      rw [List.foldlM_cons, ← (List.cons.inj hsplit).1, ha] at hfront'
      cases hfront'
  | cons b front ih =>
    rw [List.foldlM_cons] at hfront
    obtain ⟨z, hz, hfront⟩ := bind_eq_ok_iff.mp hfront
    cases front' with
    | nil =>
      cases hfront'
      rw [← (List.cons.inj hsplit).1, hz] at ha'
      cases ha'
    | cons b' front' =>
      obtain ⟨rfl, hrest⟩ := List.cons.inj hsplit
      rw [List.foldlM_cons, hz] at hfront'
      exact ih hrest hfront hfront'

/-- **A replay fails at the first directive that does**, for a value of it that is refused. -/
theorem replay_eq_error_iff {items : List Item} {r : Rejection} :
    replay items = .error r ↔ ∃ front x back p v,
      items.flatMap Item.directives = front ++ x :: back ∧
        front.foldlM Progress.obey .start = .ok p ∧ p.Refuses x v r.cause ∧
        r.offset = (x.reported v).offset := by
  rw [replay_eq, map_eq_error_iff, foldlM_eq_error_iff]
  constructor
  · rintro ⟨front, x, back, p, hsplit, hfront, hx⟩
    obtain ⟨v, hrefuses, hoffset⟩ :=
      (Progress.obey_eq_error_iff (Progress.underway_start.foldlM hfront)).mp hx
    exact ⟨front, x, back, p, v, hsplit, hfront, hrefuses, hoffset⟩
  · rintro ⟨front, x, back, p, v, hsplit, hfront, hrefuses, hoffset⟩
    exact ⟨front, x, back, p, hsplit, hfront,
      (Progress.obey_eq_error_iff (Progress.underway_start.foldlM hfront)).mpr
        ⟨v, hrefuses, hoffset⟩⟩

end Document
end Uci
