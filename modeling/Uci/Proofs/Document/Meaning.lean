import Uci.Proofs.Document.Opening

/-!
# What a text comes to

The statements of a text are replayed on a document, and what they come to can be told from
the script alone.  Replay and draft go hand in hand: after each line and each statement the
document says what the draft says, and what the draft does not take the replay refuses.
With the script at a glance this is what a text without errors comes to.

## Main definitions

* `Agrees` — a replay and a draft go on together, or stop together.

## Main results

* `line_agrees`, `item_agrees` — a line and a statement, in the replay and on the draft.
* `parse_merged` — **a text without errors is read if and only if its script is replayable, and
  comes to what the script comes to.**
-/

namespace Uci

open Syntax (Value Line Statement Item isWord blocks)

namespace Document

variable {d d' : Document} {c : Sheet.Context} {s l : Handle} {m n : Text}
  {es es' : List Sheet.Entry} {xs : List Sheet.Element}

/-! ### Going hand in hand -/

section Agrees

variable {α β γ : Type} {R : Document → γ → Prop} {x : Except Rejection Document} {g : γ}

/-- **A replay agrees with a draft**: both go on, to what is related, or both stop. -/
def Agrees (R : Document → γ → Prop) (x : Except Rejection Document) (o : Option γ) : Prop :=
  Option.Rel R x.toOption o

theorem agrees_ok_iff {o : Option γ} : Agrees R (.ok d) o ↔ ∃ g, o = some g ∧ R d g := by
  constructor
  · rintro ⟨h⟩
    exact ⟨_, rfl, h⟩
  · rintro ⟨g, rfl, h⟩
    exact .some h

theorem agrees_error_iff {r : Rejection} {o : Option γ} : Agrees R (.error r) o ↔ o = none := by
  constructor
  · rintro ⟨⟩
    rfl
  · rintro rfl
    exact .none

theorem Agrees.ok (hx : x = .ok d) (h : R d g) : Agrees R x (some g) :=
  hx ▸ agrees_ok_iff.mpr ⟨g, rfl, h⟩

theorem Agrees.refused (hx : ∀ d, x ≠ .ok d) : Agrees R x none := by
  cases x with
  | error r => exact agrees_error_iff.mpr rfl
  | ok d => exact absurd rfl (hx d)

/-- What agrees in each step agrees on the whole way. -/
theorem Agrees.foldlM {say : α → Option β} {f : Document → α → Except Rejection Document}
    {add : γ → β → Option γ} (hskip : ∀ d a, say a = none → f d a = .ok d) {l : List α}
    (hstep : ∀ a ∈ l, ∀ b, say a = some b → ∀ d g, R d g → Agrees R (f d a) (add g b))
    (h : R d g) : Agrees R (l.foldlM f d) ((l.filterMap say).foldlM add g) := by
  induction l generalizing d g with
  | nil => exact .ok rfl h
  | cons a l ih =>
    obtain ⟨hfirst, hrest⟩ := List.forall_mem_cons.mp hstep
    rw [List.foldlM_cons]
    cases ha : say a with
    | none =>
      rw [List.filterMap_cons_none ha, hskip d a ha]
      exact ih hrest h
    | some b =>
      rw [List.filterMap_cons_some ha, List.foldlM_cons]
      have hab := hfirst b ha d g h
      cases hf : f d a with
      | error r =>
        rw [hf, agrees_error_iff] at hab
        rw [hab]
        exact .refused nofun
      | ok d₁ =>
        rw [hf, agrees_ok_iff] at hab
        obtain ⟨g', hadd, hR⟩ := hab
        rw [hadd]
        exact ih hrest hR

/-- What is read off the draft at the end. -/
theorem Agrees.map {δ : Type} {R' : Document → δ → Prop} {o : Option γ} (h : Agrees R x o)
    (f : γ → δ) (hf : ∀ d g, R d g → R' d (f g)) : Agrees R' x (o.map f) := by
  cases x with
  | error r => rw [agrees_error_iff.mp h, Option.map_none, agrees_error_iff]
  | ok d =>
    obtain ⟨g, rfl, hR⟩ := agrees_ok_iff.mp h
    exact agrees_ok_iff.mpr ⟨f g, rfl, hf d g hR⟩

end Agrees

/-! ### Lines -/

/-- The section in its place has the entries `os`. -/
def Fills (c : Sheet.Context) (s : Handle) (m : Text) (d : Document) (os : List EntryOutline) :
    Prop :=
  ∃ es, d.Shows (c.fill ⟨s, m, es⟩) ∧ es.map Sheet.Entry.outline = os

namespace Shows

/-- The entry that has a name stands somewhere among the others, and is found. -/
private theorem exists_middle {e : Sheet.Entry} (h : d.Shows (c.fill ⟨s, m, es⟩))
    (hfind : es.find? (·.name = n) = some e) :
    ∃ es₁ es₂, es = es₁ ++ e :: es₂ ∧ e.name = n ∧
      d.entryOf? s n = some (e.handle, (Sheet.Item.entry e).kind) := by
  obtain ⟨hname, es₁, es₂, hes, -⟩ := List.find?_eq_some_iff_append.mp hfind
  refine ⟨es₁, es₂, hes, of_decide_eq_true hname, ?_⟩
  rw [h.entryOf?_eq n, hfind]
  rfl

/-- The value of a list line goes to the end of the list. -/
private theorem replayList_value {d₁ : Document} {name : Value}
    (hopen : openList s name d = .ok (l, d₁))
    (h : d₁.Shows (c.fill ⟨s, m, es ++ ⟨l, n, .list xs⟩ :: es'⟩)) (value : Option Value) :
    ∃ d' ys, replayList s name value d = .ok d' ∧
      d'.Shows (c.fill ⟨s, m, es ++ ⟨l, n, .list ys⟩ :: es'⟩) ∧
      (⟨l, n, .list ys⟩ : Sheet.Entry).outline =
        Line.entry (xs.map (·.value)) (.list n (value.map Value.text)) := by
  unfold replayList
  rw [hopen]
  cases value with
  | none =>
    exact ⟨d₁, xs, rfl, h, congrArg (EntryOutline.list n) (List.append_nil _).symm⟩
  | some v =>
    obtain ⟨d', y, hadd, h'⟩ := h.addElement rfl v.text
    refine ⟨d', xs ++ [⟨y, v.text⟩], ?_, h', congrArg (EntryOutline.list n) (List.map_append ..)⟩
    show (accept v (Document.addElement l v.text) d₁).map Prod.snd = _
    rw [hadd v]
    rfl

/-- An option is not added under a name that is no word. -/
private theorem isWord_of_addOption (h : d.Shows (c.fill ⟨s, m, es⟩)) {blame : Value} {v : Text}
    (hok : accept blame (Document.addOption s n v) d = .ok (l, d')) : isWord n = true := by
  have hacc := accepts_of_accept h.wellFormed (.addOption s n v) rfl hok
  cases hacc with
  | addOption _ hword _ => exact hword

/-- A list is not added under a name that is no word. -/
private theorem isWord_of_addList (h : d.Shows (c.fill ⟨s, m, es⟩)) {blame : Value}
    (hok : accept blame (Document.addList s n) d = .ok (l, d')) : isWord n = true := by
  have hacc := accepts_of_accept h.wellFormed (.addList s n) rfl hok
  cases hacc with
  | addList _ hword _ => exact hword

/-- What is in the section can be written. -/
theorem section_writable {x : Sheet.Section} (h : d.Shows (c.fill x)) :
    x.draft.Writable := by
  obtain ⟨-, hk, hx⟩ := h.open_section
  rw [hx]
  exact h.named.writable_section h.wellFormed h.tidy hk

/-- What a line does to the entry of its name. -/
private theorem addLine_middle {e : Sheet.Entry} (h : d.Shows (c.fill ⟨s, m, es ++ e :: es'⟩))
    {l : Line} (he : e.name = l.name) :
    addLine ((es ++ e :: es').map Sheet.Entry.outline) l =
      if e.outline.isList = l.isList then
        some (es.map Sheet.Entry.outline ++
          l.entry e.outline.values :: es'.map Sheet.Entry.outline)
      else none := by
  have hwritable := h.section_writable
  have hword : isWord e.outline.name = true := hwritable.entry_word e.outline
    (List.mem_map_of_mem (List.mem_append_right es (List.mem_cons_self ..)))
  have hapart := hwritable.entries_apart
  have hmap : (es ++ e :: es').map Sheet.Entry.outline =
      es.map Sheet.Entry.outline ++ e.outline :: es'.map Sheet.Entry.outline := List.map_append ..
  rw [Sheet.Section.draft, hmap] at hapart
  rw [hmap]
  exact addLine_old hapart hword ((Sheet.Entry.name_outline e).trans he)

/-- A line whose name no entry has comes to stand behind them. -/
private theorem addLine_of_find? {l : Line} (hfind : es.find? (·.name = n) = none)
    (hl : l.name = n) :
    (∀ e ∈ es, e.name ≠ n) ∧ addLine (es.map Sheet.Entry.outline) l =
      if isWord n = true then some (es.map Sheet.Entry.outline ++ [l.entry []]) else none := by
  subst hl
  have hun : ∀ e ∈ es, e.name ≠ l.name := fun e he => by
    simpa using List.find?_eq_none.mp hfind e he
  exact ⟨hun, addLine_new (List.forall_mem_map.mpr fun e he => by simpa using hun e he)⟩

/-- An option line, in the replay and on the entries. -/
private theorem replayOption_agrees (h : d.Shows (c.fill ⟨s, m, es⟩)) (name value : Value) :
    Agrees (Fills c s m) (replayOption s name value d)
      (addLine (es.map Sheet.Entry.outline) (.option name.text value.text)) := by
  unfold replayOption
  cases hfind : es.find? (·.name = name.text) with
  | none =>
    obtain ⟨hun, hadded⟩ := addLine_of_find? (l := .option name.text value.text) hfind rfl
    rw [(h.unused hun).2, hadded]
    dsimp only
    split
    · next hword =>
      obtain ⟨d', hadd, h'⟩ := h.addOption (n := name.text) hword hun value.text
      exact .ok (d := d') (by rw [hadd name]; rfl) ⟨_, h', List.map_append ..⟩
    · next hword =>
      refine .refused fun d' hok => hword ?_
      obtain ⟨⟨y, d₁⟩, hadd, -⟩ := map_eq_ok_iff.mp hok
      exact h.isWord_of_addOption hadd
  | some e =>
    obtain ⟨es₁, es₂, rfl, hname, hfound⟩ := h.exists_middle hfind
    obtain ⟨k, n, body⟩ := e
    obtain rfl : n = name.text := hname
    rw [h.addLine_middle rfl, hfound]
    cases body with
    | option v =>
      obtain ⟨d', hset, h'⟩ := h.setOptionValue rfl value.text
      exact .ok (d := d') (by show (accept name _ d).map _ = _; rw [hset name]; rfl)
        ⟨_, h', List.map_append ..⟩
    | list xs => exact .refused nofun

/-- A list line, in the replay and on the entries. -/
private theorem replayList_agrees (h : d.Shows (c.fill ⟨s, m, es⟩)) (name : Value)
    (value : Option Value) :
    Agrees (Fills c s m) (replayList s name value d)
      (addLine (es.map Sheet.Entry.outline) (.list name.text (value.map Value.text))) := by
  cases hfind : es.find? (·.name = name.text) with
  | none =>
    obtain ⟨hun, hadded⟩ :=
      addLine_of_find? (l := .list name.text (value.map Value.text)) hfind rfl
    have hopen : openList s name d = accept name (Document.addList s name.text) d := by
      unfold openList
      rw [(h.unused hun).2]
    rw [hadded]
    split
    · next hword =>
      obtain ⟨d₁, hadd, h₁⟩ := h.addList (n := name.text) hword hun
      obtain ⟨d', ys, hreplay, h', hys⟩ := replayList_value (hopen.trans (hadd name)) h₁ value
      refine .ok hreplay ⟨_, h', ?_⟩
      rw [List.map_append, List.map_singleton, hys]
      rfl
    · next hword =>
      refine .refused fun d' hok => hword ?_
      obtain ⟨⟨y, d₁⟩, hadd, -⟩ := bind_eq_ok_iff.mp hok
      exact h.isWord_of_addList (hopen.symm.trans hadd)
  | some e =>
    obtain ⟨es₁, es₂, rfl, hname, hfound⟩ := h.exists_middle hfind
    obtain ⟨k, n, body⟩ := e
    obtain rfl : n = name.text := hname
    rw [h.addLine_middle rfl]
    cases body with
    | option v =>
      refine .refused fun d' hok => ?_
      obtain ⟨r, hopen, -⟩ := bind_eq_ok_iff.mp hok
      unfold openList at hopen
      rw [hfound] at hopen
      cases hopen
    | list xs =>
      have hopen : openList s name d = .ok (k, d) := by
        unfold openList
        rw [hfound]
        rfl
      obtain ⟨d', ys, hreplay, h', hys⟩ := replayList_value hopen h value
      refine .ok hreplay ⟨_, h', ?_⟩
      rw [List.map_append, List.map_cons, hys]
      rfl

/-- **A line, in the replay and on the draft.** -/
theorem line_agrees (h : d.Shows (c.fill ⟨s, m, es⟩)) {e : Syntax.Entry} {l : Line}
    (he : e.line? = some l) :
    Agrees (Fills c s m) (replayEntry s d e) (addLine (es.map Sheet.Entry.outline) l) := by
  cases l with
  | option n v =>
    obtain ⟨name, value, rfl, rfl, rfl⟩ := eq_option_of_line? he
    exact h.replayOption_agrees name value
  | list n o =>
    obtain ⟨name, value, rfl, rfl, rfl⟩ := eq_list_of_line? he
    exact h.replayList_agrees name value

end Shows

/-! ### Statements -/

private theorem eq_package_of_statement? {i : Item} (hi : i.statement? = some (.package n)) :
    ∃ v : Value, i = .package (some v) ∧ v.text = n := by
  cases i with
  | package name =>
    obtain ⟨v, rfl, hv⟩ := Option.map_eq_some_iff.mp hi
    exact ⟨v, rfl, Statement.package.inj hv⟩
  | «section» body =>
    obtain ⟨t, -, hb⟩ := Option.map_eq_some_iff.mp hi
    cases hb

/-- The document says what the draft says. -/
def Says (d : Document) (D : Draft) : Prop := d.Built OnReading ∧ d.sheet.draft = D

/-- **A statement, in the replay and on the draft.** -/
theorem item_agrees {D : Draft} (h : d.Says D) {i : Item} {st : Statement}
    (hi : i.statement? = some st)
    (hname : ∀ b ∈ st.block?, ∀ n ∈ b.name, n.head? ≠ some '@') :
    Agrees Says (replayItem d i) (D.add? st) := by
  obtain ⟨hbuilt, rfl⟩ := h
  have h : d.Shows d.sheet := ⟨hbuilt, rfl⟩
  cases st with
  | package n =>
    obtain ⟨v, rfl, rfl⟩ := eq_package_of_statement? hi
    show Agrees Says ((accept v (setPackage (some v.text)) d).map Prod.snd)
      (if isWord v.text then some _ else none)
    split
    · next hword =>
      obtain ⟨hrun, hshows⟩ := h.perform (.setPackage (some v.text)) ⟨nofun, rfl⟩
        (.setPackage fun t ht => by cases ht; exact hword)
      obtain ⟨_, -, hset⟩ := exists_accept_of_run hrun
      exact .ok (by rw [hset v]; rfl) ⟨hshows.built, congrArg Sheet.draft hshows.sheet_eq⟩
    · next hword =>
      refine .refused fun d' hok => hword ?_
      obtain ⟨⟨y, d₁⟩, hset, -⟩ := map_eq_ok_iff.mp hok
      have hacc := accepts_of_accept h.wellFormed (.setPackage (some v.text)) rfl hset
      cases hacc with
      | setPackage hwords => exact hwords v.text rfl
  | block b =>
    obtain ⟨body, t, rfl, ht, htype, hbname, hlines⟩ := eq_section_of_statement? hi
    have hgiven : ∀ n ∈ b.name, n.head? ≠ some '@' := hname b rfl
    have hsection : replayItem d (.section body) = (openSection t body.name d).bind fun r =>
        body.entries.foldlM (replayEntry r.1) r.2 := by
      show replaySection d body = _
      unfold replaySection
      rw [ht]
      rfl
    rw [hsection, Draft.add?]
    split
    · next hheader =>
      obtain ⟨c, ⟨s, m, es, d₁, hopen, h₁, hm, hes⟩, hput⟩ := h.opens hheader hgiven
      rw [hopen t body.name htype hbname, ← hes, ← hlines]
      -- the lines go into the section that the header has opened
      have hbelow : Agrees (Fills c s m) (body.entries.foldlM (replayEntry s) d₁)
          ((body.entries.filterMap Syntax.Entry.line?).foldlM addLine
            (es.map Sheet.Entry.outline)) := by
        refine Agrees.foldlM (replayEntry_skip s) ?_ ⟨es, h₁, rfl⟩
        rintro e - l he d os ⟨es, hd, rfl⟩
        exact hd.line_agrees he
      refine hbelow.map _ ?_
      rintro d' os ⟨es', h', rfl⟩
      exact ⟨h'.built, (congrArg Sheet.draft h'.sheet_eq).trans (hput s m es' hm)⟩
    · next hheader =>
      refine .refused fun d' hok => hheader ?_
      obtain ⟨⟨s, d₁⟩, hopen, -⟩ := bind_eq_ok_iff.mp hok
      have htakes := h.takesHeader_of_openSection ?_ hopen
      · rwa [htype, hbname] at htakes
      · intro v hv
        exact hgiven v.text (hbname ▸ Option.mem_map_of_mem _ hv)

/-- **The replay of a text agrees with the draft of its script.** -/
theorem replay_agrees {items : List Item}
    (hname : ∀ b ∈ blocks (items.filterMap Item.statement?), ∀ n ∈ b.name, n.head? ≠ some '@') :
    Agrees Says (replay items)
      ((items.filterMap Item.statement?).foldlM Draft.add? ⟨none, []⟩) := by
  refine Agrees.foldlM replayItem_skip ?_ ⟨shows_empty.built, congrArg Sheet.draft
    shows_empty.sheet_eq⟩
  intro i hi st hst d D hsays
  refine item_agrees hsays hst fun b hb => hname b ?_
  exact List.mem_filterMap.mpr ⟨st, List.mem_filterMap.mpr ⟨i, hi, hst⟩, hb⟩

/-- A text without errors is read if it is replayed to the end. -/
theorem parse_eq_ok_iff {t : Text} (herrors : (Syntax.parse t).errors = []) :
    parse t = .ok d ↔ replay (Syntax.parse t).items = .ok d := by
  unfold parse
  dsimp only
  rw [herrors]
  cases replay (Syntax.parse t).items <;> simp

/-- **What a text comes to.**  A text without errors says all that stands in it, and is read if
and only if its script is replayable; what it comes to is what the script comes to, if no header
gives a name of the generated kind. -/
theorem parse_merged (t : Text) (herrors : (Syntax.parse t).errors = [])
    (hname : ∀ b ∈ blocks (Syntax.parse t).script, ∀ n ∈ b.name, n.head? ≠ some '@') :
    (∀ i ∈ (Syntax.parse t).items, i.Complete) ∧
      ((∃ d, parse t = .ok d) ↔ Replayable (Syntax.parse t).script) ∧
      ∀ d, parse t = .ok d → d.sheet.draft = merged (Syntax.parse t).script := by
  have hagrees : Agrees Says (replay (Syntax.parse t).items)
      ((Syntax.parse t).script.foldlM Draft.add? ⟨none, []⟩) := replay_agrees hname
  have hfold := fun D => foldlM_add?_eq_some_iff (Syntax.parse t).script (D := D)
  refine ⟨Syntax.complete_of_errors herrors, ?_⟩
  simp only [parse_eq_ok_iff herrors]
  cases hreplay : replay (Syntax.parse t).items with
  | error r =>
    rw [hreplay, agrees_error_iff] at hagrees
    refine ⟨iff_of_false nofun fun h => ?_, nofun⟩
    rw [(hfold _).mpr ⟨h, rfl⟩] at hagrees
    exact Option.some_ne_none _ hagrees
  | ok d =>
    rw [hreplay, agrees_ok_iff] at hagrees
    obtain ⟨D, hscript, hsays⟩ := hagrees
    obtain ⟨hreplayable, hD⟩ := (hfold D).mp hscript
    refine ⟨iff_of_true ⟨d, rfl⟩ hreplayable, fun d' hd' => ?_⟩
    cases hd'
    exact hsays.2.trans hD

/-- Two packages, a section that is opened again, an option that gets another value, and a list
with values below both headers. -/
theorem parse_merged_reopening :
    let t := ("package a\n\nconfig i 'x'\n\toption v '1'\n\tlist l '1'\n\nconfig r\n\n" ++
      "config i 'x'\n\tlist l '2'\n\toption v '2'\n\npackage b\n\n").toList
    ∃ d, parse t = .ok d ∧ d.sheet.draft = ⟨some ['b'],
      [⟨['i'], [⟨some ['x'], [.option ['v'] ['2'], .list ['l'] [['1'], ['2']]]⟩]⟩,
        ⟨['r'], [⟨none, []⟩]⟩]⟩ := by
  intro t
  let sts : List Statement := [.package ['a'],
    .block ⟨['i'], some ['x'], [.option ['v'] ['1'], .list ['l'] (some ['1'])]⟩,
    .block ⟨['r'], none, []⟩,
    .block ⟨['i'], some ['x'], [.list ['l'] (some ['2']), .option ['v'] ['2']]⟩, .package ['b']]
  -- the text is the written form of a script, and says that script
  have ht : t = sts.flatMap Statement.text := by decide +kernel
  have hwritable : ∀ st ∈ sts, st.Writable := by decide +kernel
  obtain ⟨herrors, hscript⟩ := Syntax.parse_statements hwritable
  rw [← ht] at herrors hscript
  change (Syntax.parse t).script = sts at hscript
  obtain ⟨-, hread, hdraft⟩ := parse_merged t herrors (by rw [hscript]; decide +kernel)
  rw [hscript] at hread hdraft
  obtain ⟨d, hd⟩ := hread.mpr (by decide +kernel)
  exact ⟨d, hd, (hdraft d hd).trans (by decide +kernel)⟩

end Document
end Uci
