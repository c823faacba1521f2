import Mathlib.Data.List.Forall2
import Uci.Proofs.Document.Meaning

/-!
# Reading what was written

What is written of a document is read again as a document that says the same: the same
package, and the same sections in their order, with their names and their entries.  The
new document has handles of its own, numbers its sections without a name anew, and has no
group that lacks sections; none of it is written, so that it is written as the old one
was.

## Main definitions

* `SectionOutline.Same` — two sections that say the same.

## Main results

* `Draft.Writable.foldlM_statements` — the script of a draft makes the draft.
* `parse_text` — the text of a draft is read, and gives the draft again.
* `parse_print` — **the round trip**: what is written of a document is read, and says
  the same.
-/

namespace Uci

open Syntax (Line Statement isWord blocks)

/-! ### The script of a draft -/

section Script

variable {es : List EntryOutline} {n : Text}

/-- One more entry with a name of its own. -/
private theorem apart_append_singleton {o : EntryOutline}
    (h : es.Pairwise fun x y => x.name ≠ y.name) (hnew : ∀ e ∈ es, e.name ≠ o.name) :
    (es ++ [o]).Pairwise fun x y => x.name ≠ y.name := by
  refine List.pairwise_append.mpr ⟨h, List.pairwise_singleton _ _, fun e he o' ho' => ?_⟩
  rw [List.mem_singleton.mp ho']
  exact hnew e he

/-- The values of a list, line by line. -/
private theorem foldlM_values (h : es.Pairwise fun x y => x.name ≠ y.name)
    (hnew : ∀ e ∈ es, e.name ≠ n) (hword : isWord n = true) (vs ws : List Text) :
    (ws.map fun w => Line.list n (some w)).foldlM addLine (es ++ [.list n vs]) =
      some (es ++ [.list n (vs ++ ws)]) := by
  induction ws generalizing vs with
  | nil => rw [List.append_nil]; rfl
  | cons w ws ih =>
    have hline : addLine (es ++ [.list n vs]) (.list n (some w)) =
        some (es ++ [.list n (vs ++ [w])]) :=
      addLine_old (apart_append_singleton h hnew) hword rfl
    rw [List.map_cons, List.foldlM_cons, hline]
    exact (ih (vs ++ [w])).trans (by rw [List.append_assoc]; rfl)

/-- The lines of an entry make the entry. -/
private theorem foldlM_lines {o : EntryOutline} (h : es.Pairwise fun x y => x.name ≠ y.name)
    (hnew : ∀ e ∈ es, e.name ≠ o.name) (hword : isWord o.name = true) :
    o.lines.foldlM addLine es = some (es ++ [o]) := by
  have hfirst : ∀ l : Line, l.name = o.name → addLine es l = some (es ++ [l.entry []]) := by
    intro l hl
    rw [addLine_new (hl ▸ hnew), hl, if_pos hword]
  cases o with
  | option n v =>
    rw [EntryOutline.lines, List.foldlM_cons, hfirst (.option n v) rfl]
    rfl
  | list n vs =>
    cases vs with
    | nil =>
      rw [EntryOutline.lines, List.foldlM_cons, hfirst (.list n none) rfl]
      rfl
    | cons v vs =>
      rw [EntryOutline.lines, List.map_cons, List.foldlM_cons, hfirst (.list n (some v)) rfl]
      exact foldlM_values h hnew hword [v] vs

/-- The lines of a section make its entries. -/
private theorem foldlM_entries {os : List EntryOutline} (hword : ∀ o ∈ os, isWord o.name = true)
    (hapart : (es ++ os).Pairwise fun x y => x.name ≠ y.name) :
    (os.flatMap EntryOutline.lines).foldlM addLine es = some (es ++ os) := by
  induction os generalizing es with
  | nil => rw [List.append_nil]; rfl
  | cons o os ih =>
    obtain ⟨ho, hos⟩ := List.forall_mem_cons.mp hword
    obtain ⟨hes, -, hacross⟩ := List.pairwise_append.mp hapart
    have hnew : ∀ e ∈ es, e.name ≠ o.name := fun e he => hacross e he o (List.mem_cons_self ..)
    rw [List.flatMap_cons, List.foldlM_append, foldlM_lines hes hnew ho]
    rw [List.append_cons es o os] at hapart ⊢
    exact ih hos hapart

end Script

namespace Draft

variable {p : Option Text} {Gs : List Group} {type : Text} {ss : List Section}

/-- The block of a section that is new makes the section. -/
private theorem add?_block {D : Draft} {x : Section} (htype : isWord type = true)
    (hx : x.Writable) (hnew : D.entriesAt type x.name = []) :
    D.add? (.block (x.block type)) = some (D.put type x) := by
  have hheader : TakesHeader type x.name := ⟨htype, fun hnil => (hx.name_given [] hnil).1 rfl⟩
  show (if TakesHeader type x.name then _ else none) = _
  rw [if_pos hheader]
  show Option.map _ ((x.entries.flatMap EntryOutline.lines).foldlM addLine
    (D.entriesAt type x.name)) = _
  have hlines : (x.entries.flatMap EntryOutline.lines).foldlM addLine [] = some x.entries :=
    foldlM_entries hx.entry_word hx.entries_apart
  rw [hnew, hlines]
  rfl

/-- Further sections of the last group, one after the other. -/
private theorem foldlM_sections (htype : isWord type = true) (hnew : ∀ G ∈ Gs, G.type ≠ type)
    (xs : List Section) (hxs : ∀ x ∈ xs, x.Writable)
    (hapart : (ss ++ xs).Pairwise fun x y => ∀ n ∈ x.name, n ∉ y.name) :
    (xs.map fun x => Statement.block (x.block type)).foldlM add? ⟨p, Gs ++ [⟨type, ss⟩]⟩ =
      some ⟨p, Gs ++ [⟨type, ss ++ xs⟩]⟩ := by
  induction xs generalizing ss with
  | nil => rw [List.append_nil]; rfl
  | cons x xs ih =>
    obtain ⟨hx, hrest⟩ := List.forall_mem_cons.mp hxs
    have hfree : ∀ y ∈ ss, ∀ n ∈ x.name, n ∉ y.name := fun y hy n hn hny =>
      (List.pairwise_append.mp hapart).2.2 y hy x (List.mem_cons_self ..) n hny hn
    have hentries : (⟨p, Gs ++ [⟨type, ss⟩]⟩ : Draft).entriesAt type x.name = [] := by
      cases hname : x.name with
      | none => rfl
      | some n =>
        rw [entriesAt_group hnew]
        exact Group.entriesAt_new_section fun y hy => hfree y hy n hname
    rw [List.map_cons, List.foldlM_cons, add?_block htype hx hentries, put_group hnew,
      Group.put_new_section hfree]
    rw [List.append_cons ss x xs] at hapart ⊢
    exact ih hrest hapart

/-- The blocks of a group make the group, unless it lacks sections. -/
private theorem foldlM_group {G : Group} (hG : G.Writable) (hnew : ∀ G' ∈ Gs, G'.type ≠ G.type) :
    G.blocks.foldlM add? ⟨p, Gs⟩ = some ⟨p, Gs ++ [G].filter (·.sections ≠ [])⟩ := by
  obtain ⟨type, xs⟩ := G
  obtain ⟨htype, hxs, hapart⟩ := hG
  cases xs with
  | nil =>
    show some _ = some (⟨p, Gs ++ []⟩ : Draft)
    rw [List.append_nil]
  | cons x xs =>
    obtain ⟨hx, hrest⟩ := List.forall_mem_cons.mp hxs
    -- the first section brings its group along, the others find it there
    rw [Group.blocks, List.map_cons, List.foldlM_cons,
      add?_block htype hx (entriesAt_new_group hnew), put_new_group hnew]
    exact foldlM_sections htype hnew xs hrest hapart

private theorem foldlM_groups {Hs : List Group} (hHs : ∀ G ∈ Hs, G.Writable)
    (hapart : (Gs ++ Hs).Pairwise fun G G' => G.type ≠ G'.type) :
    (Hs.flatMap Group.blocks).foldlM add? ⟨p, Gs⟩ =
      some ⟨p, Gs ++ Hs.filter (·.sections ≠ [])⟩ := by
  induction Hs generalizing Gs with
  | nil => rw [List.filter_nil, List.append_nil]; rfl
  | cons G Hs ih =>
    obtain ⟨hG, hrest⟩ := List.forall_mem_cons.mp hHs
    have hnew : ∀ G' ∈ Gs, G'.type ≠ G.type := fun G' hG' =>
      (List.pairwise_append.mp hapart).2.2 G' hG' G (List.mem_cons_self ..)
    -- leaving an empty group out keeps the types apart
    have hsub : List.Sublist ((Gs ++ [G].filter (·.sections ≠ [])) ++ Hs) (Gs ++ G :: Hs) := by
      rw [List.append_assoc]
      have hone : List.Sublist ([G].filter (·.sections ≠ []) ++ Hs) ([G] ++ Hs) :=
        List.filter_sublist.append (List.Sublist.refl Hs)
      exact (List.Sublist.refl _).append hone
    have hsplit : (G :: Hs).filter (·.sections ≠ []) =
        [G].filter (·.sections ≠ []) ++ Hs.filter (·.sections ≠ []) := by
      rw [← List.filter_append, List.singleton_append]
    rw [List.flatMap_cons, List.foldlM_append, foldlM_group hG hnew, hsplit, ← List.append_assoc]
    exact ih hrest (hapart.sublist hsub)

/-- **The script of a draft makes the draft**, without the groups that have no sections. -/
theorem Writable.foldlM_statements {D : Draft} (hD : D.Writable) :
    D.statements.foldlM add? ⟨none, []⟩ = some D.trim := by
  have hpackage : (D.package.map Statement.package).toList.foldlM add? ⟨none, []⟩ =
      some ⟨D.package, []⟩ := by
    cases hp : D.package with
    | none => rfl
    | some t =>
      rw [Option.map_some, Option.toList_some, List.foldlM_cons, add?, if_pos (hD.package t hp)]
      rfl
  rw [Draft.statements, List.foldlM_append, hpackage]
  exact foldlM_groups hD.groups hD.types_apart

/-- The sections of a draft were given no names of the generated kind. -/
private theorem Writable.not_generated {D : Draft} (hD : D.Writable) :
    ∀ b ∈ blocks D.statements, ∀ n ∈ b.name, n.head? ≠ some '@' := by
  intro b hb n hn
  obtain ⟨st, hst, hblock⟩ := List.mem_filterMap.mp hb
  rcases List.mem_append.mp hst with hst | hst
  · obtain ⟨t, -, rfl⟩ := List.mem_map.mp (Option.toList_map .. ▸ hst)
    cases hblock
  · obtain ⟨G, hG, hst⟩ := List.mem_flatMap.mp hst
    obtain ⟨x, hx, rfl⟩ := List.mem_map.mp hst
    cases hblock
    exact (((hD.groups G hG).sections x hx).name_given n hn).2

end Draft

namespace Document

/-- **The text of a draft is read**, and gives the draft again, without the groups that have
no sections. -/
theorem parse_text {D : Draft} (hD : D.Writable) :
    ∃ d, parse D.text = .ok d ∧ d.Built OnReading ∧ d.sheet.draft = D.trim := by
  obtain ⟨herrors, hscript⟩ := Syntax.parse_statements hD.statements
  have hagrees : Agrees Says (replay (Syntax.parse D.text).items)
      (D.statements.foldlM Draft.add? ⟨none, []⟩) :=
    hscript ▸ replay_agrees (hscript.symm ▸ hD.not_generated)
  rw [hD.foldlM_statements] at hagrees
  cases hreplay : replay (Syntax.parse D.text).items with
  | error r =>
    rw [hreplay, agrees_error_iff] at hagrees
    cases hagrees
  | ok d =>
    rw [hreplay, agrees_ok_iff] at hagrees
    obtain ⟨D', hD', hsays⟩ := hagrees
    cases hD'
    exact ⟨d, (parse_eq_ok_iff herrors).mpr hreplay, hsays⟩

end Document

/-! ### The round trip -/

/-- **Sections that say the same**: of the same type, with the same entries, and with the same
name, unless the names of both are generated. -/
structure SectionOutline.Same (o o' : SectionOutline) : Prop where
  type : o'.type = o.type
  name : o'.name = o.name ∨ (o'.name.head? = some '@' ∧ o.name.head? = some '@')
  entries : o'.entries = o.entries

/-- The sections of a draft, each with its type. -/
private def Draft.outline (D : Draft) : List (Text × Draft.Section) :=
  D.groups.flatMap fun g => g.sections.map fun s => (g.type, s)

private theorem Draft.outline_trim (D : Draft) : D.trim.outline = D.outline :=
  D.flatMap_groups_trim fun type s => (type, s)

private theorem Sheet.outline_draft (S : Sheet) :
    S.draft.outline =
      S.outline.map fun o => (o.type, (⟨givenName? o.name, o.entries⟩ : Draft.Section)) := by
  unfold Draft.outline outline draft
  rw [List.flatMap_map, List.map_flatMap]
  apply List.flatMap_congr
  intro g _
  unfold Group.draft
  rw [List.map_map, List.map_map]
  rfl

/-- Sheets whose drafts have the same sections say the same, section by section. -/
private theorem Sheet.same_of_draft {S T : Sheet} (h : T.draft = S.draft.trim) :
    List.Forall₂ SectionOutline.Same S.outline T.outline := by
  have hmap := congrArg Draft.outline h
  rw [Draft.outline_trim, Sheet.outline_draft, Sheet.outline_draft, ← List.forall₂_eq_eq_eq,
    List.forall₂_map_left_iff, List.forall₂_map_right_iff] at hmap
  apply hmap.flip.imp
  intro o o' heq
  obtain ⟨htype, hsection⟩ := Prod.mk.inj heq
  obtain ⟨hname, hentries⟩ := Draft.Section.mk.inj hsection
  refine ⟨htype, ?_, hentries⟩
  unfold givenName? at hname
  split at hname
  · next h' =>
    split at hname
    · next h => exact Or.inr ⟨h', h⟩
    · cases hname
  · split at hname
    · cases hname
    · exact Or.inl (Option.some.inj hname)

namespace Document

variable {d : Document}

/-- **The round trip.**  However a document was reached by operations on issued handles, what is
written of it is read again.  The document that is read has the same package and the same
sections in the same order, which say the same; and it is written as the first one was. -/
theorem parse_print (hd : d.Reachable OnIssued) :
    ∃ d', parse d.print = .ok d' ∧ d'.package = d.package ∧
      (∃ os os', d.outline = os.map .ok ∧ d'.outline = os'.map .ok ∧
        List.Forall₂ SectionOutline.Same os os') ∧
      d'.print = d.print := by
  have hbuilt : d.Built OnIssued := hd.built fun _ _ h => h.1
  have hw := hbuilt.wellFormed
  have ht := hbuilt.tidy fun _ _ h => h
  have hprint : d.print = d.sheet.draft.text := (print_eq_sheet hw ht).trans d.sheet.print_eq
  obtain ⟨d', hparse, hbuilt', hdraft⟩ := parse_text (hbuilt.named.writable hw ht)
  have hw' := hbuilt'.wellFormed
  have ht' := hbuilt'.tidy fun _ _ h => h.1
  refine ⟨d', by rw [hprint, hparse], congrArg Draft.package hdraft, ?_, ?_⟩
  · exact ⟨_, _, outline_eq_sheet hw ht, outline_eq_sheet hw' ht', Sheet.same_of_draft hdraft⟩
  · rw [print_eq_sheet hw' ht', Sheet.print_eq, hdraft, Draft.text_trim, hprint]

/-- However a document was made, what is written of it is read as a document that is written
so again. -/
theorem Built.exists_parse_print (hd : d.Built OnIssued) :
    ∃ d', parse d.print = .ok d' ∧ d'.print = d.print := by
  have hw := hd.wellFormed
  have ht := hd.tidy fun _ _ h => h
  have hprint : d.print = d.sheet.draft.text := (print_eq_sheet hw ht).trans d.sheet.print_eq
  obtain ⟨d', hparse, hd', hdraft⟩ := parse_text (hd.named.writable hw ht)
  refine ⟨d', by rw [hprint, hparse], ?_⟩
  rw [print_eq_sheet hd'.wellFormed (hd'.tidy fun _ _ h => h.1), Sheet.print_eq, hdraft,
    Draft.text_trim, hprint]

/-- Quotes, backslashes and line ends in values and names, a list without values, and a section
that was removed. -/
theorem parse_print_quotes :
    let d := empty.play [.addSection 0 "rule".toList none,
      .addOption 3 "a".toList "it's \\ \"x\"\n\r".toList, .addList 3 "l".toList,
      .addSection 1 "gone".toList none, .addSection 1 "rule".toList (some "'\\\n".toList),
      .addList 8 "m".toList, .addElement 9 [], .remove 7]
    d.Reachable OnIssued ∧ ∃ d', parse d.print = .ok d' ∧ d'.package = d.package ∧
      (∃ os os', d.outline = os.map .ok ∧ d'.outline = os'.map .ok ∧
        List.Forall₂ SectionOutline.Same os os') ∧
      d'.print = d.print := by
  intro d
  have hd : d.Reachable OnIssued := Reachable.play .empty (by decide)
  exact ⟨hd, parse_print hd⟩

end Document

end Uci
