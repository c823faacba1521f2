import Uci.Proofs.Command.Adding
import Uci.Proofs.Document.Directives

/-!
# Reserved names in a text

A name that begins as generated names do is refused when a section is added.  A header that finds
a section of its type and name opens that one again, and its name is not looked at.  So a reserved
name can stand in a text that is read, but only as the name that was generated for a section above:
the one without a name of the same type, counted from zero.

## Main definitions

* `Syntax.Directive.isAnonymous` — headers of a type without a name.
* `GivesNames` — no header of a text gives a name that is empty or reserved.
* `ReservedNamesAbove` — **what is known of the names that the headers of a text give.**

## Main results

* `nextNumber_foldlM` — the next number of a type is the number of its anonymous headers so far.
* `Progress.exists_obey_header_iff` — **the headers with a name that are obeyed.**
* `reservedNames_of_parse` — **reserved names in a text that is read are those of sections above.**
-/

namespace Uci

open Syntax (Value Directive isWord)

/-- **A header of a type, without a name.** -/
def Syntax.Directive.isAnonymous (type : Text) : Directive → Bool
  | .header t none => t.text = type
  | _ => false

/-! ### Generated names on a sheet -/

namespace Sheet

variable {S : Sheet} {type : Text}

/-- The entries of a section do not matter for the names. -/
private theorem generatedNames_fill (c : Context) (s : Handle) (m : Text) (es es' : List Entry) :
    generatedNames type (c.fill ⟨s, m, es⟩).outline =
      generatedNames type (c.fill ⟨s, m, es'⟩).outline := by
  have hnames : ∀ os : List SectionOutline, generatedNames type os =
      ((os.map fun o => (o.type, o.name)).filterMap fun x =>
        if x.1 = type ∧ x.2.head? = some '@' then some x.2 else none) := by
    intro os
    induction os with
    | nil => rfl
    | cons o os ih =>
      rw [← List.singleton_append, generatedNames_append, ih]
      by_cases ht : o.type = type <;> by_cases hn : o.name.head? = some '@' <;>
        simp [generatedNames, ht, hn]
  rw [hnames, hnames]
  congr 1
  simp [outline, Context.fill, Section.outline]

/-- A section that comes in brings a generated name for its type along, or none. -/
private theorem length_generatedNames_addSection (hnodup : (S.groups.map (·.handle)).Nodup)
    (fresh : Handle) (type' name : Text) :
    (generatedNames type (S.addSection fresh type' name).outline).length =
      (generatedNames type S.outline).length +
        if type' = type ∧ name.head? = some '@' then 1 else 0 := by
  have hone : ∀ s es, (generatedNames type [(⟨s, name, es⟩ : Section).outline type']).length =
      if type' = type ∧ name.head? = some '@' then 1 else 0 := by
    intro s es
    by_cases ht : type' = type <;> by_cases hn : name.head? = some '@' <;>
      simp [generatedNames, Section.outline, ht, hn]
  unfold addSection
  cases hfind : S.groups.find? (·.type = type') with
  | none =>
    simp only [outline, List.flatMap_append, List.flatMap_singleton, generatedNames_append,
      List.length_append, List.map_singleton]
    rw [hone]
  | some g =>
    obtain ⟨htype, front, back, hgroups, -⟩ := List.find?_eq_some_iff_append.mp hfind
    obtain rfl : g.type = type' := of_decide_eq_true htype
    -- no other group has the handle of this one
    rw [hgroups, List.map_append, List.map_cons, List.nodup_middle, List.nodup_cons,
      ← List.map_append] at hnodup
    have hother : ∀ x ∈ front ++ back, x.handle ≠ g.handle := fun x hx heq =>
      hnodup.1 (heq ▸ List.mem_map_of_mem hx)
    obtain ⟨hfront, hback⟩ := List.forall_mem_append.mp hother
    have hsame : ∀ (l : List Group) (f : Group → Group), (∀ x ∈ l, x.handle ≠ g.handle) →
        l.map (fun x => if x.handle = g.handle then f x else x) = l := fun l f hl => by
      rw [List.map_congr_left fun x hx => if_neg (hl x hx), List.map_id']
    simp only [onGroup, mapGroups, hgroups, List.map_append, List.map_cons, hsame _ _ hfront,
      hsame _ _ hback, if_true, outline, List.flatMap_append, List.flatMap_cons,
      generatedNames_append, List.length_append, List.map_nil]
    rw [hone]
    omega

end Sheet

namespace Document

variable {d d' : Document} {s : Handle} {type : Text} {t : Text}

/-! ### The next number -/

/-- The next number of a type is that of the names generated for it. -/
private theorem nextNumber_eq (hd : d.Built OnReplay) (type : Text) :
    d.nextNumber type = (generatedNames type d.sheet.outline).length := by
  have hreading : d.Built OnReading := hd.mono fun _ _ hop => hop.onReading
  have hshows : d.Shows d.sheet := ⟨hreading, rfl⟩
  rw [hd.consecutive.generatedNames_eq hshows.named hshows.wellFormed hshows.tidy,
    List.length_map, List.length_range]

/-- A line below a header takes no number. -/
private theorem nextNumber_replayEntry (hd : d.Built OnReplay) (hs : d.Holds s)
    (hd' : d'.Built OnReplay) {e : Syntax.Entry} {l : Syntax.Line} (he : e.line? = some l)
    (hreplay : replayEntry s d e = .ok d') : d'.nextNumber type = d.nextNumber type := by
  obtain ⟨c, m, es, hshows⟩ := hs
  have hagrees := hshows.line_agrees he
  rw [hreplay, agrees_ok_iff] at hagrees
  obtain ⟨-, -, es', hshows', -⟩ := hagrees
  rw [nextNumber_eq hd', nextNumber_eq hd, hshows'.sheet_eq, hshows.sheet_eq,
    Sheet.generatedNames_fill]

/-- A header takes one, if it opens a section without a name. -/
private theorem nextNumber_openSection (hd : d.Built OnReplay) (hd' : d'.Built OnReplay)
    {v : Value} {name : Option Value} (hopen : openSection v name d = .ok (s, d')) :
    d'.nextNumber type =
      d.nextNumber type + if (Directive.header v name).isAnonymous type then 1 else 0 := by
  have hw := hd.wellFormed
  rcases openSection_cases hw hopen with ⟨n, rfl, -, rfl⟩ | ⟨-, hacc⟩
  · rfl
  · have hgiven := hacc.takesHeader.2
    have hissued : d.OnIssued (.addSection root v.text (name.map Value.text)) := by
      rintro h ⟨⟩
      exact hd.onIssued_root
    rw [nextNumber_eq hd', nextNumber_eq hd,
      hacc.sheet hw (hd.tidy fun _ _ hop => hop.1) hissued rfl, Sheet.edited,
      Sheet.length_generatedNames_addSection (nodup_groups hw)]
    congr 1
    cases name with
    | none => simp [Directive.isAnonymous, generatedName]
    | some n => simp [Directive.isAnonymous, (hgiven n.text rfl).2]

namespace Progress

variable {p p' : Progress} {x : Directive}

/-- **One directive takes a number if it is a header without a name.** -/
theorem nextNumber_obey (h : p.Underway) (hobey : p.obey x = .ok p') (type : Text) :
    p'.document.nextNumber type =
      p.document.nextNumber type + if x.isAnonymous type then 1 else 0 := by
  have hd' := (h.obey hobey).built
  -- a line goes to the section that is open
  have hline : ∀ {line : Handle → Document → Except Rejection Document},
      p.inSection line = .ok p' → (∀ s d', p.current? = some s → line s p.document = .ok d' →
        d'.Built OnReplay → d'.nextNumber type = p.document.nextNumber type) →
      p'.document.nextNumber type = p.document.nextNumber type := by
    intro line hin hkeeps
    rcases inSection_eq_ok_iff.mp hin with ⟨-, rfl⟩ | ⟨s, d', hs, hline, rfl⟩
    · rfl
    · exact hkeeps s d' hs hline hd'
  cases x with
  | package name =>
    obtain ⟨⟨⟨⟩, d'⟩, hacc, rfl⟩ := map_eq_ok_iff.mp hobey
    have hset := accepts_of_accept (f := fun _ => none) h.built.wellFormed
      (.setPackage (some name.text)) rfl hacc
    cases hset
    rfl
  | header v name =>
    obtain ⟨⟨s, d'⟩, hopen, rfl⟩ := map_eq_ok_iff.mp hobey
    exact nextNumber_openSection h.built hd' hopen
  | option name value =>
    exact hline hobey fun s d' hs hreplay hbuilt => nextNumber_replayEntry h.built (h.holds s hs)
      hbuilt (e := .option (some name) (some value)) rfl hreplay
  | list name value =>
    exact hline hobey fun s d' hs hreplay hbuilt => nextNumber_replayEntry h.built (h.holds s hs)
      hbuilt (e := .list (some name) value) rfl hreplay

/-- **The next number of a type** is the number of its headers without a name so far. -/
theorem nextNumber_foldlM {xs : List Directive} (hxs : xs.foldlM obey start = .ok p)
    (type : Text) : p.document.nextNumber type = xs.countP (·.isAnonymous type) := by
  have hfrom : ∀ {xs : List Directive} {q : Progress}, q.Underway → xs.foldlM obey q = .ok p →
      p.document.nextNumber type =
        q.document.nextNumber type + xs.countP (·.isAnonymous type) := by
    intro xs
    induction xs with
    | nil =>
      rintro q - hnil
      cases hnil
      rfl
    | cons x xs ih =>
      intro q hq hcons
      rw [List.foldlM_cons] at hcons
      obtain ⟨q', hx, hrest⟩ := bind_eq_ok_iff.mp hcons
      rw [ih (hq.obey hx) hrest, nextNumber_obey hq hx, List.countP_cons, Nat.add_assoc]
      exact congrArg _ (Nat.add_comm ..)
  have hzero : start.document.nextNumber type = 0 := by
    have hsheet := nextNumber_eq underway_start.built type
    exact hsheet
  rw [hfrom underway_start hxs, hzero, Nat.zero_add]

end Progress

/-! ### Headers with a name -/

/-- **A reserved name is found** if and only if it was generated before. -/
private theorem sectionToReopen?_reserved_iff (hd : d.Built OnReplay) {v : Value}
    (hat : v.text.head? = some '@') :
    (∃ s, d.sectionToReopen? type (some v) = some s) ↔
      ∃ k < d.nextNumber type, v.text = generatedName type k := by
  have hw := hd.wellFormed
  have ht : d.arena.Tidy := hd.tidy fun _ _ hop => hop.1
  have hfind := find?_groups hw ht type
  rw [sectionToReopen?_eq hw ht, hfind, nextNumber]
  cases hg : d.arena.childNamed? 1 type with
  | none => simp
  | some g =>
    rw [hg] at hfind
    have htype : (d.arena.sheetGroup g).type = type := by simpa using List.find?_some hfind
    have hgenerated := hd.consecutive.generated _ (List.mem_of_find?_eq_some hfind)
    rw [htype] at hgenerated
    -- the reserved names in the group are the generated ones
    have hmem : v.text ∈ (d.arena.sheetGroup g).generated ↔
        ∃ x ∈ (d.arena.sheetGroup g).sections, x.name = v.text := by
      unfold Sheet.Group.generated
      simp [hat]
    rw [hgenerated] at hmem
    have hrange : v.text ∈ (List.range (d.arena.counter g)).map (generatedName type) ↔
        ∃ k < d.arena.counter g, v.text = generatedName type k := by
      simp [eq_comm]
    rw [Option.map_some, Option.bind_some, Option.map_some, Option.getD_some, ← hrange]
    refine Iff.trans ?_ hmem.symm
    rw [← Option.isSome_iff_exists, Option.isSome_map, List.isSome_find?, List.any_eq_true]
    simp

namespace Progress

variable {p p' : Progress} {type name : Value}

/-- **The headers with a name that are obeyed**: the type is a word, the name is not empty, and if it
is a reserved one, then it was generated for a section above. -/
theorem exists_obey_header_iff (h : p.Underway) :
    (∃ p', p.obey (.header type (some name)) = .ok p') ↔
      isWord type.text = true ∧ name.text ≠ [] ∧ (name.text.head? = some '@' →
        ∃ k < p.document.nextNumber type.text, name.text = generatedName type.text k) := by
  constructor
  · rintro ⟨p', hok⟩
    have hno : ∀ v c, ¬p.Refuses (.header type (some name)) v c := by
      intro v c hrefuses
      cases hok.symm.trans ((obey_eq_error_iff h (r := ⟨c, _⟩)).mpr ⟨v, hrefuses, rfl⟩)
    have hword : isWord type.text = true := by
      by_contra hword
      exact hno _ _ (.type hword)
    refine ⟨hword, fun hnil => hno _ _ (.emptyName hword hnil), fun hat => ?_⟩
    refine (sectionToReopen?_reserved_iff h.built hat).mp (Option.ne_none_iff_exists'.mp ?_)
    exact fun hnone => hno _ _ (.reservedName hword hat hnone)
  · rintro ⟨hword, hne, hreserved⟩
    cases hobey : p.obey (.header type (some name)) with
    | ok p' => exact ⟨p', rfl⟩
    | error r =>
      obtain ⟨v, hrefuses, -⟩ := (obey_eq_error_iff h).mp hobey
      generalize r.cause = c at hrefuses
      cases hrefuses with
      | type hno => exact absurd hword hno
      | emptyName _ hnil => exact absurd hnil hne
      | reservedName _ hat hnone =>
        obtain ⟨s, hs⟩ := (sectionToReopen?_reserved_iff h.built hat).mpr (hreserved hat)
        cases hnone.symm.trans hs

end Progress

/-! ### Texts -/

/-- **No header of the text gives a name that is empty or reserved.** -/
def GivesNames (t : Text) : Prop :=
  ∀ type name, .header type (some name) ∈ (Syntax.parse t).directives → IsGivenName name.text

/-- **What is known of the names that the headers of a text give.** -/
structure ReservedNamesAbove (t : Text) : Prop where
  /-- No name is empty, and a reserved one was generated for a header above, of the same type and
  without a name. -/
  generated : ∀ front type name back,
    (Syntax.parse t).directives = front ++ .header type (some name) :: back →
      name.text ≠ [] ∧ (name.text.head? = some '@' →
        ∃ k < front.countP (·.isAnonymous type.text), name.text = generatedName type.text k)
  /-- So the text gives no reserved name exactly if it names no such section. -/
  givesNames_iff : GivesNames t ↔ ∀ front type name back,
    (Syntax.parse t).directives = front ++ .header type (some name) :: back →
      ∀ k < front.countP (·.isAnonymous type.text), name.text ≠ generatedName type.text k

/-- A text that is read has its directives obeyed. -/
private theorem exists_foldlM_of_parse (h : parse t = .ok d) :
    ∃ p : Progress, (Syntax.parse t).directives.foldlM Progress.obey .start = .ok p := by
  unfold parse at h
  dsimp only at h
  split at h
  · cases h
  · cases hreplay : replay (Syntax.parse t).items with
    | error r =>
      rw [hreplay] at h
      cases h
    | ok d' =>
      rw [replay_eq] at hreplay
      obtain ⟨p, hp, -⟩ := map_eq_ok_iff.mp hreplay
      exact ⟨p, hp⟩

/-- **Reserved names in a text that is read are those of sections above.** -/
theorem reservedNames_of_parse (h : parse t = .ok d) : ReservedNamesAbove t := by
  obtain ⟨p, hp⟩ := exists_foldlM_of_parse h
  have hheader : ∀ front type name back,
      (Syntax.parse t).directives = front ++ .header type (some name) :: back →
        name.text ≠ [] ∧ (name.text.head? = some '@' → ∃ k < front.countP (·.isAnonymous type.text),
          name.text = generatedName type.text k) := by
    intro front type name back hsplit
    rw [hsplit, List.foldlM_append] at hp
    obtain ⟨q, hfront, hrest⟩ := bind_eq_ok_iff.mp hp
    rw [List.foldlM_cons] at hrest
    obtain ⟨q', hobey, -⟩ := bind_eq_ok_iff.mp hrest
    obtain ⟨-, hne, hreserved⟩ := (Progress.exists_obey_header_iff
      (Progress.underway_start.foldlM hfront)).mp ⟨q', hobey⟩
    rw [Progress.nextNumber_foldlM hfront] at hreserved
    exact ⟨hne, hreserved⟩
  refine ⟨hheader, ⟨fun hgives front type name back hsplit k _ heq => ?_, fun hno type name hmem => ?_⟩⟩
  · refine (hgives type name ?_).2 (heq ▸ generatedName_head type.text k)
    rw [hsplit]
    exact List.mem_append_right _ List.mem_cons_self
  · obtain ⟨front, back, hsplit⟩ := List.append_of_mem hmem
    obtain ⟨hne, hreserved⟩ := hheader front type name back hsplit
    refine ⟨hne, fun hat => ?_⟩
    obtain ⟨k, hk, heq⟩ := hreserved hat
    exact hno front type name back hsplit k hk heq

private theorem exists_ok_of_toOption {ε α : Type} {x : Except ε α}
    (h : x.toOption.isSome = true) : ∃ a, x = .ok a := by
  cases x with
  | error e => cases h
  | ok a => exact ⟨a, rfl⟩

/-- A section with a name, and one without that is opened again under the name it got. -/
theorem reservedNames_of_reopening :
    let t := "config a\nconfig a 'x'\nconfig a '@a[0]'\n".toList
    ∃ d, parse t = .ok d ∧ ReservedNamesAbove t := by
  intro t
  obtain ⟨d, hd⟩ := exists_ok_of_toOption (x := parse t) (by decide +kernel)
  exact ⟨d, hd, reservedNames_of_parse hd⟩

/-- A text that is read although one of its headers gives a reserved name. -/
theorem not_givesNames_generated :
    let t := "config a\nconfig a '@a[0]'\n".toList
    (∃ d, parse t = .ok d) ∧ ¬GivesNames t := by
  intro t
  have hmem : .header ⟨['a'], 16⟩ (some ⟨"@a[0]".toList, 18⟩) ∈ (Syntax.parse t).directives := by
    decide +kernel
  refine ⟨exists_ok_of_toOption (by decide +kernel), fun hgives => ?_⟩
  exact (hgives _ _ hmem).2 rfl

end Document
end Uci
