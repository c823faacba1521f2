import Uci.Proofs.Document.Addressing

/-!
# Changes are sequences of operations

A change by path looks something up and then makes one or two operations on what it found, so
that whatever operations on issued handles keep, changes keep as well.  This holds of a change
that is refused too: the operations that it made before, if any, stay made.

## Main definitions

* `Edit.Plays` — edits that come to operations on issued handles.

## Main results

* `Operation.run_eq_ok_iff_of_edit` — an edit that stands for an operation succeeds exactly if the
  operation is accepted.
* `Change.plays` — **a change is a sequence of operations** on issued handles.
-/

namespace Uci

/-! ### Running an edit -/

namespace Edit

variable {α β : Type} {d d' : Document} {a : α} {b : β}

theorem run_bind_eq_ok_iff {e : Edit α} {f : α → Edit β} :
    run (e >>= f) d = (.ok b, d') ↔
      ∃ a d₁, run e d = (.ok a, d₁) ∧ run (f a) d₁ = (.ok b, d') := by
  rw [run_bind]
  rcases run e d with ⟨_ | a, d₁⟩ <;> simp

theorem run_read_eq_ok_iff {r : Document → Except Refusal α} :
    run (read r) d = (.ok a, d') ↔ r d = .ok a ∧ d = d' := by
  rw [run_read, Prod.mk.injEq]

/-- What is done with the answer changes nothing. -/
theorem run_map_eq_ok_iff {e : Edit α} {f : α → β} :
    run (f <$> e) d = (.ok b, d') ↔ ∃ a, run e d = (.ok a, d') ∧ f a = b := by
  rw [run_map]
  rcases run e d with ⟨_ | a, d₁⟩ <;> simp [Except.map, and_comm]

end Edit

namespace Document

variable {d : Document} {op : Operation} {ops ops' : List Operation}
  {allowed : Document → Operation → Prop}

theorem play_append (d : Document) (ops ops' : List Operation) :
    d.play (ops ++ ops') = (d.play ops).play ops' := List.foldl_append

theorem plays_append :
    d.Plays allowed (ops ++ ops') ↔ d.Plays allowed ops ∧ (d.play ops).Plays allowed ops' := by
  induction ops generalizing d with
  | nil => exact (and_iff_right trivial).symm
  | cons op ops ih =>
    show _ ∧ Plays allowed _ (ops ++ ops') ↔ (_ ∧ _) ∧ Plays allowed _ ops'
    rw [ih, and_assoc]
    rfl

theorem Built.of_plays (hd : d.Built allowed) (hops : d.Plays allowed ops) :
    (d.play ops).Built allowed := by
  induction ops generalizing d with
  | nil => exact hd
  | cons op ops ih => exact ih (hd.edited op hops.1) hops.2

end Document

variable {α β : Type} {d d' : Document} {a : α} {op : Operation} {r : Option Handle}
  {e : Edit α} {h s : Handle} {n : Text}

/-- An edit that stands for an operation succeeds exactly if the operation is accepted. -/
theorem Operation.run_eq_ok_iff_of_edit (op : Operation) (hw : d.arena.WellFormed) {f : α → Option Handle}
    (hop : op.edit = f <$> e) (hf : Function.Injective f) :
    e.run d = (.ok a, d') ↔ d.Accepts op (f a) d' := by
  rw [← Operation.run_eq_ok_iff hw, hop, Edit.run_map_eq_ok_iff]
  constructor
  · exact fun hrun => ⟨a, hrun, rfl⟩
  · rintro ⟨b, hrun, hab⟩
    rwa [← hf hab]

/-! ### Edits that come to operations -/

namespace Edit

open Document (OnIssued)

/-- **Edits that come to operations** on issued handles, when they are made on the document. -/
def Plays (e : Edit α) (d : Document) : Prop :=
  ∃ ops, d.Plays OnIssued ops ∧ (e.run d).2 = d.play ops

theorem plays_of_eq (h : (e.run d).2 = d) : e.Plays d := ⟨[], trivial, h⟩

theorem plays_read (r : Document → Except Refusal α) : (read r).Plays d := plays_of_eq rfl

theorem plays_pure (a : α) : (pure a : Edit α).Plays d := plays_of_eq rfl

theorem plays_operation (op : Operation) {f : α → Option Handle} (hop : op.edit = f <$> e) (hd : d.OnIssued op) :
    e.Plays d := by
  refine ⟨[op], ⟨hd, trivial⟩, ?_⟩
  show _ = (op.edit.run d).2
  rw [hop, run_map]

theorem Plays.bind {f : α → Edit β} (he : e.Plays d)
    (hf : ∀ a d₁, e.run d = (.ok a, d₁) → (f a).Plays d₁) : (e >>= f).Plays d := by
  obtain ⟨ops, hops, hrun⟩ := he
  unfold Plays
  rw [run_bind]
  rcases hed : run e d with ⟨_ | a, d₁⟩ <;> rw [hed] at hrun
  · exact ⟨ops, hops, hrun⟩
  · have hd₁ : d₁ = d.play ops := hrun
    obtain ⟨ops', hops', hrun'⟩ := hf a d₁ hed
    rw [hd₁] at hops' hrun'
    refine ⟨ops ++ ops', Document.plays_append.mpr ⟨hops, hops'⟩, ?_⟩
    rw [Document.play_append, ← hrun', hd₁]

/-- A lookup leaves the document as it is. -/
theorem Plays.of_read {r : Document → Except Refusal α} {f : α → Edit β}
    (hf : ∀ a, r d = .ok a → (f a).Plays d) : (read r >>= f).Plays d := by
  refine (plays_read r).bind fun a d₁ hrun => ?_
  obtain ⟨ha, rfl⟩ := run_read_eq_ok_iff.mp hrun
  exact hf a ha

end Edit

/-! ### What is looked up was issued -/

namespace Document

theorem issued_of_kind {k : NodeKind} (hk : d.arena.kind? h = some k) (hne : k ≠ .sectionType) :
    d.Issued h := ⟨k, hk, hne⟩

theorem issued_of_entry (hk : d.arena.kind? h = some .option ∨ d.arena.kind? h = some .list) :
    d.Issued h := hk.elim (issued_of_kind · (by decide)) (issued_of_kind · (by decide))

theorem Built.exclusive (hd : d.Built OnIssued) : d.arena.Exclusive :=
  (hd.mono fun _ _ _ => trivial).names.2.2

/-- What was issued stays so, whatever is done. -/
theorem Issued.after (hw : d.arena.WellFormed) (hh : d.Issued h) (op : Operation) :
    (op.after d).Issued h := by
  obtain ⟨k, hk, hne⟩ := hh
  rcases Operation.after_cases hw op with hsame | ⟨r, hacc⟩
  · rw [hsame]
    exact ⟨k, hk, hne⟩
  · exact ⟨k, hacc.kind? hw hk, hne⟩

section

variable (hd : d.Built OnIssued) {path : Text}
include hd

theorem Built.issued_of_query (hquery : d.query path = .ok h) : d.Issued h := by
  have hw := hd.wellFormed
  have ht := hd.tidy fun _ _ hop => hop
  by_cases hempty : path.isEmpty = true
  · -- the empty path leads to the configuration
    have hconfig : d.query path = .ok 1 := by
      rw [query, if_pos hempty, find, configuration_eq hw]
      rfl
    rw [hconfig] at hquery
    cases hquery
    exact issued_of_kind hw.kind_config (by decide)
  · have hcheck : checkPath path = .ok () := by
      have hrest := hquery
      rw [query, if_neg hempty] at hrest
      obtain ⟨⟨⟩, hok, -⟩ := bind_eq_ok_iff.mp hrest
      exact hok
    rcases (query_eq_ok_iff hw ht hcheck).mp hquery with hs | ⟨-, o, m, -, hfound, -⟩
    · exact issued_of_kind (sectionName_eq_ok.mp (sectionName_of_find hw ht hs)).2.1 (by decide)
    · obtain ⟨s, -, hentry⟩ := (find_entry_eq_ok_iff hw ht hd.exclusive).mp hfound
      exact issued_of_entry hentry.kind?

theorem Built.section_of_queryEntry (hquery : d.queryEntry path = .ok (s, n)) :
    ∃ o, d.FirstOnPath path o s n ∧ d.sectionName s = .ok o := by
  have hw := hd.wellFormed
  have ht := hd.tidy fun _ _ hop => hop
  obtain ⟨-, o, hfirst⟩ := (queryEntry_eq_ok_iff hw ht).mp hquery
  exact ⟨o, hfirst, sectionName_of_find hw ht hfirst.found⟩

theorem Built.issued_of_queryEntry (hquery : d.queryEntry path = .ok (s, n)) : d.Issued s := by
  obtain ⟨o, -, hname⟩ := hd.section_of_queryEntry hquery
  exact issued_of_kind (sectionName_eq_ok.mp hname).2.1 (by decide)

theorem Built.issued_of_entryIn? (hquery : d.queryEntry path = .ok (s, n))
    (hentry : d.entryIn? s n = .ok (some h)) : d.Issued h := by
  have hw := hd.wellFormed
  obtain ⟨o, -, hname⟩ := hd.section_of_queryEntry hquery
  rw [entryIn?_eq hw (hd.tidy fun _ _ hop => hop) hname] at hentry
  have hmem := (Arena.childNamed?_eq_some (Except.ok.inj hentry)).1
  exact issued_of_entry (hw.kind?_of_mem_entries (sectionName_eq_ok.mp hname).2.1 hmem)

end

/-! ### Changes -/

/-- An operation names one handle at most. -/
theorem onIssued_of_target {x : Handle} (hop : op.target? = some x) (hx : d.Issued x) :
    d.OnIssued op := by
  intro y hy
  rw [hop] at hy
  cases hy
  exact hx

private theorem plays_setByPath (hd : d.Built OnIssued) (path value : Text) :
    (setByPath path value).Plays d := by
  unfold setByPath
  refine .of_read fun ⟨s, n⟩ hquery => .of_read fun x hx => ?_
  have hs := hd.issued_of_queryEntry hquery
  have hadd : ∀ d₁ : Document, d₁.Issued s →
      (do let _ ← addOption s n value : Edit Unit).Plays d₁ := fun d₁ hs₁ =>
    (Edit.plays_operation (.addOption s n value) rfl (onIssued_of_target rfl hs₁)).bind
      fun _ _ _ => Edit.plays_pure _
  unfold entryWithRole? at hx
  obtain ⟨o, ho, hrole⟩ := bind_eq_ok_iff.mp hx
  cases o with
  | none =>
    cases hrole
    exact hadd d hs
  | some y =>
    have hy := hd.issued_of_entryIn? hquery ho
    obtain ⟨role, -, hsome⟩ := bind_eq_ok_iff.mp hrole
    cases hsome
    have hremove : (do remove y; let _ ← addOption s n value : Edit Unit).Plays d := by
      refine (Edit.plays_operation (.remove y) rfl (onIssued_of_target rfl hy)).bind
        fun u d₁ hrun => hadd d₁ ?_
      have hafter : (Operation.remove y).after d = d₁ := by
        show (Edit.run ((fun _ => none) <$> remove y) d).2 = d₁
        rw [Edit.run_map, hrun]
      exact hafter ▸ hs.after hd.wellFormed (.remove y)
    cases role with
    | option =>
      exact Edit.plays_operation (.setOptionValue y value) rfl (onIssued_of_target rfl hy)
    | _ => exact hremove

private theorem plays_addAndName (hd : d.Built OnIssued) (type : Text) (name : Option Text) :
    (addAndName type name).Plays d := by
  have hroot : d.Issued root := issued_of_kind hd.wellFormed.kind_root (by decide)
  exact (Edit.plays_operation (.addSection root type name) rfl
    (onIssued_of_target rfl hroot)).bind fun _ _ _ => Edit.plays_read _

/-- A list that comes in is one. -/
theorem kind?_of_addList (hw : d.arena.WellFormed) {l : Handle}
    (hrun : (addList s n).run d = (.ok l, d')) : d'.arena.kind? l = some .list := by
  have hacc := ((Operation.addList s n).run_eq_ok_iff_of_edit hw rfl fun _ _ => Option.some.inj).mp hrun
  cases hacc with
  | addList hp _ _ => exact (Arena.kind?_hang hp.lt_size _ _).trans (if_pos rfl)

private theorem plays_appendByPath (hd : d.Built OnIssued) (path value : Text) :
    (appendByPath path value).Plays d := by
  unfold appendByPath
  refine .of_read fun ⟨s, n⟩ hquery => .of_read fun x hx => ?_
  have helement : ∀ (d₁ : Document) (l : Handle), d₁.Issued l →
      (do let _ ← addElement l value : Edit Unit).Plays d₁ := fun d₁ l hl =>
    (Edit.plays_operation (.addElement l value) rfl (onIssued_of_target rfl hl)).bind
      fun _ _ _ => Edit.plays_pure _
  cases x with
  | some y => exact helement d y (hd.issued_of_entryIn? hquery hx)
  | none =>
    refine (Edit.plays_operation (.addList s n) rfl
      (onIssued_of_target rfl (hd.issued_of_queryEntry hquery))).bind fun l d₁ hrun => ?_
    exact helement d₁ l (issued_of_kind (kind?_of_addList hd.wellFormed hrun) (by decide))

private theorem plays_removeByPath (hd : d.Built OnIssued) (path : Text) :
    (removeByPath path).Plays d :=
  .of_read fun x hquery => Edit.plays_operation (.remove x) rfl
    (onIssued_of_target rfl (hd.issued_of_query hquery))

private theorem plays_renameByPath (hd : d.Built OnIssued) (path name : Text) :
    (renameByPath path name).Plays d := by
  unfold renameByPath
  refine .of_read fun x hquery => .of_read fun role _ => ?_
  have hx := hd.issued_of_query hquery
  cases role with
  | «section» =>
    exact Edit.plays_operation (.setSectionName x name) rfl (onIssued_of_target rfl hx)
  | option =>
    exact Edit.plays_operation (.setOptionName x name) rfl (onIssued_of_target rfl hx)
  | list => exact Edit.plays_operation (.setListName x name) rfl (onIssued_of_target rfl hx)
  | _ => exact Edit.plays_read _

end Document

/-- **A change is a sequence of operations** on issued handles, whether it succeeds or not. -/
theorem Change.plays (hd : d.Built Document.OnIssued) (c : Change) : c.edit.Plays d := by
  cases c with
  | set path value =>
    exact (Document.plays_setByPath hd path value).bind fun _ _ _ => Edit.plays_pure _
  | add type name =>
    exact (Document.plays_addAndName hd type name).bind fun _ _ _ => Edit.plays_pure _
  | append path value =>
    exact (Document.plays_appendByPath hd path value).bind fun _ _ _ => Edit.plays_pure _
  | delete path =>
    exact (Document.plays_removeByPath hd path).bind fun _ _ _ => Edit.plays_pure _
  | rename path name =>
    exact (Document.plays_renameByPath hd path name).bind fun _ _ _ => Edit.plays_pure _

/-- What a change leaves was built as well. -/
theorem Document.Built.change (hd : d.Built OnIssued) (c : Change) :
    (c.edit.run d).2.Built OnIssued := by
  obtain ⟨ops, hops, hrun⟩ := c.plays hd
  exact hrun ▸ hd.of_plays hops

end Uci
