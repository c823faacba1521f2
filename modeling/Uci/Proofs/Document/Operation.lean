import Uci.Proofs.Document.Check

/-!
# Operations

The edits of a document as data, so that one can speak of all of them, and of every
sequence of them.  An operation is accepted or refused; a refused one leaves the
document as it was, and what an accepted one checked and what it does is said once,
in `Document.Accepts`.  Everything that is proved about edits is proved by cases on
that relation.

## Main definitions

* `Operation` — an edit with its arguments; `Operation.edit` is the edit,
  `Operation.target?` the handle it names, `Operation.after` the document it leaves.
* `Document.Accepts` — the accepted operations, with what was checked, the answer
  and the document they lead to.
* `Document.Issued` — a handle that the document may have given out: every node has
  one but the type groups, which no answer ever names.
* `Edit.Atomic` — an edit that, if it refuses, leaves the document as it was.

## Main results

* `Operation.atomic_edit` — every edit is made as a whole or not at all.
* `Operation.run_eq_ok_iff` — an edit succeeds exactly as `Document.Accepts` says.
* `Operation.after_of_error` — **a refused operation changes nothing.**
* `Operation.after_cases` — what is left after an operation, in one case analysis.
-/

namespace Uci

/-- **Operation**: an edit with its arguments. -/
inductive Operation where
  | setPackage (package : Option Text)
  | addSection (parent : Handle) (type : Text) (name : Option Text)
  | addOption (parent : Handle) (name value : Text)
  | addList (parent : Handle) (name : Text)
  | addElement (parent : Handle) (value : Text)
  | remove (h : Handle)
  | setSectionType (s : Handle) (type : Text)
  | setSectionName (s : Handle) (name : Text)
  | setOptionName (h : Handle) (name : Text)
  | setListName (h : Handle) (name : Text)
  | setOptionValue (h : Handle) (value : Text)
  | setElementValue (h : Handle) (value : Text)
  deriving DecidableEq, Repr

namespace Operation

/-- The edit that an operation stands for.  An addition answers the handle of the new node,
all others answer nothing. -/
def edit : Operation → Edit (Option Handle)
  | setPackage package => (fun _ => none) <$> Document.setPackage package
  | addSection parent type name => some <$> Document.addSection parent type name
  | addOption parent name value => some <$> Document.addOption parent name value
  | addList parent name => some <$> Document.addList parent name
  | addElement parent value => some <$> Document.addElement parent value
  | remove h => (fun _ => none) <$> Document.remove h
  | setSectionType s type => (fun _ => none) <$> Document.setSectionType s type
  | setSectionName s name => (fun _ => none) <$> Document.setSectionName s name
  | setOptionName h name => (fun _ => none) <$> Document.setOptionName h name
  | setListName h name => (fun _ => none) <$> Document.setListName h name
  | setOptionValue h value => (fun _ => none) <$> Document.setOptionValue h value
  | setElementValue h value => (fun _ => none) <$> Document.setElementValue h value

/-- The handle that an operation names, if it names one. -/
def target? : Operation → Option Handle
  | setPackage _ => none
  | addSection h _ _ | addOption h _ _ | addList h _ | addElement h _ | remove h
  | setSectionType h _ | setSectionName h _ | setOptionName h _ | setListName h _
  | setOptionValue h _ | setElementValue h _ => some h

/-- **The document after an operation**, accepted or refused. -/
def after (op : Operation) (d : Document) : Document := (op.edit.run d).2

end Operation

namespace Document

/-- The node is live, and may hold a child of kind `k`. -/
def Hosts (d : Document) (p : Handle) (k : NodeKind) : Prop :=
  d.isLive p = true ∧ ∃ kp, d.arena.kind? p = some kp ∧ kp.mayHold k = true

/-- The node is live and of kind `k`, and hangs below `p`. -/
def HangsLive (d : Document) (h : Handle) (k : NodeKind) (p : Handle) : Prop :=
  d.isLive h = true ∧ d.arena.kind? h = some k ∧ d.arena.parent? h = some p

/-- **Accepted operations**: what was checked, what is answered and what is left. -/
inductive Accepts (d : Document) : Operation → Option Handle → Document → Prop
  | setPackage {package : Option Text} :
    (∀ t ∈ package, Syntax.isWord t = true) →
    Accepts d (.setPackage package) none { d with package }
  /-- A section of a type that there is a group for. -/
  | addSection {h g : Handle} {type : Text} {name : Option Text} :
    h = 0 ∨ h = 1 → Syntax.isWord type = true → (∀ n ∈ name, IsGivenName n) →
    d.arena.childNamed? 1 type = some g → (∀ n ∈ name, d.arena.Unused g n none) →
    Accepts d (.addSection h type name) (some d.allocated)
      (d.mapArena (·.hangSection g type name))
  /-- The first section of its type, with which its group comes in. -/
  | addSectionAndGroup {h : Handle} {type : Text} {name : Option Text} :
    h = 0 ∨ h = 1 → Syntax.isWord type = true → (∀ n ∈ name, IsGivenName n) →
    d.arena.childNamed? 1 type = none →
    Accepts d (.addSection h type name) (some (d.allocated + 1))
      (d.mapArena fun a =>
        (a.hang 1 (.sectionType (some type) 0)).hangSection a.size type name)
  | addOption {p : Handle} {name value : Text} :
    d.Hosts p .option → Syntax.isWord name = true → d.arena.Unused p name none →
    Accepts d (.addOption p name value) (some d.allocated)
      (d.mapArena (·.hang p (.option (some name) (some value))))
  | addList {p : Handle} {name : Text} :
    d.Hosts p .list → Syntax.isWord name = true → d.arena.Unused p name none →
    Accepts d (.addList p name) (some d.allocated) (d.mapArena (·.hang p (.list (some name))))
  | addElement {p : Handle} {value : Text} :
    d.Hosts p .element →
    Accepts d (.addElement p value) (some d.allocated)
      (d.mapArena (·.hang p (.element (some value))))
  | remove {h : Handle} {k : NodeKind} :
    d.arena.kind? h = some k → k ≠ .root → k ≠ .config →
    Accepts d (.remove h) none (d.mapArena (·.detach h))
  | setSectionType {s g : Handle} {type : Text} :
    d.HangsLive s .section g → Syntax.isWord type = true →
    (∀ other, d.arena.childNamed? 1 type = some other → other ≠ g →
      d.checkMerge g other = .ok ()) →
    Accepts d (.setSectionType s type) none
      (d.mapArena fun a => ((a.modifyContent g (·.withName type)).mergeGroups 1).nameSection s)
  | setSectionName {s g : Handle} {name : Text} :
    d.HangsLive s .section g → IsGivenName name → d.arena.Unused g name (some s) →
    Accepts d (.setSectionName s name) none (d.mapArena (·.modifyContent s (·.withName name)))
  | setOptionName {h p : Handle} {name : Text} :
    d.HangsLive h .option p → Syntax.isWord name = true → d.arena.Unused p name (some h) →
    Accepts d (.setOptionName h name) none (d.mapArena (·.modifyContent h (·.withName name)))
  | setListName {h p : Handle} {name : Text} :
    d.HangsLive h .list p → Syntax.isWord name = true → d.arena.Unused p name (some h) →
    Accepts d (.setListName h name) none (d.mapArena (·.modifyContent h (·.withName name)))
  | setOptionValue {h : Handle} {value : Text} :
    d.isLive h = true → d.arena.kind? h = some .option →
    Accepts d (.setOptionValue h value) none
      (d.mapArena (·.modifyContent h (·.withValue value)))
  | setElementValue {h : Handle} {value : Text} :
    d.isLive h = true → d.arena.kind? h = some .element →
    Accepts d (.setElementValue h value) none
      (d.mapArena (·.modifyContent h (·.withValue value)))

/-- **Issued handle**: a node that is not a type group.  These are the handles that the
document gives out; which of them it did give out so far does not matter here. -/
def Issued (d : Document) (h : Handle) : Prop :=
  ∃ k, d.arena.kind? h = some k ∧ k ≠ .sectionType

@[simp] theorem arena_mapArena (f : Arena → Arena) (d : Document) :
    (d.mapArena f).arena = f d.arena := rfl

@[simp] theorem package_mapArena (f : Arena → Arena) (d : Document) :
    (d.mapArena f).package = d.package := rfl

end Document

/-! ### Running an edit -/

namespace Edit

variable {α β : Type}

theorem run_map (f : α → β) (e : Edit α) (d : Document) :
    run (f <$> e) d = ((run e d).1.map f, (run e d).2) := by
  rw [← bind_pure_comp, run_bind]
  rcases run e d with ⟨_ | _, _⟩ <;> rfl

/-- An edit of one check and one change succeeds exactly if the check does. -/
theorem run_map_guarded_eq_ok_iff {γ : Type} {check : Document → Except Refusal α}
    {change : α → Document → β × Document} {f : β → γ} {d d' : Document} {c : γ} :
    run (f <$> guarded check change) d = (.ok c, d') ↔
      ∃ a, check d = .ok a ∧ f (change a d).1 = c ∧ (change a d).2 = d' := by
  rw [run_map, run_guarded]
  cases check d with
  | error e => simp [Except.map]
  | ok a => simp [Except.map]

/-- The same for a check that finds nothing out but that it passes. -/
theorem run_map_guarded_of_check {γ : Type} {check : Document → Except Refusal Unit}
    {change : Unit → Document → β × Document} {f : β → γ} {d d' : Document} {c : γ} {Q : Prop}
    (hcheck : check d = .ok () ↔ Q) :
    run (f <$> guarded check change) d = (.ok c, d') ↔
      Q ∧ f (change () d).1 = c ∧ (change () d).2 = d' := by
  rw [run_map_guarded_eq_ok_iff, ← hcheck]
  exact ⟨fun ⟨_, h⟩ => h, fun h => ⟨(), h⟩⟩

/-! ### Edits that refuse before they write

A refusal takes nothing back, so that whether it leaves the document as it was depends on
what the edit did before. -/

/-- An edit that refuses nothing. -/
def Unfailing (e : Edit α) : Prop := ∀ d, ∃ a d', run e d = (.ok a, d')

/-- **An edit that is made as a whole or not at all.** -/
def Atomic (e : Edit α) : Prop := ∀ d r d', run e d = (.error r, d') → d' = d

theorem unfailing_pure (a : α) : Unfailing (pure a) := fun d => ⟨a, d, rfl⟩

theorem unfailing_write (change : Document → α × Document) : Unfailing (write change) :=
  fun d => ⟨(change d).1, (change d).2, rfl⟩

theorem Unfailing.bind {e : Edit α} {f : α → Edit β} (he : Unfailing e)
    (hf : ∀ a, Unfailing (f a)) : Unfailing (e >>= f) := by
  intro d
  obtain ⟨a, d₁, hrun⟩ := he d
  obtain ⟨b, d₂, hrun'⟩ := hf a d₁
  refine ⟨b, d₂, ?_⟩
  rw [run_bind, hrun]
  exact hrun'

/-- What reads first, and refuses nothing from the first write on, is made as a whole or not
at all. -/
theorem atomic_read_bind {check : Document → Except Refusal α} {f : α → Edit β}
    (hf : ∀ a, Unfailing (f a)) : Atomic (read check >>= f) := by
  intro d r d' hrun
  rw [run_bind, run_read] at hrun
  cases hc : check d with
  | error r' =>
    rw [hc] at hrun
    exact (congrArg Prod.snd hrun).symm
  | ok a =>
    rw [hc] at hrun
    obtain ⟨b, d₁, hrun'⟩ := hf a d
    cases congrArg Prod.fst (hrun'.symm.trans hrun)

theorem atomic_guarded (check : Document → Except Refusal α)
    (change : α → Document → β × Document) : Atomic (guarded check change) :=
  atomic_read_bind fun a => unfailing_write (change a)

theorem Atomic.map {e : Edit α} (he : Atomic e) (f : α → β) : Atomic (f <$> e) := by
  intro d r d' hrun
  rw [run_map] at hrun
  cases hfst : (run e d).1 with
  | error r' =>
    have hsnd : (run e d).2 = d' := congrArg Prod.snd hrun
    exact he d r' d' (Prod.ext hfst hsnd)
  | ok a =>
    rw [hfst] at hrun
    cases congrArg Prod.fst hrun

end Edit

namespace Document

open Edit

theorem atomic_addSection (parent : Handle) (type : Text) (name : Option Text) :
    Atomic (addSection parent type name) := by
  have hgroup : ∀ config existing, Unfailing (openGroup config existing type) := by
    intro config existing
    cases existing with
    | none => exact unfailing_write _
    | some group => exact unfailing_pure group
  exact atomic_read_bind fun (config, existing) => (hgroup config existing).bind fun _ =>
    (unfailing_write _).bind fun s => (unfailing_write _).bind fun _ => unfailing_pure s

theorem atomic_setSectionType (s : Handle) (type : Text) : Atomic (setSectionType s type) :=
  atomic_read_bind fun _ => (unfailing_write _).bind fun _ =>
    (unfailing_write _).bind fun _ => unfailing_write _

end Document

namespace Operation

variable {d d' : Document} {op : Operation} {r : Option Handle}

open Document

/-- **Every edit is made as a whole or not at all.** -/
theorem atomic_edit (op : Operation) : Edit.Atomic op.edit := by
  cases op with
  | addSection parent type name => exact (atomic_addSection parent type name).map _
  | setSectionType s type => exact (atomic_setSectionType s type).map _
  | _ => exact (Edit.atomic_guarded _ _).map _

theorem eq_of_run_error {e : Refusal} (h : op.edit.run d = (.error e, d')) : d' = d :=
  op.atomic_edit d e d' h

/-- **A refused operation changes nothing.** -/
theorem after_of_error {e : Refusal} (h : (op.edit.run d).1 = .error e) : op.after d = d :=
  eq_of_run_error (e := e) (Prod.ext h rfl)

/-! ### When an operation is accepted

One lemma for each check, from the refusals it may end in to the facts it finds out. -/

private theorem checkEntry_eq_ok_iff {p : Handle} {k : NodeKind} {use : WordUse} {name : Text} :
    (do d.checkHolds p k; checkWord use name; d.checkUnused p name none) = .ok () ↔
      d.Hosts p k ∧ Syntax.isWord name = true ∧ d.arena.Unused p name none := by
  rw [bind_eq_ok_iff]
  constructor
  · rintro ⟨⟨⟩, hh, hrest⟩
    obtain ⟨⟨⟩, hword, hun⟩ := bind_eq_ok_iff.mp hrest
    exact ⟨checkHolds_eq_ok_iff.mp hh, checkWord_eq_ok_iff.mp hword, checkUnused_eq_ok_iff.mp hun⟩
  · rintro ⟨hh, hword, hun⟩
    exact ⟨(), checkHolds_eq_ok_iff.mpr hh, bind_eq_ok_iff.mpr
      ⟨(), checkWord_eq_ok_iff.mpr hword, checkUnused_eq_ok_iff.mpr hun⟩⟩

private theorem checkRename_eq_ok_iff {h : Handle} {k : NodeKind} {use : WordUse} {name : Text} :
    (do let parent ← d.parentOf h k; checkWord use name; d.checkUnused parent name (some h)) =
        .ok () ↔
      ∃ p, d.HangsLive h k p ∧ Syntax.isWord name = true ∧ d.arena.Unused p name (some h) := by
  rw [bind_eq_ok_iff]
  apply exists_congr
  intro p
  rw [parentOf_eq_ok_iff, bind_eq_ok_iff]
  apply and_congr_right
  intro _
  constructor
  · rintro ⟨⟨⟩, hword, hun⟩
    exact ⟨checkWord_eq_ok_iff.mp hword, checkUnused_eq_ok_iff.mp hun⟩
  · rintro ⟨hword, hun⟩
    exact ⟨(), checkWord_eq_ok_iff.mpr hword, checkUnused_eq_ok_iff.mpr hun⟩

private theorem checkRemove_eq_ok_iff {h : Handle} :
    (do
      let n ← d.node h
      if n.kind = .root ∨ n.kind = .config then .error (.mismatch (.removalOfRoot h))) =
        Except.ok (ε := Refusal) () ↔
      ∃ k, d.arena.kind? h = some k ∧ k ≠ .root ∧ k ≠ .config := by
  rw [bind_eq_ok_iff]
  constructor
  · rintro ⟨n, hn, hok⟩
    refine ⟨n.kind, Arena.kind?_of_get? (node_eq_ok_iff.mp hn), ?_⟩
    split at hok
    · cases hok
    · next hne => exact not_or.mp hne
  · rintro ⟨k, hk, hroot, hconfig⟩
    obtain ⟨n, hn⟩ := Option.isSome_iff_exists.mp
      ((Arena.get?_isSome_iff d.arena h).mpr (Arena.lt_size_of_kind? hk))
    rw [Arena.kind?_of_get? hn] at hk
    cases hk
    exact ⟨n, node_eq_ok_iff.mpr hn, if_neg (not_or.mpr ⟨hroot, hconfig⟩)⟩

private theorem checkSetSectionName_eq_ok_iff {s : Handle} {name : Text} :
    (do let group ← d.groupOf s; checkSectionName name; d.checkUnused group name (some s)) =
        .ok () ↔
      ∃ g, d.HangsLive s .section g ∧ IsGivenName name ∧ d.arena.Unused g name (some s) := by
  rw [bind_eq_ok_iff]
  apply exists_congr
  intro p
  rw [groupOf_eq_ok_iff, bind_eq_ok_iff]
  apply and_congr_right
  intro _
  constructor
  · rintro ⟨⟨⟩, hname, hun⟩
    exact ⟨checkSectionName_eq_ok_iff.mp hname, checkUnused_eq_ok_iff.mp hun⟩
  · rintro ⟨hname, hun⟩
    exact ⟨(), checkSectionName_eq_ok_iff.mpr hname, checkUnused_eq_ok_iff.mpr hun⟩

private theorem checkAddSection_eq_ok_iff (hw : d.arena.WellFormed) {h : Handle} {type : Text}
    {name : Option Text} {x : Handle × Option Handle} :
    checkAddSection h type name d = .ok x ↔
      (h = 0 ∨ h = 1) ∧ Syntax.isWord type = true ∧ (∀ n ∈ name, IsGivenName n) ∧
        (∀ g, d.arena.childNamed? 1 type = some g → ∀ n ∈ name, d.arena.Unused g n none) ∧
        x = (1, d.arena.childNamed? 1 type) := by
  have hgroup : d.groupNamed? 1 type = d.arena.childNamed? 1 type := rfl
  rw [checkAddSection, bind_eq_ok_iff]
  constructor
  · rintro ⟨c, hc, hrest⟩
    obtain ⟨hh, rfl⟩ := (sectionParent_eq_ok_iff hw).mp hc
    obtain ⟨⟨⟩, hword, hrest⟩ := bind_eq_ok_iff.mp hrest
    obtain ⟨⟨⟩, hname, hrest⟩ := bind_eq_ok_iff.mp hrest
    have hgiven : ∀ n ∈ name, IsGivenName n := fun n hn =>
      checkSectionName_eq_ok_iff.mp (option_forM_eq_ok_iff.mp hname n hn)
    rw [hgroup] at hrest
    refine ⟨hh, checkWord_eq_ok_iff.mp hword, hgiven, ?_⟩
    -- without a group of the type there is no name to collide with
    cases hg : d.arena.childNamed? 1 type with
    | none =>
      rw [hg] at hrest
      exact ⟨by nofun, (Except.ok.inj hrest).symm⟩
    | some g =>
      rw [hg] at hrest
      cases name with
      | none => exact ⟨by nofun, (Except.ok.inj hrest).symm⟩
      | some n =>
        obtain ⟨⟨⟩, hun, hx⟩ := bind_eq_ok_iff.mp hrest
        refine ⟨?_, (Except.ok.inj hx).symm⟩
        intro g' hg' n' hn'
        cases hg'
        cases hn'
        exact checkUnused_eq_ok_iff.mp hun
  · rintro ⟨hh, hword, hgiven, hun, rfl⟩
    have hname : name.forM checkSectionName = .ok () :=
      option_forM_eq_ok_iff.mpr fun n hn => checkSectionName_eq_ok_iff.mpr (hgiven n hn)
    refine ⟨1, (sectionParent_eq_ok_iff hw).mpr ⟨hh, rfl⟩, bind_eq_ok_iff.mpr
      ⟨(), checkWord_eq_ok_iff.mpr hword, bind_eq_ok_iff.mpr ⟨(), hname, ?_⟩⟩⟩
    rw [hgroup]
    cases hg : d.arena.childNamed? 1 type with
    | none => rfl
    | some g =>
      cases name with
      | none => rfl
      | some n =>
        exact bind_eq_ok_iff.mpr ⟨(), checkUnused_eq_ok_iff.mpr (hun g hg n rfl), rfl⟩

private theorem checkSetSectionType_eq_ok_iff (hw : d.arena.WellFormed) {s : Handle} {type : Text}
    {x : Handle × Handle} :
    checkSetSectionType s type d = .ok x ↔
      ∃ g, d.HangsLive s .section g ∧ Syntax.isWord type = true ∧
        (∀ other, d.arena.childNamed? 1 type = some other → other ≠ g →
          d.checkMerge g other = .ok ()) ∧ x = (g, 1) := by
  rw [checkSetSectionType, bind_eq_ok_iff]
  apply exists_congr
  intro g
  rw [groupOf_eq_ok_iff]
  apply and_congr_right
  intro _
  have hgroup : d.groupNamed? 1 type = d.arena.childNamed? 1 type := rfl
  constructor
  · intro hrest
    obtain ⟨⟨⟩, hword, hrest⟩ := bind_eq_ok_iff.mp hrest
    rw [configuration_eq hw] at hrest
    obtain ⟨c, hc, hrest⟩ := bind_eq_ok_iff.mp hrest
    cases hc
    refine ⟨checkWord_eq_ok_iff.mp hword, ?_⟩
    rw [hgroup] at hrest
    cases hg : d.arena.childNamed? 1 type with
    | none =>
      rw [hg] at hrest
      exact ⟨by nofun, (Except.ok.inj hrest).symm⟩
    | some other =>
      rw [hg] at hrest
      dsimp only at hrest
      -- a type that the group has already takes no further check
      by_cases hne : other = g
      · rw [if_neg (not_not_intro hne)] at hrest
        exact ⟨fun _ ho hg' => absurd (Option.some.inj ho ▸ hne) hg', (Except.ok.inj hrest).symm⟩
      · rw [if_pos hne] at hrest
        obtain ⟨⟨⟩, hm, hx⟩ := bind_eq_ok_iff.mp hrest
        refine ⟨?_, (Except.ok.inj hx).symm⟩
        intro other' hother' _
        cases hother'
        exact hm
  · rintro ⟨hword, hm, rfl⟩
    refine bind_eq_ok_iff.mpr ⟨(), checkWord_eq_ok_iff.mpr hword, ?_⟩
    rw [configuration_eq hw]
    refine bind_eq_ok_iff.mpr ⟨1, rfl, ?_⟩
    rw [hgroup]
    cases hg : d.arena.childNamed? 1 type with
    | none => rfl
    | some other =>
      by_cases hne : other = g
      · exact if_neg (not_not_intro hne)
      · exact (if_pos hne).trans (bind_eq_ok_iff.mpr ⟨(), hm other hg hne, rfl⟩)

/-- Hanging a section below a group that is there. -/
private theorem attachSection_some {g : Handle} {type : Text} {name : Option Text} (c : Handle)
    (hg : d.arena.name? g = some type) (hlt : g < d.arena.size)
    (hname : ∀ n ∈ name, IsGivenName n) :
    attachSection c (some g) type name d =
      (d.allocated, d.mapArena (·.hangSection g type name)) := by
  have h : attachSection c (some g) type name d = (d.allocated,
      d.mapArena fun a => (a.hang g (.section name)).nameSection a.size) := rfl
  rw [h, mapArena, Arena.nameSection_hang hg hlt fun n hn => (hname n hn).2]
  rfl

/-- Hanging a section below a group that has to be made first. -/
private theorem attachSection_none {type : Text} {name : Option Text}
    (hlt : 1 < d.arena.size) (hname : ∀ n ∈ name, IsGivenName n) :
    attachSection 1 none type name d = (d.allocated + 1, d.mapArena fun a =>
      (a.hang 1 (.sectionType (some type) 0)).hangSection a.size type name) := by
  have hsize := Arena.size_hang d.arena 1 (.sectionType (some type) 0)
  have hg : (d.arena.hang 1 (.sectionType (some type) 0)).name? d.arena.size = some type := by
    rw [Arena.name?_hang hlt, if_pos rfl]
    rfl
  have hlt' : d.arena.size < (d.arena.hang 1 (.sectionType (some type) 0)).size := by
    rw [hsize]
    exact Nat.lt_succ_self _
  -- the new group has the handle `size`, and the section the one after it
  simp only [attachSection, attach, allocated, mapArena]
  rw [← Arena.hang, ← hsize, ← Arena.hang,
    Arena.nameSection_hang hg hlt' fun n hn => (hname n hn).2]

/-- Sections are hung below a group that is there, or below one that is made first. -/
private theorem run_addSection_eq_ok_iff (hw : d.arena.WellFormed) {h : Handle} {type : Text}
    {name : Option Text} :
    (Operation.addSection h type name).edit.run d = (.ok r, d') ↔
      d.Accepts (.addSection h type name) r d' := by
  rw [edit, Edit.run_map, run_addSection, ← Edit.run_map]
  refine Edit.run_map_guarded_eq_ok_iff.trans ⟨?_, ?_⟩
  · rintro ⟨x, hc, rfl, rfl⟩
    obtain ⟨hh, hword, hname, hun, rfl⟩ := (checkAddSection_eq_ok_iff hw).mp hc
    -- what is hung depends on whether the check found a group
    cases hg : d.arena.childNamed? 1 type with
    | some g =>
      change d.Accepts _ (some (attachSection 1 (some g) type name d).1)
        (attachSection 1 (some g) type name d).2
      rw [attachSection_some 1 (Arena.childNamed?_eq_some hg).2 (hw.lt_size_of_childNamed? hg)
        hname]
      exact .addSection hh hword hname hg (hun g hg)
    | none =>
      change d.Accepts _ (some (attachSection 1 none type name d).1)
        (attachSection 1 none type name d).2
      rw [attachSection_none hw.one_lt_size hname]
      exact .addSectionAndGroup hh hword hname hg
  · intro hacc
    cases hacc with
    | addSection hh hword hname hg hun =>
      refine ⟨_, (checkAddSection_eq_ok_iff hw).mpr ⟨hh, hword, hname, ?_, rfl⟩, ?_⟩
      · intro g' hg'
        rw [hg] at hg'
        cases hg'
        exact hun
      · rw [hg]
        change some (attachSection 1 (some _) type name d).1 = _ ∧
          (attachSection 1 (some _) type name d).2 = _
        rw [attachSection_some 1 (Arena.childNamed?_eq_some hg).2 (hw.lt_size_of_childNamed? hg)
          hname]
        exact ⟨rfl, rfl⟩
    | addSectionAndGroup hh hword hname hg =>
      refine ⟨_, (checkAddSection_eq_ok_iff hw).mpr ⟨hh, hword, hname, ?_, rfl⟩, ?_⟩
      · intro g' hg'
        rw [hg] at hg'
        cases hg'
      · rw [hg]
        change some (attachSection 1 none type name d).1 = _ ∧
          (attachSection 1 none type name d).2 = _
        rw [attachSection_none hw.one_lt_size hname]
        exact ⟨rfl, rfl⟩

/-- **What an accepted operation checked and does.** -/
theorem run_eq_ok_iff (hw : d.arena.WellFormed) :
    op.edit.run d = (.ok r, d') ↔ d.Accepts op r d' := by
  cases op with
  | setPackage package =>
    have hcheck : package.forM (checkWord .packageName) = .ok () ↔
        ∀ t ∈ package, Syntax.isWord t = true :=
      option_forM_eq_ok_iff.trans (forall₂_congr fun _ _ => checkWord_eq_ok_iff)
    refine (Edit.run_map_guarded_of_check hcheck).trans ⟨?_, ?_⟩
    · rintro ⟨hword, rfl, rfl⟩
      exact .setPackage hword
    · rintro ⟨hword⟩
      exact ⟨hword, rfl, rfl⟩
  | addSection h type name => exact run_addSection_eq_ok_iff hw
  | addOption p name value =>
    refine (Edit.run_map_guarded_of_check checkEntry_eq_ok_iff).trans ⟨?_, ?_⟩
    · rintro ⟨⟨hh, hword, hun⟩, rfl, rfl⟩
      exact .addOption hh hword hun
    · intro hacc
      cases hacc with
      | addOption hh hword hun => exact ⟨⟨hh, hword, hun⟩, rfl, rfl⟩
  | addList p name =>
    refine (Edit.run_map_guarded_of_check checkEntry_eq_ok_iff).trans ⟨?_, ?_⟩
    · rintro ⟨⟨hh, hword, hun⟩, rfl, rfl⟩
      exact .addList hh hword hun
    · intro hacc
      cases hacc with
      | addList hh hword hun => exact ⟨⟨hh, hword, hun⟩, rfl, rfl⟩
  | addElement p value =>
    refine (Edit.run_map_guarded_of_check checkHolds_eq_ok_iff).trans ⟨?_, ?_⟩
    · rintro ⟨hh, rfl, rfl⟩
      exact .addElement hh
    · intro hacc
      cases hacc with
      | addElement hh => exact ⟨hh, rfl, rfl⟩
  | remove h =>
    refine (Edit.run_map_guarded_of_check checkRemove_eq_ok_iff).trans ⟨?_, ?_⟩
    · rintro ⟨⟨k, hk, hroot, hconfig⟩, rfl, rfl⟩
      exact .remove hk hroot hconfig
    · intro hacc
      cases hacc with
      | remove hk hroot hconfig => exact ⟨⟨_, hk, hroot, hconfig⟩, rfl, rfl⟩
  | setSectionType s type =>
    rw [edit, Edit.run_map, run_setSectionType, ← Edit.run_map]
    refine Edit.run_map_guarded_eq_ok_iff.trans ⟨?_, ?_⟩
    · rintro ⟨x, hc, rfl, rfl⟩
      obtain ⟨g, hs, hword, hm, rfl⟩ := (checkSetSectionType_eq_ok_iff hw).mp hc
      exact .setSectionType hs hword hm
    · intro hacc
      cases hacc with
      | setSectionType hs hword hm =>
        exact ⟨_, (checkSetSectionType_eq_ok_iff hw).mpr ⟨_, hs, hword, hm, rfl⟩, rfl, rfl⟩
  | setSectionName s name =>
    refine (Edit.run_map_guarded_of_check checkSetSectionName_eq_ok_iff).trans ⟨?_, ?_⟩
    · rintro ⟨⟨g, hs, hname, hun⟩, rfl, rfl⟩
      exact .setSectionName hs hname hun
    · intro hacc
      cases hacc with
      | setSectionName hs hname hun => exact ⟨⟨_, hs, hname, hun⟩, rfl, rfl⟩
  | setOptionName h name =>
    refine (Edit.run_map_guarded_of_check checkRename_eq_ok_iff).trans ⟨?_, ?_⟩
    · rintro ⟨⟨p, hh, hword, hun⟩, rfl, rfl⟩
      exact .setOptionName hh hword hun
    · intro hacc
      cases hacc with
      | setOptionName hh hword hun => exact ⟨⟨_, hh, hword, hun⟩, rfl, rfl⟩
  | setListName h name =>
    refine (Edit.run_map_guarded_of_check checkRename_eq_ok_iff).trans ⟨?_, ?_⟩
    · rintro ⟨⟨p, hh, hword, hun⟩, rfl, rfl⟩
      exact .setListName hh hword hun
    · intro hacc
      cases hacc with
      | setListName hh hword hun => exact ⟨⟨_, hh, hword, hun⟩, rfl, rfl⟩
  | setOptionValue h value =>
    refine Edit.run_map_guarded_eq_ok_iff.trans ⟨?_, ?_⟩
    · rintro ⟨n, hc, rfl, rfl⟩
      obtain ⟨hlive, hk⟩ := exists_liveOf_iff.mp ⟨n, hc⟩
      exact .setOptionValue hlive hk
    · intro hacc
      cases hacc with
      | setOptionValue hlive hk =>
        obtain ⟨n, hn⟩ := exists_liveOf_iff.mpr ⟨hlive, hk⟩
        exact ⟨n, hn, rfl, rfl⟩
  | setElementValue h value =>
    refine Edit.run_map_guarded_eq_ok_iff.trans ⟨?_, ?_⟩
    · rintro ⟨n, hc, rfl, rfl⟩
      obtain ⟨hlive, hk⟩ := exists_liveOf_iff.mp ⟨n, hc⟩
      exact .setElementValue hlive hk
    · intro hacc
      cases hacc with
      | setElementValue hlive hk =>
        obtain ⟨n, hn⟩ := exists_liveOf_iff.mpr ⟨hlive, hk⟩
        exact ⟨n, hn, rfl, rfl⟩

/-- **What is left after an operation**: the document as it was, or what the accepted
operation leads to. -/
theorem after_cases (hw : d.arena.WellFormed) (op : Operation) :
    op.after d = d ∨ ∃ r, d.Accepts op r (op.after d) := by
  cases hrun : (op.edit.run d).1 with
  | error e => exact Or.inl (after_of_error hrun)
  | ok r => exact Or.inr ⟨r, (run_eq_ok_iff hw).mp (Prod.ext hrun rfl)⟩

end Operation
end Uci
