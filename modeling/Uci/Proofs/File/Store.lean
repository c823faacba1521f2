import Mathlib.Order.Defs.Unbundled
import Uci.File.Configuration
import Uci.File.Store
import Uci.Proofs.Document.Check

/-!
# Files of a store

What the steps on configuration files do to a store.  Reading leaves it as it is.  Writing makes
directories where nothing was, and then replaces what is at one location; the path leads to that
location afterwards, and to no other than it did before.

## Main definitions

* `Store.run` — a step on files, on a store.
* `Store.Moves` — a step takes every store to one it is related to.
* `Store.Grown` — all that is new are directories.
* `Store.WrittenAt` — one file has another text, and no other file changed.

## Main results

* `follow_mono` — a path leads to where it led as long as no directory goes.
* `moves_makeDirectories` — making directories adds directories.
* `writtenAt_of_writeConfig` — **what writing a configuration changes**.
* `run_readConfig_of_file` — what was written is read.
-/

namespace Uci
namespace Store

variable {ε α β : Type} {R : Store → Store → Prop} {s s' : Store} {p : Path} {t : Text}
  {k l : Location}

/-! ### Steps on a store -/

/-- **A step on files, on a store**: how it ends, and the store that it leaves. -/
def run (s : Store) (step : ExceptT ε (StateM Store) α) : Except ε α × Store :=
  StateT.run (ExceptT.run step) s

theorem run_bind_of_ok {x : ExceptT ε (StateM Store) α} {f : α → ExceptT ε (StateM Store) β} {a : α}
    (h : s.run x = (.ok a, s')) : s.run (x >>= f) = s'.run (f a) := by
  change (ExceptT.bindCont f (s.run x).1) (s.run x).2 = _
  rw [h]
  rfl

theorem run_bind_of_error {x : ExceptT ε (StateM Store) α} {f : α → ExceptT ε (StateM Store) β}
    {e : ε} (h : s.run x = (.error e, s')) : s.run (x >>= f) = (.error e, s') := by
  change (ExceptT.bindCont f (s.run x).1) (s.run x).2 = _
  rw [h]
  rfl

/-- A step ends well if both of its parts do. -/
theorem run_bind_eq_ok_iff {x : ExceptT ε (StateM Store) α} {f : α → ExceptT ε (StateM Store) β}
    {b : β} : s.run (x >>= f) = (.ok b, s') ↔
      ∃ a s₁, s.run x = (.ok a, s₁) ∧ s₁.run (f a) = (.ok b, s') := by
  cases h : s.run x with
  | mk r s₁ =>
    cases r with
    | ok a =>
      rw [run_bind_of_ok h]
      constructor
      · exact fun hf => ⟨a, s₁, rfl, hf⟩
      · rintro ⟨a', s', heq, hf⟩
        cases heq
        exact hf
    | error e =>
      rw [run_bind_of_error h]
      constructor
      · intro heq
        cases heq
      · rintro ⟨a', s', heq, -⟩
        cases heq

/-- A step that goes on with the answer of the file system. -/
theorem run_mk_bind (s : Store) (x : StateM Store α) (f : α → StateM Store (Except ε β)) :
    s.run (ExceptT.mk (x >>= f)) = StateT.run (f (x.run s).1) (x.run s).2 := rfl

theorem run_atPath_eq_ok_iff {step : StateM Store (Except FileReason α)} {a : α} :
    s.run (atPath p step) = (.ok a, s') ↔ step.run s = (.ok a, s') := by
  rw [atPath, run_mk_bind]
  rcases step.run s with ⟨r | a', s₁⟩
  · refine iff_of_false (fun h => ?_) fun h => ?_
    · cases congrArg Prod.fst h
    · cases congrArg Prod.fst h
  · refine ⟨fun h => ?_, fun h => ?_⟩
    · cases show ((.ok a' : Except FileError α), s₁) = (.ok a, s') from h
      rfl
    · cases h
      rfl

theorem run_atKnownPath_of_ok {step : StateM Store (Except FileReason α)} {a : α}
    (h : step.run s = (.ok a, s')) : s.run (atKnownPath p step) = (.ok a, s') := by
  rw [atKnownPath, run_mk_bind, h]
  rfl

/-- A step that takes every store to one it is related to. -/
def Moves (R : Store → Store → Prop) (step : StateM Store α) : Prop := ∀ s, R s (step.run s).2

section Moves

variable [Std.Refl R] [IsTrans Store R]

omit [IsTrans Store R] in
theorem Moves.pure (a : α) : Moves R (pure a : StateM Store α) := fun s => refl s

omit [Std.Refl R] in
theorem Moves.bind {x : StateM Store α} {f : α → StateM Store β} (hx : Moves R x)
    (hf : ∀ a, Moves R (f a)) : Moves R (x >>= f) :=
  fun s => IsTrans.trans _ _ _ (hx s) (hf (x.run s).1 (x.run s).2)

theorem Moves.bind_run {x : ExceptT ε (StateM Store) α} {f : α → ExceptT ε (StateM Store) β}
    (hx : Moves R x.run) (hf : ∀ a, Moves R (f a).run) : Moves R (x >>= f).run := by
  change Moves R (x.run >>= ExceptT.bindCont f)
  refine hx.bind fun r => ?_
  cases r with
  | ok a => exact hf a
  | error e => exact Moves.pure _

theorem Moves.atPath {step : StateM Store (Except FileReason α)} (h : Moves R step) :
    Moves R (atPath p step).run := by
  refine h.bind fun r => ?_
  cases r with
  | ok a => exact Moves.pure _
  | error e => exact Moves.pure _

theorem Moves.atKnownPath {step : StateM Store (Except FileReason α)} (h : Moves R step) :
    Moves R (atKnownPath p step).run := by
  refine h.bind fun r => ?_
  rcases r with e | a
  · cases e <;> exact Moves.pure _
  · exact Moves.pure _

end Moves

/-- **Reading a configuration changes nothing.** -/
theorem moves_readConfig (p : Path) :
    Moves Eq (readConfig p : ExceptT FileError (StateM Store) Text).run := by
  refine (Moves.atKnownPath (R := Eq) fun s => rfl).bind_run fun k => ?_
  cases k with
  | directory => exact fun s => rfl
  | file => exact Moves.atPath (R := Eq) fun s => rfl

/-! ### Following a path -/

/-- A step from a directory leads to where it led as long as the directory stays. -/
theorem step_mono (hdir : ∀ k, s.get? k = some .directory → s'.get? k = some .directory)
    {piece : Text} (h : s.step l piece = .ok k) : s'.step l piece = .ok k := by
  unfold step at h ⊢
  cases hl : s.get? l with
  | none =>
    rw [hl] at h
    cases h
  | some e =>
    rw [hl] at h
    cases e with
    | file c => cases h
    | directory =>
      rw [hdir l hl]
      exact h

theorem foldlM_step_mono (hdir : ∀ k, s.get? k = some .directory → s'.get? k = some .directory)
    {pieces : List Text} (h : pieces.foldlM s.step l = .ok k) :
    pieces.foldlM s'.step l = .ok k := by
  induction pieces generalizing l with
  | nil => exact h
  | cons piece pieces ih =>
    rw [List.foldlM_cons] at h ⊢
    obtain ⟨l', hstep, hrest⟩ := bind_eq_ok_iff.mp h
    exact bind_eq_ok_iff.mpr ⟨l', step_mono hdir hstep, ih hrest⟩

/-- **A path leads to where it led** as long as no directory goes. -/
theorem follow_mono (hhere : s'.here = s.here)
    (hdir : ∀ k, s.get? k = some .directory → s'.get? k = some .directory)
    (h : s.follow p = .ok l) : s'.follow p = .ok l := by
  obtain ⟨⟨l₀, pieces⟩, hstart, hrest⟩ := bind_eq_ok_iff.mp h
  refine bind_eq_ok_iff.mpr ⟨(l₀, pieces), ?_, foldlM_step_mono hdir hrest⟩
  rw [← hstart, start, start, hhere]

/-- A name leads to an entry of a directory. -/
theorem step_of_isName {dir : Location} {piece : Text} (hname : isName piece = true)
    (h : s.step dir piece = .ok l) : l = dir ++ [piece] := by
  simp only [isName, Bool.and_eq_true, Bool.not_eq_true', decide_eq_true_eq] at hname
  unfold step at h
  split at h
  · cases h
  · cases h
  · rw [hname.1, if_neg Bool.false_ne_true, if_neg hname.2] at h
    split at h
    · cases h
    · exact (Except.ok.inj h).symm

/-- An empty piece leads nowhere. -/
theorem step_nil {dir : Location} (h : s.step dir [] = .ok l) : l = dir := by
  unfold step at h
  split at h
  · cases h
  · cases h
  · exact (Except.ok.inj h).symm

theorem start_ne_nil {pieces : List Text} (h : s.start p = .ok (l, pieces)) : pieces ≠ [] := by
  unfold start at h
  split at h
  · cases h
  · split at h
    · cases h
    · split at h
      · cases h
      · cases h
        exact Path.pieces_ne_nil p

/-- A path without a slash at its end leads to what its last piece names. -/
theorem follow_of_followToLast {dir : Location} {piece : Text}
    (h : s.followToLast p = .ok (dir, piece, false)) (hstep : s.step dir piece = .ok l) :
    s.follow p = .ok l := by
  obtain ⟨⟨l₀, pieces⟩, hstart, hrest⟩ := bind_eq_ok_iff.mp h
  refine bind_eq_ok_iff.mpr ⟨(l₀, pieces), hstart, ?_⟩
  dsimp only at hrest ⊢
  generalize hkept : (pieces.reverse.dropWhile List.isEmpty).reverse = kept at hrest
  obtain ⟨dir₀, hfold, hdir⟩ := bind_eq_ok_iff.mp hrest
  obtain ⟨dir₁, hsame, hlast⟩ := bind_eq_ok_iff.mp hdir
  obtain ⟨rfl, hpair⟩ := Prod.mk.inj (Except.ok.inj hlast)
  obtain ⟨rfl, hslash⟩ := Prod.mk.inj hpair
  obtain rfl := step_nil hsame
  -- nothing was dropped, so that the pieces are those in front of the last one, and that one
  have hall : kept = pieces := by
    have hsuffix := List.dropWhile_suffix (l := pieces.reverse) List.isEmpty
    have hlength := Nat.not_lt.mp (of_decide_eq_false hslash)
    rw [← hkept, List.length_reverse, ← @List.length_reverse _ pieces] at hlength
    rw [← hkept, hsuffix.eq_of_length_le hlength, List.reverse_reverse]
  subst hall
  have hne := start_ne_nil hstart
  rw [List.getLast?_eq_some_getLast hne, Option.getD_some] at hstep
  rw [← List.dropLast_concat_getLast hne, List.foldlM_append]
  refine bind_eq_ok_iff.mpr ⟨_, hfold, ?_⟩
  rw [List.foldlM_cons, hstep]
  rfl

/-! ### What is written -/

/-- **A store that has grown**: what was there still is, and what is new are directories. -/
structure Grown (s s' : Store) : Prop where
  here : s'.here = s.here
  get? : ∀ k, s'.get? k = s.get? k ∨ s.get? k = none ∧ s'.get? k = some .directory

instance : Std.Refl Grown := ⟨fun _ => ⟨rfl, fun _ => Or.inl rfl⟩⟩

instance : IsTrans Store Grown where
  trans s₁ s₂ s₃ h h' := by
    refine ⟨h'.here.trans h.here, fun k => ?_⟩
    rcases h.get? k with hsame | ⟨hnone, hdir⟩
    · rw [← hsame]
      exact h'.get? k
    · rcases h'.get? k with hsame' | ⟨hnone', -⟩
      · exact Or.inr ⟨hnone, hsame'.trans hdir⟩
      · cases hnone'.symm.trans hdir

/-- A directory stays one. -/
theorem Grown.directory (h : s.Grown s') (hk : s.get? k = some .directory) :
    s'.get? k = some .directory := by
  rcases h.get? k with hsame | ⟨-, hdir⟩
  · rw [hsame, hk]
  · exact hdir

/-- **A directory that is made** was nothing before. -/
theorem grown_of_makeDirectory (h : s.makeDirectory p = .ok s') : s.Grown s' := by
  obtain ⟨⟨dir, piece, slash⟩, -, hrest⟩ := bind_eq_ok_iff.mp h
  dsimp only at hrest
  split at hrest
  · cases hrest
  · next hname =>
    rw [Bool.not_eq_true, Bool.not_eq_false'] at hname
    obtain ⟨l, hstep, hput⟩ := bind_eq_ok_iff.mp hrest
    have hl : l ≠ [] := by
      rw [step_of_isName hname hstep]
      simp
    split at hput
    · cases hput
    · next hnone =>
      cases hput
      refine ⟨rfl, fun k => ?_⟩
      rw [get?_put s hl]
      by_cases hk : k = l
      · rw [if_pos hk, hk]
        exact Or.inr ⟨hnone, rfl⟩
      · rw [if_neg hk]
        exact Or.inl rfl

theorem moves_makeDirectory (p : Path) :
    Moves Grown (FileSystem.makeDirectory p : StateM Store (Except FileReason Unit)) := by
  intro s
  change Grown s (changing (·.makeDirectory p) s).2
  unfold changing
  split
  · next h => exact grown_of_makeDirectory h
  · exact refl s

theorem moves_isDirectory (p : Path) :
    Moves Grown (FileSystem.isDirectory p : StateM Store Bool) := by
  refine Moves.bind (fun s => refl s) fun r => ?_
  split
  · exact Moves.pure _
  · exact Moves.pure _

/-- What is not made may be there already. -/
private theorem moves_unlessDirectory (p : Path) (r : FileReason) :
    Moves Grown (do return if ← FileSystem.isDirectory p then .ok () else .error r :
      StateM Store (Except FileReason Unit)) :=
  (moves_isDirectory p).bind fun _ => Moves.pure _

theorem moves_ensureDirectory (p : Path) :
    Moves Grown (FileSystem.ensureDirectory p : StateM Store (Except FileReason Unit)) := by
  refine (moves_makeDirectory p).bind fun r => ?_
  rcases r with r | u
  · exact moves_unlessDirectory p r
  · exact Moves.pure _

theorem moves_makeDirectoriesWithin (steps : Nat) (p : Path) :
    Moves Grown
      (FileSystem.makeDirectoriesWithin steps p : StateM Store (Except FileReason Unit)) := by
  induction steps generalizing p with
  | zero => exact Moves.pure _
  | succ steps ih =>
    unfold FileSystem.makeDirectoriesWithin
    split
    · exact Moves.pure _
    · refine (moves_makeDirectory p).bind fun r => ?_
      split
      · exact Moves.pure _
      · -- the directory above is missing, and is made first
        split
        · exact Moves.pure _
        · next above _ =>
          refine (ih above).bind fun r => ?_
          split
          · exact moves_ensureDirectory p
          · exact Moves.pure _
      · exact moves_unlessDirectory p _

/-- **Making directories** adds directories, and nothing else. -/
theorem moves_makeDirectories (p : Path) :
    Moves Grown (FileSystem.makeDirectories p : StateM Store (Except FileReason Unit)) :=
  moves_makeDirectoriesWithin _ p

/-- **A file that was written**: at the location it has the text, and apart from that all that is
new are directories. -/
structure WrittenAt (s s' : Store) (l : Location) (t : Text) : Prop where
  file : s'.get? l = some (.file (.text t))
  /-- What was there was a file, if anything. -/
  before : s.get? l ≠ some .directory
  others : ∀ k, k ≠ l → s'.get? k = s.get? k ∨ s.get? k = none ∧ s'.get? k = some .directory

/-- What writing a text comes to. -/
theorem writtenAt_of_writeText (h : s.writeText p t = .ok s') :
    ∃ l, s.follow p = .ok l ∧ s'.follow p = .ok l ∧ s'.here = s.here ∧ s.WrittenAt s' l t := by
  obtain ⟨⟨dir, piece, slash⟩, hlast, hrest⟩ := bind_eq_ok_iff.mp h
  dsimp only at hrest
  split at hrest
  · cases hrest
  · next hname =>
    simp only [Bool.or_eq_true, Bool.not_eq_true', not_or, Bool.not_eq_true, Bool.not_eq_false]
      at hname
    obtain ⟨hname, rfl⟩ := hname
    obtain ⟨l, hstep, hput⟩ := bind_eq_ok_iff.mp hrest
    have hl : l ≠ [] := by
      rw [step_of_isName hname hstep]
      simp
    have hfollow := follow_of_followToLast hlast hstep
    split at hput
    · cases hput
    · next hbefore =>
      cases hput
      have hget := get?_put s hl (.file (.text t))
      have hhere : (s.put l (.file (.text t))).here = s.here := rfl
      have hne : s.get? l ≠ some .directory := hbefore
      refine ⟨l, hfollow, follow_mono hhere (fun k hk => ?_) hfollow, hhere, ?_, hne,
        fun k hk => ?_⟩
      · -- no directory was in the place of the file
        have hkl : k ≠ l := fun h => hne (h ▸ hk)
        rw [hget, if_neg hkl, hk]
      · rw [hget, if_pos rfl]
      · rw [hget, if_neg hk]
        exact Or.inl rfl

/-- Writing a text behind making directories. -/
private theorem WrittenAt.of_grown {s₁ : Store} (hgrown : s.Grown s₁) (h : s₁.WrittenAt s' l t) :
    s.WrittenAt s' l t where
  file := h.file
  before hdir := h.before (hgrown.directory hdir)
  others k hk := by
    rcases h.others k hk with hsame | ⟨hnone, hdir⟩
    · rw [hsame]
      exact hgrown.get? k
    · rcases hgrown.get? k with hsame | ⟨hnone', -⟩
      · exact Or.inr ⟨hsame ▸ hnone, hdir⟩
      · exact Or.inr ⟨hnone', hdir⟩

/-- **What writing a configuration changes**: directories may be made above it, and then the file
that the path leads to is replaced.  If the path led somewhere before, it was to the same place. -/
theorem writtenAt_of_writeConfig (h : s.run (writeConfig p t) = (.ok (), s')) :
    ∃ l, s'.follow p = .ok l ∧ s.WrittenAt s' l t ∧ ∀ k, s.follow p = .ok k → k = l := by
  -- the store between the two steps
  obtain ⟨s₁, hgrown, hwrite⟩ : ∃ s₁, s.Grown s₁ ∧
      s₁.run (atPath p (FileSystem.writeText p t)) = (.ok (), s') := by
    unfold writeConfig at h
    cases hparent : p.parent? with
    | none =>
      rw [hparent] at h
      exact ⟨s, refl s, h⟩
    | some dir =>
      rw [hparent] at h
      obtain ⟨u, s₁, hmade, hwrite⟩ := run_bind_eq_ok_iff.mp h
      refine ⟨s₁, ?_, hwrite⟩
      have hmoves := moves_makeDirectories dir s
      rwa [run_atPath_eq_ok_iff.mp hmade] at hmoves
  have hchange : s₁.writeText p t = .ok s' := by
    have hrun := run_atPath_eq_ok_iff.mp hwrite
    change changing (·.writeText p t) s₁ = (.ok (), s') at hrun
    unfold changing at hrun
    split at hrun
    · next s₂ hok =>
      cases hrun
      exact hok
    · cases hrun
  obtain ⟨l, hfollow₁, hfollow, -, hwritten⟩ := writtenAt_of_writeText hchange
  refine ⟨l, hfollow, hwritten.of_grown hgrown, fun k hk => ?_⟩
  have hk₁ := follow_mono hgrown.here (fun _ hdir => hgrown.directory hdir) hk
  exact Except.ok.inj (hk₁.symm.trans hfollow₁)

/-- **What was written is read.** -/
theorem run_readConfig_of_file (hfollow : s.follow p = .ok l)
    (hfile : s.get? l = some (.file (.text t))) : s.run (readConfig p) = (.ok t, s) := by
  have hentry : s.entry p = .ok (.file (.text t)) := by
    refine bind_eq_ok_iff.mpr ⟨l, hfollow, ?_⟩
    rw [hfile]
  have hkind : StateT.run (FileSystem.kind p : StateM Store _) s = (.ok .file, s) := by
    change ((s.entry p).map FileEntry.kind, s) = _
    rw [hentry]
    rfl
  have htext : StateT.run (FileSystem.readText p : StateM Store _) s = (.ok t, s) := by
    change (s.readText p, s) = _
    rw [show s.readText p = .ok t from bind_eq_ok_iff.mpr ⟨_, hentry, rfl⟩]
  refine (run_bind_of_ok (run_atKnownPath_of_ok hkind)).trans ?_
  exact run_atPath_eq_ok_iff.mpr htext

end Store
end Uci
