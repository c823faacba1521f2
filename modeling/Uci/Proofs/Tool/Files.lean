import Uci.Proofs.Command.Change
import Uci.Proofs.Document.RoundTrip
import Uci.Proofs.File.Store
import Uci.Tool.Run

/-!
# What a run leaves of the files

A run that changes a configuration loads it, makes the change on the document, and only then
writes.  Whatever goes wrong before that leaves every file as it is, and makes none.  A run that
lists or gets never writes.

## Main definitions

* `onStore`, `invoke` — steps of a run, and runs, on a store.
* `Begins` — the document that a change begins with.
* `Quiet` — steps that change nothing.
* `Saved` — a document was written into its file, and no other file changed.
* `AllOrNothing` — what a run that changes a configuration may leave.

## Main results

* `onStore_applyChange_of_made` — a change that is made is written, and then answered.
* `quiet_execute` — listing and getting change nothing.
* `saved_of_writeConfig` — what is written is loaded again.
* `keepsFiles` — **a run changes at most the file of its configuration**, and that one only as a
  whole.
-/

namespace Uci

open Document (onFile)

/-! ### Loading -/

namespace Store

variable {α : Type} {s : Store} {t : Text} {config dir : Path} {d : Document}

theorem run_onFile (s : Store) (step : ExceptT FileError (StateM Store) α) :
    s.run (onFile step) = ((s.run step).1.mapError Error.file, (s.run step).2) := rfl

/-- **Loading** reads, and then parses. -/
theorem run_load (s : Store) (config dir : Path) :
    s.run (Document.load config dir) =
      ((s.run (readConfig (configPath config dir))).1.mapError Error.file >>= fun text =>
        (Document.parse text).mapError Error.parse, s) := by
  have hread : (s.run (readConfig (configPath config dir))).2 = s :=
    (moves_readConfig (configPath config dir) s).symm
  have hfile := run_onFile s (readConfig (configPath config dir))
  rw [hread] at hfile
  rcases h : (s.run (readConfig (configPath config dir))).1.mapError Error.file with e | text
  · rw [h] at hfile
    exact run_bind_of_error hfile
  · rw [h] at hfile
    refine (run_bind_of_ok hfile).trans ?_
    change _ = ((Document.parse text).mapError Error.parse, s)
    rcases Document.parse text with e | d
    · rfl
    · rfl

/-- A document that was loaded was made by operations on what was issued. -/
theorem built_of_run_load (h : (s.run (Document.load config dir)).1 = .ok d) :
    d.Built Document.OnIssued := by
  rw [run_load] at h
  obtain ⟨text, -, hparse⟩ := bind_eq_ok_iff.mp h
  cases hd : Document.parse text with
  | ok d' =>
    rw [hd] at hparse
    cases hparse
    exact (Document.replayed_of_parse hd).mono fun _ _ hop => hop.1
  | error e =>
    rw [hd] at hparse
    cases hparse

/-- **Loading what a document was written as.** -/
theorem run_load_of_file {l : Location} (hfollow : s.follow (configPath config dir) = .ok l)
    (hfile : s.get? l = some (.file (.text t))) (hparse : Document.parse t = .ok d) :
    s.run (Document.load config dir) = (.ok d, s) := by
  rw [run_load, run_readConfig_of_file hfollow hfile]
  show ((Document.parse t).mapError Error.parse, s) = _
  rw [hparse]
  rfl

end Store

namespace Tool

variable {α β : Type} {s s' : Store} {r r' : Report}

/-- **A step of a run, on a store**: how it ends, what was told, and the store that it leaves. -/
def onStore (step : Run (StateM Store) α) (r : Report) (s : Store) :
    (Except (List String) α × Report) × Store :=
  StateT.run (StateT.run (ExceptT.run step) r) s

/-- A run that failed. -/
def Result.Failed (r : Result) : Prop := ∃ o, r = .over o ∧ o.code = 1

/-- A run that went well, and printed an answer. -/
def Result.Answered (r : Result) (answer : Text) : Prop :=
  ∃ o, r = .over o ∧ o.code = 0 ∧ o.out = answer

/-- What comes of a run, from how its steps ended. -/
def ended (f : Log.Filter)
    (x : (Except (List String) (Option Browser.App) × Report) × Store) : Result × Store :=
  (resultOf f x.1.1 x.1.2, x.2)

/-- **A run of the program, on a store.** -/
def invoke (env : Environment) (arguments : List Text) (s : Store) : Result × Store :=
  StateT.run (run env arguments : StateM Store Result) s

theorem onStore_bind_of_ok {x : Run (StateM Store) α} {f : α → Run (StateM Store) β} {a : α}
    (h : onStore x r s = ((.ok a, r'), s')) : onStore (x >>= f) r s = onStore (f a) r' s' := by
  change StateT.run (StateT.run (ExceptT.bindCont f (onStore x r s).1.1) (onStore x r s).1.2)
    (onStore x r s).2 = _
  rw [h]
  rfl

theorem onStore_bind_of_error {x : Run (StateM Store) α} {f : α → Run (StateM Store) β}
    {e : List String} (h : onStore x r s = ((.error e, r'), s')) :
    onStore (x >>= f) r s = ((.error e, r'), s') := by
  change StateT.run (StateT.run (ExceptT.bindCont f (onStore x r s).1.1) (onStore x r s).1.2)
    (onStore x r s).2 = _
  rw [h]
  rfl

theorem onStore_attempt {ε : Type} (step : ExceptT ε (StateM Store) α) (r : Report) (s : Store) :
    onStore (attempt step) r s = ((.ok (s.run step).1, r), (s.run step).2) := rfl

theorem onStore_tell (records : List Log.Record) (r : Report) (s : Store) :
    onStore (tell records) r s = ((.ok (), { r with records := r.records ++ records }), s) := rfl

theorem onStore_put (t : Text) (r : Report) (s : Store) :
    onStore (put t) r s = ((.ok (), { r with out := r.out ++ t }), s) := rfl

/-! ### Loading and saving in a run -/

/-- A run opens what is loaded, and prints nothing meanwhile. -/
theorem onStore_open? (config dir : Path) (r : Report) (s : Store) :
    ∃ r', onStore (open? config dir) r s =
      ((.ok (s.run (Document.load config dir)).1, r'), s) ∧ r'.out = r.out := by
  rw [Store.run_load]
  have hread : (s.run (readConfig (configPath config dir))).2 = s :=
    (Store.moves_readConfig (configPath config dir) s).symm
  unfold open?
  rw [onStore_bind_of_ok (onStore_tell _ r s), onStore_bind_of_ok (onStore_attempt ..), hread]
  rcases (s.run (readConfig (configPath config dir))).1 with e | text
  · exact ⟨_, rfl, rfl⟩
  · dsimp only
    rw [onStore_bind_of_ok (onStore_tell ..)]
    exact ⟨_, rfl, rfl⟩

/-- The document that a change begins with: the one in the file, or an empty one if there is no
such file. -/
inductive Begins (s : Store) (config dir : Path) : Document → Prop
  | loaded {d : Document} : (s.run (Document.load config dir)).1 = .ok d → Begins s config dir d
  | missing {e : Error} : (s.run (Document.load config dir)).1 = .error e →
    e.kind = .fileNotFound → Begins s config dir .empty

variable {config dir : Path} {d d' : Document} {c : Change} {e : Error}

theorem onStore_loadOrNew_of_begins (h : Begins s config dir d) (r : Report) :
    ∃ r', onStore (loadOrNew config dir) r s = ((.ok d, r'), s) ∧ r'.out = r.out := by
  obtain ⟨r', hopen, hout⟩ := onStore_open? config dir r s
  unfold loadOrNew
  rw [onStore_bind_of_ok hopen]
  cases h with
  | loaded hload =>
    rw [hload]
    exact ⟨r', rfl, hout⟩
  | missing hload hkind =>
    rw [hload]
    -- of all errors, only that of a missing file is of this kind
    rename_i e
    rcases e with cause | cause | (path | path | ⟨path, reason⟩)
    · cases cause <;> cases hkind
    · cases hkind
    · exact ⟨_, rfl, hout⟩
    · cases hkind
    · cases hkind

theorem onStore_loadOrNew_of_error (h : (s.run (Document.load config dir)).1 = .error e)
    (hkind : e.kind ≠ .fileNotFound) (r : Report) :
    ∃ r', onStore (loadOrNew config dir) r s = ((.error e.chain, r'), s) ∧ r'.out = r.out := by
  obtain ⟨r', hopen, hout⟩ := onStore_open? config dir r s
  unfold loadOrNew
  rw [onStore_bind_of_ok hopen, h]
  rcases e with cause | cause | (path | path | ⟨path, reason⟩)
  · exact ⟨r', rfl, hout⟩
  · exact ⟨r', rfl, hout⟩
  · exact absurd rfl hkind
  · exact ⟨r', rfl, hout⟩
  · exact ⟨r', rfl, hout⟩

/-! ### Changes -/

theorem onStore_applyChange_of_error (h : (s.run (Document.load config dir)).1 = .error e)
    (hkind : e.kind ≠ .fileNotFound) (c : Change) (r : Report) :
    ∃ r', onStore (applyChange config dir c) r s = ((.error e.chain, r'), s) := by
  obtain ⟨r', hload, -⟩ := onStore_loadOrNew_of_error h hkind r
  exact ⟨r', onStore_bind_of_error hload⟩

/-- **A change that is refused** is not written. -/
theorem onStore_applyChange_of_refused {cause : Refusal} (h : Begins s config dir d)
    (hrun : c.edit.run d = (.error cause, d')) (r : Report) :
    ∃ r', onStore (applyChange config dir c) r s = ((.error (refusalChain cause), r'), s) := by
  obtain ⟨r', hload, -⟩ := onStore_loadOrNew_of_begins h r
  unfold applyChange
  rw [onStore_bind_of_ok hload, onStore_bind_of_ok (onStore_tell ..), hrun]
  exact ⟨_, onStore_bind_of_error rfl⟩

/-- A document that can be written is saved, and nothing is printed meanwhile. -/
theorem onStore_save_of_ok
    (hwrite : s.run (writeConfig (configPath config dir) d.print) = (.ok (), s')) (r : Report) :
    ∃ r', onStore (save d config dir) r s = ((.ok (), r'), s') ∧ r'.out = r.out := by
  have hsave : s.run (d.save config dir) = (.ok (), s') := by
    refine (Store.run_onFile s _).trans ?_
    rw [hwrite]
    rfl
  unfold save
  rw [onStore_bind_of_ok (onStore_tell ..), onStore_bind_of_ok (onStore_attempt ..), hsave]
  exact ⟨_, rfl, rfl⟩

/-- **A change that is made** is written, and then answered. -/
theorem onStore_applyChange_of_made {answer : Text} (h : Begins s config dir d)
    (hrun : c.edit.run d = (.ok answer, d'))
    (hwrite : s.run (writeConfig (configPath config dir) d'.print) = (.ok (), s')) (r : Report) :
    ∃ r', onStore (applyChange config dir c) r s = ((.ok (), r'), s') ∧
      r'.out = r.out ++ answer := by
  obtain ⟨r₁, hload, hout₁⟩ := onStore_loadOrNew_of_begins h r
  obtain ⟨r₂, hsave, hout₂⟩ := onStore_save_of_ok hwrite
    { r₁ with records := r₁.records ++ d.tellChange c }
  refine ⟨{ r₂ with out := r₂.out ++ answer }, ?_, by rw [hout₂, hout₁]⟩
  unfold applyChange
  rw [onStore_bind_of_ok hload, onStore_bind_of_ok (onStore_tell ..), hrun]
  have hanswer : onStore (orFail refusalChain (.ok answer))
      { r₁ with records := r₁.records ++ d.tellChange c } s =
        ((.ok answer, { r₁ with records := r₁.records ++ d.tellChange c }), s) := rfl
  rw [onStore_bind_of_ok hanswer, onStore_bind_of_ok hsave, onStore_put]

/-! ### Steps that change nothing -/

/-- **A step that changes nothing** in a store. -/
def Quiet (step : Run (StateM Store) α) : Prop := ∀ r s, (onStore step r s).2 = s

theorem Quiet.bind {x : Run (StateM Store) α} {f : α → Run (StateM Store) β} (hx : Quiet x)
    (hf : ∀ a, Quiet (f a)) : Quiet (x >>= f) := by
  intro r s
  have hs := hx r s
  rcases h : onStore x r s with ⟨⟨e | a, r'⟩, s'⟩
  · rw [h] at hs
    rw [onStore_bind_of_error h]
    exact hs
  · rw [h] at hs
    rw [onStore_bind_of_ok h, hf a r' s']
    exact hs

theorem quiet_orFail {ε : Type} (chain : ε → List String) (x : Except ε α) :
    Quiet (orFail chain x : Run (StateM Store) α) := by
  intro r s
  cases x <;> rfl

theorem quiet_load (config dir : Path) : Quiet (load config dir : Run (StateM Store) Document) := by
  refine Quiet.bind (fun r s => ?_) fun x => quiet_orFail _ x
  obtain ⟨r', hopen, -⟩ := onStore_open? config dir r s
  rw [hopen]

/-- **Listing and getting change nothing.** -/
theorem quiet_execute {env : Environment} {st : Settings} {cmd : Command}
    (hcmd : (∃ config path, cmd = .list config path) ∨ ∃ config path, cmd = .get config path) :
    Quiet (execute env st dir cmd : Run (StateM Store) _) := by
  rcases hcmd with ⟨config, path, rfl⟩ | ⟨config, path, rfl⟩
  · refine (quiet_load config dir).bind fun d => ?_
    refine Quiet.bind (fun _ _ => rfl) fun _ => ?_
    refine (quiet_orFail _ _).bind fun t => ?_
    exact Quiet.bind (fun _ _ => rfl) fun _ _ _ => rfl
  · refine (quiet_load config dir).bind fun d => ?_
    refine Quiet.bind (fun _ _ => rfl) fun _ => ?_
    refine (quiet_orFail _ _).bind fun t => ?_
    exact Quiet.bind (fun _ _ => rfl) fun _ _ _ => rfl

/-! ### Runs -/

/-- Loading settings changes nothing. -/
theorem moves_loadSettings (env : Environment) (p : Path) : Store.Moves Eq
    (Settings.load env p : ExceptT SettingsError (StateM Store) (Option Settings)).run := by
  refine Store.Moves.bind_run (R := Eq) (fun s => rfl) fun k => ?_
  rcases k with r | k
  · exact fun s => rfl
  · refine Store.Moves.bind_run (R := Eq) (fun s => rfl) fun t => ?_
    rcases t with r | t
    · exact fun s => rfl
    · dsimp only
      split <;> exact fun s => rfl

/-- The settings of a run, or why they cannot be read. -/
def settingsOn (env : Environment) (s : Store) : Except SettingsError Settings :=
  (s.run (Settings.load env (Settings.path env))).1.map (·.getD {})

/-- How settings are loaded, in a run. -/
theorem onStore_loadSettings (env : Environment) (s : Store) (r : Report) :
    (∃ st, settingsOn env s = .ok st ∧ onStore (loadSettings env) r s = ((.ok st, r), s)) ∨
    ∃ e chain, onStore (loadSettings env) r s = ((.error chain, r), s) ∧
      settingsOn env s = .error e := by
  have hs : (s.run (Settings.load env (Settings.path env))).2 = s :=
    (moves_loadSettings env (Settings.path env) s).symm
  unfold loadSettings settingsOn
  rw [onStore_bind_of_ok (onStore_attempt ..), hs]
  rcases (s.run (Settings.load env (Settings.path env))).1 with e | found
  · exact Or.inr ⟨e, _, rfl, rfl⟩
  · exact Or.inl ⟨_, rfl, rfl⟩

variable {env : Environment} {arguments : List Text} {o : Options} {cmd : Command} {st : Settings}
  {answer : Text}

/-- A run without a command does nothing. -/
theorem invoke_of_stop {stop : Stop} (hread : readArguments arguments = .error stop) (s : Store) :
    (invoke env arguments s).2 = s := by
  unfold invoke run
  rw [hread]
  cases stop <;> rfl

/-- A run whose settings cannot be read. -/
theorem invoke_of_unsettled {e : SettingsError} (hread : readArguments arguments = .ok (o, cmd))
    (hset : settingsOn env s = .error e) :
    (invoke env arguments s).1.Failed ∧ (invoke env arguments s).2 = s := by
  rcases onStore_loadSettings env s {} with ⟨st, hload, -⟩ | ⟨e', chain, hrun, -⟩
  · rw [hload] at hset
    cases hset
  · unfold invoke run
    rw [hread]
    unfold onStore at hrun
    dsimp only
    rw [StateT.run_bind, hrun]
    exact ⟨⟨_, rfl, rfl⟩, rfl⟩

/-- **A run is its command**, once the settings are known. -/
theorem invoke_of_settled (hread : readArguments arguments = .ok (o, cmd))
    (hset : settingsOn env s = .ok st) :
    ∃ f r, invoke env arguments s =
      ended f (onStore (execute env st (st.resolve env o.directory) cmd) r s) ∧ r.out = [] := by
  rcases onStore_loadSettings env s {} with ⟨st', hload, hrun⟩ | ⟨e, chain, -, hload⟩
  · rw [hload] at hset
    cases hset
    have hsteps : invoke env arguments s =
        ended (logFilter st o.verbosity)
          (onStore (steps env st o cmd) {} s) := by
      unfold invoke run
      rw [hread]
      unfold onStore at hrun
      dsimp only
      rw [StateT.run_bind, hrun]
      rfl
    unfold steps at hsteps
    rw [onStore_bind_of_ok (onStore_tell ..)] at hsteps
    exact ⟨_, _, hsteps, rfl⟩
  · rw [hload] at hset
    cases hset

/-- A change that fails leaves nothing. -/
theorem invoke_of_failed (hread : readArguments arguments = .ok (o, .change config c))
    (hset : settingsOn env s = .ok st)
    (hfails : ∀ r, ∃ chain r',
      onStore (applyChange config (st.resolve env o.directory) c) r s = ((.error chain, r'), s)) :
    (invoke env arguments s).1.Failed ∧ (invoke env arguments s).2 = s := by
  obtain ⟨f, r, hrun, -⟩ := invoke_of_settled hread hset
  obtain ⟨chain, r', hchange⟩ := hfails r
  rw [hrun, execute, onStore_bind_of_error hchange]
  exact ⟨⟨_, rfl, rfl⟩, rfl⟩

/-- A change that is made leaves what was written, and prints its answer. -/
theorem invoke_of_made (hread : readArguments arguments = .ok (o, .change config c))
    (hset : settingsOn env s = .ok st)
    (hmade : ∀ r, ∃ r',
      onStore (applyChange config (st.resolve env o.directory) c) r s = ((.ok (), r'), s') ∧
        r'.out = r.out ++ answer) :
    (invoke env arguments s).1.Answered answer ∧ (invoke env arguments s).2 = s' := by
  obtain ⟨f, r, hrun, hout⟩ := invoke_of_settled hread hset
  obtain ⟨r', hchange, hout'⟩ := hmade r
  rw [hrun, execute, onStore_bind_of_ok hchange]
  refine ⟨⟨_, rfl, rfl, ?_⟩, rfl⟩
  show r'.out = answer
  rw [hout', hout, List.nil_append]

/-! ### All or nothing -/

/-- **A document was saved**: the file that the path of a configuration leads to is the only one
that changed, and it has the text of the document, which is loaded again and written alike. -/
structure Saved (d : Document) (config dir : Path) (s s' : Store) : Prop where
  /-- Where the path leads.  If it led somewhere before, it was there. -/
  written : ∃ l, s'.follow (configPath config dir) = .ok l ∧ s.WrittenAt s' l d.print ∧
    ∀ k, s.follow (configPath config dir) = .ok k → k = l
  loaded : ∃ d', s'.run (Document.load config dir) = (.ok d', s') ∧ d'.print = d.print

theorem Begins.built (h : Begins s config dir d) : d.Built Document.OnIssued := by
  cases h with
  | loaded hload => exact Store.built_of_run_load hload
  | missing => exact .empty

/-- What was written is loaded again. -/
theorem saved_of_writeConfig (hd : d.Built Document.OnIssued)
    (hwrite : s.run (writeConfig (configPath config dir) d.print) = (.ok (), s')) :
    Saved d config dir s s' := by
  obtain ⟨l, hfollow, hwritten, hsame⟩ := Store.writtenAt_of_writeConfig hwrite
  obtain ⟨d', hparse, hprint⟩ := hd.exists_parse_print
  exact ⟨⟨l, hfollow, hwritten, hsame⟩, d',
    Store.run_load_of_file hfollow hwritten.file hparse, hprint⟩

/-- **All or nothing**: what a run that changes a configuration leaves of a store. -/
structure AllOrNothing (config dir : Path) (c : Change) (s : Store) (left : Result × Store) :
    Prop where
  /-- A file that there is but that is not understood is left alone. -/
  unloaded : ∀ e, (s.run (Document.load config dir)).1 = .error e → e.kind ≠ .fileNotFound →
    left.1.Failed ∧ left.2 = s
  /-- Nothing is left of a change that is refused. -/
  refused : ∀ d e, Begins s config dir d → (c.edit.run d).1 = .error e →
    left.1.Failed ∧ left.2 = s
  /-- The document is saved with the change made, if its file can be written. -/
  made : ∀ d d' answer s', Begins s config dir d → c.edit.run d = (.ok answer, d') →
    s.run (writeConfig (configPath config dir) d'.print) = (.ok (), s') →
    left.1.Answered answer ∧ left.2 = s' ∧ Saved d' config dir s s'

/-- **What a run leaves of a store**, unless it is one of the settings or of the browser. -/
structure KeepsFiles (env : Environment) (s : Store) : Prop where
  /-- Without a command, nothing changes. -/
  stopped : ∀ arguments stop, readArguments arguments = .error stop →
    (invoke env arguments s).2 = s
  /-- Nor does anything with settings that cannot be read. -/
  unsettled : ∀ arguments o cmd e, readArguments arguments = .ok (o, cmd) →
    settingsOn env s = .error e → (invoke env arguments s).1.Failed ∧ (invoke env arguments s).2 = s
  listing : ∀ arguments o config path, readArguments arguments = .ok (o, .list config path) →
    (invoke env arguments s).2 = s
  getting : ∀ arguments o config path, readArguments arguments = .ok (o, .get config path) →
    (invoke env arguments s).2 = s
  changing : ∀ arguments o config c st,
    readArguments arguments = .ok (o, .change config c) → settingsOn env s = .ok st →
    AllOrNothing config (st.resolve env o.directory) c s (invoke env arguments s)

/-- Runs that list or get. -/
theorem invoke_of_quiet (hread : readArguments arguments = .ok (o, cmd))
    (hquiet : ∀ st dir, Quiet (execute env st dir cmd : Run (StateM Store) _)) (s : Store) :
    (invoke env arguments s).2 = s := by
  cases hset : settingsOn env s with
  | error e => exact (invoke_of_unsettled hread hset).2
  | ok st =>
    obtain ⟨f, r, hrun, -⟩ := invoke_of_settled hread hset
    rw [hrun]
    exact hquiet _ _ r s

/-- **A change is made as a whole or not at all.** -/
theorem allOrNothing_of_settled (hread : readArguments arguments = .ok (o, .change config c))
    (hset : settingsOn env s = .ok st) :
    AllOrNothing config (st.resolve env o.directory) c s (invoke env arguments s) where
  unloaded e hload hkind :=
    invoke_of_failed hread hset fun r => ⟨_, onStore_applyChange_of_error hload hkind c r⟩
  refused d e hd hrun :=
    invoke_of_failed hread hset fun r =>
      ⟨_, onStore_applyChange_of_refused hd (Prod.ext hrun rfl) r⟩
  made d d' answer s' hd hrun hwrite := by
    obtain ⟨hanswer, hleft⟩ := invoke_of_made hread hset fun r =>
      onStore_applyChange_of_made hd hrun hwrite r
    have hd' : d'.Built Document.OnIssued := by
      have h := hd.built.change c
      rwa [hrun] at h
    exact ⟨hanswer, hleft, saved_of_writeConfig hd' hwrite⟩

/-- **Files are kept**: of all files, a run changes at most the one of the configuration that it
is about, and that one only as a whole. -/
theorem keepsFiles (env : Environment) (s : Store) : KeepsFiles env s where
  stopped _ _ hread := invoke_of_stop hread s
  unsettled _ _ _ _ hread hset := invoke_of_unsettled hread hset
  listing _ _ config path hread :=
    invoke_of_quiet hread (fun _ _ => quiet_execute (Or.inl ⟨config, path, rfl⟩)) s
  getting _ _ config path hread :=
    invoke_of_quiet hread (fun _ _ => quiet_execute (Or.inr ⟨config, path, rfl⟩)) s
  changing _ _ _ _ _ hread hset := allOrNothing_of_settled hread hset

/-- A file that is missing, and the directory above it too.  A section is added, which makes them;
or one is to be deleted that there is not, which makes nothing. -/
theorem keepsFiles_missing :
    let s : Store := { entries := [(["etc".toList], .directory)] }
    let adding := ["add".toList, "network".toList, "interface".toList, "lan".toList]
    let deleting := ["delete".toList, "network".toList, "lan".toList]
    ((invoke {} adding s).1.Answered "lan\n".toList ∧
      (invoke {} adding s).2.get? ["etc".toList, "config".toList, "network".toList] =
        some (.file (.text "config interface 'lan'\n\n".toList))) ∧
      (invoke {} deleting s).1.Failed ∧ (invoke {} deleting s).2 = s := by
  intro s adding deleting
  have hadding : readArguments adding =
      .ok ({}, .change "network".toList (.add "interface".toList (some "lan".toList))) := by
    decide +kernel
  have hdeleting : readArguments deleting =
      .ok ({}, .change "network".toList (.delete "lan".toList)) := by
    decide +kernel
  have hbegins : Begins s "network".toList defaultDirectory .empty :=
    .missing (e := .file (.notFound "/etc/config/network".toList)) rfl rfl
  obtain ⟨hanswer, hleft, -⟩ := ((keepsFiles {} s).changing adding _ _ _ {} hadding rfl).made
    .empty _ "lan\n".toList _ hbegins rfl rfl
  refine ⟨⟨hanswer, ?_⟩, ?_⟩
  · rw [hleft]
    decide +kernel
  · exact ((keepsFiles {} s).changing deleting _ _ _ {} hdeleting rfl).refused
      .empty _ hbegins rfl

end Tool
end Uci
