import Uci.Proofs.File.Overwriting
import Uci.Proofs.Settings.Toml
import Uci.Proofs.Tool.Files

/-!
# Changing one of the settings

The file of the settings holds a directory and the name of a log filter.  A run that settles
another filter loads both, and then writes both.  Since the directory is expanded when it is
loaded, what is written is the expanded one: the entry of the directory stays as it was written
only if expansion leaves it alone.

## Main definitions

* `Settings.given?` — what a settings file gives a key.
* `Settings.directoryIn?` — the directory as it is written in a settings file.
* `Tool.FilterSettled` — what a run that settles a log filter leaves.

## Main results

* `Settings.run_save` — settings can be written over a file.
* `Tool.onStore_applySettings` — what was loaded is written with the new filter in it.
* `Tool.keepsDirectory_iff` — **when a new log filter keeps the directory**.
-/

namespace Uci
namespace Settings

variable {env : Environment} {s : Store} {st : Settings} {t : Text} {l : Location} {c : Contents}

/-- **What a settings file gives a key**: a string, or nothing. -/
def given? (key t : Text) : Option (Option Text) := do
  let table ← Toml.read? t
  textAt? table key

/-- **The directory as it is written in a settings file**, or the one to begin with if the file
names none. -/
def directoryIn? (t : Text) : Option Path := (given? directoryKey t).map (·.getD defaultDirectory)

/-- What is loaded from a file: the directory expanded, the filter as it is written. -/
theorem ofText?_eq_some_iff : ofText? env t = some st ↔ ∃ d filter, directoryIn? t = some d ∧
    given? filterKey t = some filter ∧ st = { directory := env.expand d, filter } := by
  unfold ofText? directoryIn? given?
  constructor
  · intro h
    obtain ⟨table, htable, h⟩ := Option.bind_eq_some_iff.mp h
    obtain ⟨directory, hdirectory, h⟩ := Option.bind_eq_some_iff.mp h
    obtain ⟨filter, hfilter, h⟩ := Option.bind_eq_some_iff.mp h
    rw [htable]
    refine ⟨_, filter, Option.map_eq_some_iff.mpr ⟨directory, hdirectory, rfl⟩, hfilter, ?_⟩
    exact (Option.some.inj h).symm
  · rintro ⟨d, filter, hd, hfilter, rfl⟩
    obtain ⟨directory, hdirectory, rfl⟩ := Option.map_eq_some_iff.mp hd
    obtain ⟨table, htable, hdirectory⟩ := Option.bind_eq_some_iff.mp hdirectory
    rw [htable] at hfilter ⊢
    refine Option.bind_eq_some_iff.mpr ⟨table, rfl, Option.bind_eq_some_iff.mpr
      ⟨directory, hdirectory, Option.bind_eq_some_iff.mpr ⟨filter, hfilter, rfl⟩⟩⟩

/-- Settings are read as they were written. -/
theorem given?_text (st : Settings) : given? directoryKey st.text = some (some st.directory) ∧
    given? filterKey st.text = some st.filter := by
  obtain ⟨table, hread, hdirectory, hfilter⟩ := read?_text st
  unfold given?
  rw [hread]
  exact ⟨hdirectory, hfilter⟩

/-- A tilde in front of a slash stands for the home directory, if there is one. -/
theorem expandHome_tilde (env : Environment) (t : Text) :
    env.expandHome ('~' :: '/' :: t) = env.home?.getD ['~'] ++ '/' :: t := by
  unfold Environment.expandHome
  cases env.home? with
  | none => rfl
  | some home => rfl

/-- The file is in a directory of its own, below another one. -/
theorem exists_path_eq (env : Environment) : ∃ above : Text, above ≠ [] ∧
    path env = above ++ '/' :: "uci2".toList ++ '/' :: "config.toml".toList := by
  have hhome : env.expandHome "~/.config/uci2".toList =
      env.home?.getD ['~'] ++ "/.config/uci2".toList :=
    expandHome_tilde env ".config/uci2".toList
  generalize env.home?.getD ['~'] = home at hhome
  refine ⟨home ++ "/.config".toList, by simp, ?_⟩
  have hslash : (home ++ "/.config/uci2".toList).getLast? = some '2' := by
    rw [List.getLast?_append]
    rfl
  have hempty : (home ++ "/.config/uci2".toList).isEmpty = false := by simp
  unfold path Path.join
  rw [hhome, hslash, hempty, if_neg (by decide), if_neg (by decide)]
  simp

/-- **Settings can be written over a file.** -/
theorem run_save (hfollow : s.follow (path env) = .ok l) (hfile : s.get? l = some (.file c))
    (st : Settings) : s.run (st.save (path env)) = (.ok (), s.put l (.file (.text st.text))) := by
  obtain ⟨above, habove, hpath⟩ := exists_path_eq env
  rw [hpath] at hfollow ⊢
  have hparent : Path.parent? (above ++ '/' :: "uci2".toList ++ '/' :: "config.toml".toList) =
      some (above ++ '/' :: "uci2".toList) :=
    Path.parent?_append (by decide) (by decide) (by decide) (by decide)
  have hdir : above ++ '/' :: "uci2".toList ≠ [] := by simp
  -- the directory is there, since the path of the file leads through it
  obtain ⟨k, hfollow', -, hstep⟩ :=
    Store.exists_follow_of_append hdir (by decide) (by decide) hfollow
  have hmake : s.run (ExceptT.mk (FileSystem.makeDirectories (m := StateM Store)
      (above ++ '/' :: "uci2".toList))) = (.ok (), s) :=
    Store.run_makeDirectories_of_follow habove (by decide) (by decide) hfollow'
      (Store.get?_of_step hstep)
  have hwrite : s.run (ExceptT.mk (FileSystem.writeText (m := StateM Store)
      (above ++ '/' :: "uci2".toList ++ '/' :: "config.toml".toList) st.text)) =
        (.ok (), s.put l (.file (.text st.text))) :=
    Store.changing_of_ok (·.writeText _ st.text)
      (Store.writeText_of_follow hdir (by decide) (by decide) hfollow hfile st.text)
  unfold save
  rw [hparent]
  exact (Store.run_bind_of_ok hmake).trans hwrite

end Settings

namespace Tool

open Settings (directoryIn? given? directoryKey filterKey)

variable {env : Environment} {arguments : List Text} {o : Options} {level t : Text}
  {s s' : Store} {st : Settings} {l : Location}

/-- A log filter is settled by an option behind the name of the subcommand. -/
theorem readArguments_settingFilter (hlevel : (Log.Filter.named? level).isSome = true) :
    readArguments ["settings".toList, "--log-level".toList, level] =
      .ok ({}, .settings none (some level)) := by
  have hvalue : isValue level = true := by
    cases level with
    | nil => rfl
    | cons c level =>
      unfold isValue
      rw [Bool.or_eq_true, decide_eq_true_eq]
      left
      rintro hc
      obtain rfl : c = '-' := Option.some.inj hc
      cases hlevel
  have hgive : Draft.give {} .newFilter level = .ok { settings := [(.newFilter, level)] } := by
    unfold Draft.give
    rw [if_neg (by simp)]
  have hfront : takeSide .front {} ["settings".toList, "--log-level".toList, level] =
      .ok ({}, ["settings".toList, "--log-level".toList, level]) := by
    rw [takeSide, if_neg (by decide), if_pos (by decide)]
    rfl
  have hoption : takeOption (Subcommand.level .settings) {} "--log-level".toList =
      .ok ({}, .value .newFilter) := rfl
  have hback : takeSide (Subcommand.level .settings) {} ["--log-level".toList, level] =
      .ok ({ settings := [(.newFilter, level)] }, []) := by
    rw [takeSide, if_neg (by decide), if_neg (by decide), hoption]
    dsimp only
    rw [if_pos hvalue, hgive]
    rfl
  have hname : Subcommand.names.lookup "settings".toList = some .settings := rfl
  refine bind_eq_ok_iff.mpr ⟨_, hfront, ?_⟩
  dsimp only
  rw [hname]
  refine bind_eq_ok_iff.mpr ⟨_, hback, ?_⟩
  rfl

/-- Settings that are loaded are those of the run. -/
theorem settingsOn_of_readText (hfile : s.readText (Settings.path env) = .ok t)
    (hload : Settings.ofText? env t = some st) : settingsOn env s = .ok st := by
  obtain ⟨e, hentry, -⟩ := bind_eq_ok_iff.mp hfile
  have hkind : s.run (ExceptT.lift (FileSystem.kind (m := StateM Store) (Settings.path env)) :
      ExceptT SettingsError (StateM Store) _) = (.ok (.ok e.kind), s) := by
    change ((Except.ok ((s.entry (Settings.path env)).map FileEntry.kind), s) : _ × _) = _
    rw [hentry]
    rfl
  have hread : s.run (ExceptT.lift (FileSystem.readText (m := StateM Store) (Settings.path env)) :
      ExceptT SettingsError (StateM Store) _) = (.ok (.ok t), s) := by
    change ((Except.ok (s.readText (Settings.path env)), s) : _ × _) = _
    rw [hfile]
  have hrun : s.run (Settings.load env (Settings.path env)) = (.ok (some st), s) := by
    refine (Store.run_bind_of_ok hkind).trans ((Store.run_bind_of_ok hread).trans ?_)
    dsimp only
    rw [hload]
    rfl
  unfold settingsOn
  rw [hrun]
  rfl

/-- **Settings are saved** over the file that they were loaded from. -/
theorem onStore_saveSettings (hfollow : s.follow (Settings.path env) = .ok l)
    (hfile : s.get? l = some (.file (.text t))) (st : Settings) (r : Report) :
    ∃ r', onStore (saveSettings env st) r s = ((.ok (), r'), s.put l (.file (.text st.text))) ∧
      r'.out = r.out := by
  unfold saveSettings
  rw [onStore_bind_of_ok (onStore_attempt ..), Settings.run_save hfollow hfile]
  exact ⟨_, onStore_tell .., rfl⟩

/-- **Settling a log filter** writes the settings that were loaded with that filter in them, and
prints them. -/
theorem onStore_applySettings (hlevel : (Log.Filter.named? level).isSome = true)
    (hfollow : s.follow (Settings.path env) = .ok l) (hfile : s.get? l = some (.file (.text t)))
    (st : Settings) (r : Report) :
    ∃ r', onStore (applySettings env st none (some level)) r s =
      ((.ok (), r'), s.put l (.file (.text { st with filter := some level }.text))) ∧
        r'.out = r.out ++ { st with filter := some level }.text := by
  have hchange : st.change none (some level) = (.ok true, { st with filter := some level }) := by
    unfold Settings.change
    dsimp only
    rw [if_pos hlevel]
    rfl
  obtain ⟨r', hsave, hout⟩ :=
    onStore_saveSettings hfollow hfile { st with filter := some level } r
  refine ⟨{ r' with out := r'.out ++ { st with filter := some level }.text }, ?_, by rw [hout]⟩
  unfold applySettings
  rw [hchange]
  have hchanged : onStore (orFail Settings.unknownFilter (.ok true)) r s = ((.ok true, r), s) := rfl
  rw [onStore_bind_of_ok hchanged]
  rw [if_pos rfl, onStore_bind_of_ok hsave, onStore_put]

/-- A run that settles a log filter leaves what was written, and prints that. -/
theorem invoke_of_filter (hread : readArguments arguments = .ok (o, .settings none (some level)))
    (hlevel : (Log.Filter.named? level).isSome = true) (hset : settingsOn env s = .ok st)
    (hfollow : s.follow (Settings.path env) = .ok l) (hfile : s.get? l = some (.file (.text t))) :
    (invoke env arguments s).1.Answered { st with filter := some level }.text ∧
      (invoke env arguments s).2 =
        s.put l (.file (.text { st with filter := some level }.text)) := by
  obtain ⟨f, r, hrun, hout⟩ := invoke_of_settled hread hset
  obtain ⟨r', happly, hout'⟩ := onStore_applySettings hlevel hfollow hfile st r
  rw [hrun, execute, onStore_bind_of_ok happly]
  refine ⟨⟨_, rfl, rfl, ?_⟩, rfl⟩
  show r'.out = _
  rw [hout', hout, List.nil_append]

/-- **A log filter was settled**: the file of the settings, and no other, has another text, which
was printed too.  In it the filter is the new one, and the directory is written expanded. -/
structure FilterSettled (env : Environment) (level : Text) (d : Path) (s : Store)
    (left : Result × Store) (t : Text) : Prop where
  answered : left.1.Answered t
  written : ∃ l, s.follow (Settings.path env) = .ok l ∧ left.2 = s.put l (.file (.text t))
  read : left.2.readText (Settings.path env) = .ok t
  filter : given? filterKey t = some (some level)
  directory : given? directoryKey t = some (some (env.expand d))

/-- **When a new log filter keeps the directory**: in a file of settings that is loaded, the
directory stays as it is written exactly if it stands for itself. -/
theorem keepsDirectory_iff
    (hread : readArguments arguments = .ok (o, .settings none (some level)))
    (hlevel : (Log.Filter.named? level).isSome = true)
    (hfile : s.readText (Settings.path env) = .ok t)
    (hload : (Settings.ofText? env t).isSome = true) :
    ∃ d t', directoryIn? t = some d ∧
      FilterSettled env level d s (invoke env arguments s) t' ∧
        (directoryIn? t' = directoryIn? t ↔ env.expand d = d) := by
  obtain ⟨st, hst⟩ := Option.isSome_iff_exists.mp hload
  obtain ⟨d, filter, hd, -, rfl⟩ := Settings.ofText?_eq_some_iff.mp hst
  obtain ⟨l, hfollow, hget⟩ := Store.readText_eq_ok_iff.mp hfile
  obtain ⟨hanswered, hleft⟩ :=
    invoke_of_filter hread hlevel (settingsOn_of_readText hfile hst) hfollow hget
  obtain ⟨hdirectory, hfilter⟩ :=
    Settings.given?_text { directory := env.expand d, filter := some level }
  refine ⟨d, _, hd, ⟨hanswered, ⟨l, hfollow, hleft⟩, ?_, hfilter, hdirectory⟩, ?_⟩
  · rw [hleft]
    exact Store.readText_put hfollow hget _
  · rw [directoryIn?, hdirectory, hd]
    exact Option.some_inj

/-- Settings in which the directory is written from the top. -/
theorem keepsDirectory_absolute :
    let env : Environment := { bindings := [("HOME".toList, "/root".toList)] }
    let file := ["root".toList, ".config".toList, "uci2".toList, "config.toml".toList]
    let t := "config_dir = '/srv'\n".toList
    let s : Store :=
      { entries := [(file.take 1, .directory), (file.take 2, .directory),
          (file.take 3, .directory), (file, .file (.text t))] }
    let left := invoke env ["settings".toList, "--log-level".toList, "Info".toList] s
    ∃ t', FilterSettled env "Info".toList "/srv".toList s left t' ∧
      directoryIn? t' = some "/srv".toList := by
  intro env file t s left
  have hlevel : (Log.Filter.named? "Info".toList).isSome = true := by decide +kernel
  have hexpand : env.expand "/srv".toList = "/srv".toList := env.expand_eq_self (by simp)
  have hdirectory : directoryIn? t = some "/srv".toList := by decide +kernel
  have hfile : s.readText (Settings.path env) = .ok t := by decide +kernel
  have hload : (Settings.ofText? env t).isSome = true := by decide +kernel
  obtain ⟨d, t', hd, hsettled, hkeeps⟩ :=
    keepsDirectory_iff (readArguments_settingFilter hlevel) hlevel hfile hload
  obtain rfl : "/srv".toList = d := Option.some.inj (hdirectory.symm.trans hd)
  exact ⟨t', hsettled, (hkeeps.mpr hexpand).trans hdirectory⟩

/-- The home directory is put in for a tilde, and then stays in the file: a run that settles
another filter does not keep the directory. -/
theorem not_keepsDirectory_tilde :
    let env : Environment := { bindings := [("HOME".toList, "/root".toList)] }
    let file := ["root".toList, ".config".toList, "uci2".toList, "config.toml".toList]
    let t := "config_dir = '~/x'\n".toList
    let s : Store :=
      { entries := [(file.take 1, .directory), (file.take 2, .directory),
          (file.take 3, .directory), (file, .file (.text t))] }
    let left := invoke env ["settings".toList, "--log-level".toList, "info".toList] s
    s.readText (Settings.path env) = .ok t ∧ (Settings.ofText? env t).isSome = true ∧
      directoryIn? t = some "~/x".toList ∧
        (left.2.readText (Settings.path env)).toOption.bind directoryIn? =
          some "/root/x".toList := by
  decide +kernel

end Tool
end Uci
