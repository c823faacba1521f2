import Uci.Proofs.File.Store

/-!
# Writing over a file

A file that a path leads to can be written again.  The directory above it is there, since the path
leads through it, so that none has to be made, and the only change is that of the file.

## Main results

* `Path.parent?_append` — the directory above a file, as text.
* `Store.exists_follow_of_append` — a path to a file leads through the directory above it.
* `Store.run_makeDirectories_of_follow` — a directory that is there is not made.
* `Store.writeText_of_follow` — **a file that is there is written**, and nothing else is.
-/

namespace Uci
namespace Path

variable {above last name t : Text}

theorem pieces_append_slash (s t : Text) : pieces (s ++ '/' :: t) = pieces s ++ pieces t := by
  induction s with
  | nil => rfl
  | cons c s ih =>
    rw [List.cons_append, pieces, pieces, ih]
    split
    · rfl
    · cases h : pieces s with
      | nil => exact absurd h (pieces_ne_nil s)
      | cons p ps => rfl

theorem pieces_of_notMem (h : '/' ∉ t) : pieces t = [t] := by
  induction t with
  | nil => rfl
  | cons c t ih =>
    obtain ⟨hc, ht⟩ := not_or.mp (List.mem_cons.not.mp h)
    rw [pieces, if_neg (Ne.symm hc), ih ht]

theorem trimEnd_concat (ps : List Text) (h : isIdle name = false) :
    trimEnd (ps ++ [name]) = ps ++ [name] := by
  unfold trimEnd
  rw [List.reverse_append, List.reverse_singleton, List.singleton_append,
    List.dropWhile_cons_of_neg (by rw [h]; nofun), List.reverse_cons, List.reverse_reverse]

/-- What a path opens with is told in front of any slash behind it. -/
private theorem opening_append (above : Text) :
    (∀ t, opening (above ++ '/' :: t) = (['/'], t) ∧ above = []) ∨
      ∃ o rest, o ++ rest = above ∧ ∀ t, opening (above ++ '/' :: t) = (o, rest ++ '/' :: t) := by
  cases above with
  | nil => exact Or.inl fun t => ⟨rfl, rfl⟩
  | cons c above =>
    refine Or.inr ?_
    by_cases hslash : c = '/'
    · rw [hslash]
      exact ⟨['/'], above, rfl, fun t => rfl⟩
    by_cases hdot : c = '.' ∧ above.head?.getD '/' = '/'
    · -- a lone dot, which a slash follows
      obtain ⟨rfl, habove⟩ := hdot
      refine ⟨['.'], above, rfl, fun t => ?_⟩
      cases above with
      | nil => rfl
      | cons d above =>
        obtain rfl : d = '/' := habove
        rfl
    · refine ⟨[], c :: above, rfl, fun t => ?_⟩
      unfold opening
      split
      · next heq => exact absurd (List.cons.inj heq).1 hslash
      · next heq =>
        obtain ⟨hc, hrest⟩ := List.cons.inj heq
        refine absurd ⟨hc, ?_⟩ hdot
        cases above with
        | nil => rfl
        | cons d above => exact (List.cons.inj hrest).1
      · next heq => simp at heq
      · rfl

/-- **The directory above a file**, where its own last piece and the name are names. -/
theorem parent?_append (hlast : isIdle last = false) (hlast' : '/' ∉ last)
    (hname : isIdle name = false) (hname' : '/' ∉ name) :
    parent? (above ++ '/' :: last ++ '/' :: name) = some (above ++ '/' :: last) := by
  -- behind the opening stand some pieces, the last one of the directory and the name
  have key : ∀ o r ps, opening (above ++ '/' :: last ++ '/' :: name) = (o, r ++ '/' :: name) →
      o ++ r = above ++ '/' :: last → pieces r = ps ++ [last] →
      parent? (above ++ '/' :: last ++ '/' :: name) = some (above ++ '/' :: last) := by
    intro o r ps hopen hdir hpieces
    have hbody : body (above ++ '/' :: last ++ '/' :: name) = pieces r ++ [name] := by
      unfold body
      rw [hopen, pieces_append_slash, pieces_of_notMem hname', trimEnd_concat _ hname]
    unfold parent?
    rw [hbody, hopen, if_neg (by simp), List.dropLast_concat, hpieces, trimEnd_concat _ hlast,
      ← hpieces, ofPieces_pieces, hdir]
  rw [List.append_assoc, List.cons_append] at key ⊢
  rcases opening_append above with hroot | ⟨o, rest, habove, hopen⟩
  · obtain ⟨hopen, rfl⟩ := hroot (last ++ '/' :: name)
    exact key ['/'] last [] hopen rfl (pieces_of_notMem hlast')
  · refine key o (rest ++ '/' :: last) (pieces rest) ?_ ?_ ?_
    · rw [hopen, List.append_assoc, List.cons_append]
    · rw [← habove, List.append_assoc]
    · rw [pieces_append_slash, pieces_of_notMem hlast']

end Path

namespace Store

variable {s : Store} {p dir : Path} {name t : Text} {l : Location}

/-- A step leads on from a directory only. -/
theorem get?_of_step {k : Location} {piece : Text} (h : s.step k piece = .ok l) :
    s.get? k = some .directory := by
  unfold step at h
  split at h
  · cases h
  · cases h
  · next hdir => exact hdir

/-- A path below a directory begins where the path of the directory does. -/
private theorem start_append {l₀ : Location} {pieces : List Text} (hdir : dir ≠ [])
    (hname : '/' ∉ name) (h : s.start (dir ++ '/' :: name) = .ok (l₀, pieces)) :
    pieces = Path.pieces dir ++ [name] ∧ s.start dir = .ok (l₀, Path.pieces dir) := by
  obtain ⟨c, dir, rfl⟩ := List.exists_cons_of_ne_nil hdir
  unfold start at h ⊢
  split at h
  · cases h
  next hnul =>
  split at h
  · cases h
  split at h
  · cases h
  next hlong =>
  cases h
  -- what the whole path has not, its beginning has not
  have hnul' : ¬List.contains (c :: dir) '\x00' = true := fun hmem =>
    hnul (List.contains_iff_mem.mpr (List.mem_append_left _ (List.contains_iff_mem.mp hmem)))
  have hlong' : ¬maxPathSize < Text.size (c :: dir) := by
    rw [Text.size_append] at hlong
    omega
  rw [Path.pieces_append_slash, Path.pieces_of_notMem hname, if_neg hnul', if_neg (by simp),
    if_neg hlong']
  exact ⟨rfl, rfl⟩

/-- **A path to a file leads through the directory above it.** -/
theorem exists_follow_of_append (hdir : dir ≠ []) (hname : '/' ∉ name) (hne : name ≠ [])
    (h : s.follow (dir ++ '/' :: name) = .ok l) :
    ∃ k, s.follow dir = .ok k ∧ s.followToLast (dir ++ '/' :: name) = .ok (k, name, false) ∧
      s.step k name = .ok l := by
  obtain ⟨⟨l₀, pieces⟩, hstart, hrest⟩ := bind_eq_ok_iff.mp h
  obtain ⟨rfl, hstart'⟩ := start_append hdir hname hstart
  dsimp only at hrest
  rw [List.foldlM_append] at hrest
  obtain ⟨k, hfold, hlast⟩ := bind_eq_ok_iff.mp hrest
  obtain ⟨l', hstep, hpure⟩ := bind_eq_ok_iff.mp hlast
  cases hpure
  refine ⟨k, bind_eq_ok_iff.mpr ⟨_, hstart', hfold⟩, bind_eq_ok_iff.mpr ⟨_, hstart, ?_⟩, hstep⟩
  -- the last piece is not empty, so that none is dropped
  have hkept : ((Path.pieces dir ++ [name]).reverse.dropWhile List.isEmpty).reverse =
      Path.pieces dir ++ [name] := by
    rw [List.reverse_append, List.reverse_singleton, List.singleton_append,
      List.dropWhile_cons_of_neg (by simpa using hne), List.reverse_cons, List.reverse_reverse]
  have hhere : s.step k [] = .ok k := by
    rw [step, get?_of_step hstep]
    rfl
  dsimp only
  rw [hkept, List.dropLast_concat]
  refine bind_eq_ok_iff.mpr ⟨k, hfold, bind_eq_ok_iff.mpr ⟨k, hhere, ?_⟩⟩
  rw [List.getLast?_concat, Option.getD_some, decide_eq_false (Nat.lt_irrefl _)]
  rfl

/-- **A file that is there is written**, and nothing else is. -/
theorem writeText_of_follow {c : Contents} (hdir : dir ≠ []) (hname : '/' ∉ name)
    (hname' : isName name = true) (h : s.follow (dir ++ '/' :: name) = .ok l)
    (hfile : s.get? l = some (.file c)) (t : Text) :
    s.writeText (dir ++ '/' :: name) t = .ok (s.put l (.file (.text t))) := by
  have hne : name ≠ [] := by
    rintro rfl
    cases hname'
  obtain ⟨k, -, hlast, hstep⟩ := exists_follow_of_append hdir hname hne h
  refine bind_eq_ok_iff.mpr ⟨_, hlast, ?_⟩
  dsimp only
  rw [hname', if_neg (by decide)]
  refine bind_eq_ok_iff.mpr ⟨l, hstep, ?_⟩
  rw [hfile]

theorem changing_of_ok (change : Store → Except FileReason Store) {s' : Store}
    (h : change s = .ok s') : changing change s = (.ok (), s') := by
  unfold changing
  rw [h]

theorem changing_of_error (change : Store → Except FileReason Store) {r : FileReason}
    (h : change s = .error r) : changing change s = (.error r, s) := by
  unfold changing
  rw [h]

/-- **Reading a file** follows the path to it. -/
theorem readText_eq_ok_iff :
    s.readText p = .ok t ↔ ∃ l, s.follow p = .ok l ∧ s.get? l = some (.file (.text t)) := by
  constructor
  · intro h
    obtain ⟨e, hentry, hread⟩ := bind_eq_ok_iff.mp h
    obtain ⟨l, hfollow, hget⟩ := bind_eq_ok_iff.mp hentry
    refine ⟨l, hfollow, ?_⟩
    split at hget
    · next heq =>
      cases hget
      split at hread
      · cases hread
        exact heq
      · cases hread
      · cases hread
    · cases hget
  · rintro ⟨l, hfollow, hfile⟩
    have hentry : s.entry p = .ok (.file (.text t)) := by
      refine bind_eq_ok_iff.mpr ⟨l, hfollow, ?_⟩
      rw [hfile]
    exact bind_eq_ok_iff.mpr ⟨_, hentry, rfl⟩

/-- A file that is given another text is read as that text. -/
theorem readText_put {c : Contents} (hfollow : s.follow p = .ok l)
    (hfile : s.get? l = some (.file c)) (t : Text) :
    (s.put l (.file (.text t))).readText p = .ok t := by
  have hl : l ≠ [] := by
    rintro rfl
    cases hfile
  have hget := get?_put s hl (.file (.text t))
  refine readText_eq_ok_iff.mpr ⟨l, ?_, ?_⟩
  · -- no directory goes, since a file was in the place
    refine follow_mono (s := s) rfl (fun k hk => ?_) hfollow
    have hkl : k ≠ l := by
      rintro rfl
      cases hfile.symm.trans hk
    rw [hget, if_neg hkl, hk]
  · rw [hget, if_pos rfl]

/-- **A directory that is there** is not made. -/
theorem run_makeDirectories_of_follow {above last : Text} {k : Location} (habove : above ≠ [])
    (hlast : '/' ∉ last) (hname : isName last = true)
    (h : s.follow (above ++ '/' :: last) = .ok k) (hk : s.get? k = some .directory) :
    StateT.run (FileSystem.makeDirectories (above ++ '/' :: last) : StateM Store _) s =
      (.ok (), s) := by
  have hne : last ≠ [] := by
    rintro rfl
    cases hname
  obtain ⟨k', -, hlast', hstep⟩ := exists_follow_of_append habove hlast hne h
  have hexists : s.makeDirectory (above ++ '/' :: last) = .error .exists := by
    unfold makeDirectory
    rw [hlast']
    dsimp only [bind, Except.bind]
    rw [hname, if_neg (by decide), hstep]
    dsimp only
    rw [hk]
  have hmake : StateT.run (FileSystem.makeDirectory (above ++ '/' :: last) : StateM Store _) s =
      (.error .exists, s) := changing_of_error (·.makeDirectory _) hexists
  have hentry : s.entry (above ++ '/' :: last) = .ok .directory := by
    refine bind_eq_ok_iff.mpr ⟨k, h, ?_⟩
    rw [hk]
  have hdirectory : StateT.run (FileSystem.isDirectory (above ++ '/' :: last) : StateM Store _) s =
      (true, s) := by
    have hkind : StateT.run (FileSystem.kind (above ++ '/' :: last) : StateM Store _) s =
        (.ok .directory, s) := by
      change ((s.entry (above ++ '/' :: last)).map FileEntry.kind, s) = _
      rw [hentry]
      rfl
    unfold FileSystem.isDirectory
    rw [StateT.run_bind, hkind]
    rfl
  have hafter : ∀ f : Bool → StateM Store (Except FileReason Unit),
      StateT.run (FileSystem.isDirectory (above ++ '/' :: last) >>= f) s = StateT.run (f true) s := by
    intro f
    rw [StateT.run_bind, hdirectory]
    rfl
  unfold FileSystem.makeDirectories FileSystem.makeDirectoriesWithin
  rw [if_neg (by simp), StateT.run_bind, hmake]
  exact hafter _

end Store
end Uci
