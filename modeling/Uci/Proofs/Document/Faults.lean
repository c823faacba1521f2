import Uci.Document.Replay
import Uci.Proofs.Syntax.Reporting

/-!
# Faults in a text

A text that is not made of statements is no document, and the error says where its first fault
stands.  The replay of statements never blames the syntax, so a fault is told apart from a
statement that is refused.

## Main definitions

* `Blameless` — a step of the replay that may fail, but never for a fault in the text.
* `FaultsInOrder` — **what is known of the faults in a text and of their positions.**

## Main results

* `blameless_replay` — the replay finds no fault.
* `faultsInOrder` — **the faults of every text stand in order at exact positions**, and the first
  of them is why a text is no document.
-/

namespace Uci

open Syntax (Value Entry Section Item Fault SyntaxError Token)

namespace Document

/-! ### The replay finds no fault -/

section Blameless

variable {α β : Type} {x : Except Rejection α}

/-- **A step that does not blame the syntax** if it fails. -/
def Blameless (x : Except Rejection α) : Prop := ∀ r, x = .error r → ∀ f, r.cause ≠ .fault f

theorem blameless_ok (a : α) : Blameless (.ok a) := nofun

theorem blameless_error {r : Rejection} (h : ∀ f, r.cause ≠ .fault f) :
    Blameless (.error r : Except Rejection α) := by
  rintro _ ⟨⟩
  exact h

theorem Blameless.map (h : Blameless x) (f : α → β) : Blameless (x.map f) := by
  cases x with
  | error r => exact blameless_error (h r rfl)
  | ok a => exact blameless_ok (f a)

theorem Blameless.bind (h : Blameless x) {f : α → Except Rejection β}
    (hf : ∀ a, Blameless (f a)) : Blameless (x >>= f) := by
  cases x with
  | error r => exact blameless_error (h r rfl)
  | ok a => exact hf a

theorem blameless_accept (v : Value) (e : Edit α) (d : Document) : Blameless (accept v e d) := by
  unfold accept
  split
  · exact blameless_ok _
  · exact blameless_error nofun

theorem blameless_openSection (type : Value) (name : Option Value) (d : Document) :
    Blameless (openSection type name d) := by
  unfold openSection
  split
  · exact blameless_ok _
  · exact blameless_accept _ _ _

theorem blameless_replayOption (s : Handle) (name value : Value) (d : Document) :
    Blameless (replayOption s name value d) := by
  unfold replayOption
  split
  · exact (blameless_accept _ _ _).map _
  · exact blameless_error nofun
  · exact (blameless_accept _ _ _).map _

theorem blameless_openList (s : Handle) (name : Value) (d : Document) :
    Blameless (openList s name d) := by
  unfold openList
  split
  · exact blameless_ok _
  · exact blameless_error nofun
  · exact blameless_accept _ _ _

theorem blameless_replayList (s : Handle) (name : Value) (value : Option Value) (d : Document) :
    Blameless (replayList s name value d) := by
  unfold replayList
  refine (blameless_openList s name d).bind fun r => ?_
  cases value with
  | none => exact blameless_ok _
  | some v => exact (blameless_accept _ _ _).map _

theorem blameless_replayEntry (s : Handle) (d : Document) (e : Entry) :
    Blameless (replayEntry s d e) := by
  unfold replayEntry
  split
  · exact blameless_replayOption _ _ _ _
  · exact blameless_replayList _ _ _ _
  · exact blameless_ok d

/-- A step that is made again and again. -/
theorem blameless_foldlM {f : Document → α → Except Rejection Document}
    (hf : ∀ d a, Blameless (f d a)) (l : List α) (d : Document) : Blameless (l.foldlM f d) := by
  induction l generalizing d with
  | nil => exact blameless_ok d
  | cons a l ih =>
    rw [List.foldlM_cons]
    exact (hf d a).bind ih

theorem blameless_replayItem (d : Document) (i : Item) : Blameless (replayItem d i) := by
  unfold replayItem
  split
  · exact (blameless_accept _ _ _).map _
  · exact blameless_ok d
  · unfold replaySection
    split
    · exact blameless_ok d
    · exact (blameless_openSection _ _ _).bind fun r =>
        blameless_foldlM (blameless_replayEntry _) _ _

/-- **The replay of statements finds no fault**, whatever it refuses. -/
theorem blameless_replay (items : List Item) : Blameless (replay items) :=
  blameless_foldlM blameless_replayItem items empty

end Blameless

/-! ### The first fault -/

/-- The error that is found first, and stands first. -/
def IsLeftmost (t : Text) (e : SyntaxError) : Prop :=
  e ∈ (Syntax.parse t).errors ∧ ∀ e' ∈ (Syntax.parse t).errors, e' ≠ e → e.start < e'.start

/-- The error in front of all others is the leftmost one. -/
theorem isLeftmost_head {t : Text} {e : SyntaxError} {more : List SyntaxError}
    (h : (Syntax.parse t).errors = e :: more) : IsLeftmost t e := by
  have hordered := Syntax.pairwise_errors t
  rw [h, List.pairwise_cons] at hordered
  refine ⟨h ▸ List.mem_cons_self, fun e' he' hne => ?_⟩
  rw [h] at he'
  exact (hordered.1 e' ((List.mem_cons.mp he').resolve_left hne)).1

/-- There is no other leftmost one. -/
theorem IsLeftmost.unique {t : Text} {e e' : SyntaxError} (h : IsLeftmost t e)
    (h' : IsLeftmost t e') : e' = e := by
  by_contra hne
  have hlt := h.2 e' h'.1 hne
  have hgt := h'.2 e h.1 (Ne.symm hne)
  omega

/-- **A text fails for a fault exactly if it has one**, and for the leftmost. -/
theorem parse_fault_iff {t : Text} {position : Position} {fault : Fault} :
    parse t = .error ⟨position, .fault fault⟩ ↔
      ∃ e, IsLeftmost t e ∧ position = e.position t ∧ fault = e.fault := by
  unfold parse
  dsimp only
  cases herrors : (Syntax.parse t).errors with
  | cons e more =>
    have hfirst := isLeftmost_head herrors
    constructor
    · rintro ⟨⟩
      exact ⟨e, hfirst, rfl, rfl⟩
    · rintro ⟨e', he', rfl, rfl⟩
      rw [hfirst.unique he']
  | nil =>
    constructor
    · intro h
      cases hreplay : replay (Syntax.parse t).items with
      | ok d =>
        rw [hreplay] at h
        cases h
      | error r =>
        rw [hreplay] at h
        have hcause : r.cause = .fault fault := congrArg ParseError.cause (Except.error.inj h)
        exact absurd hcause (blameless_replay _ r hreplay fault)
    · rintro ⟨e, ⟨hmem, -⟩, -⟩
      rw [herrors] at hmem
      cases hmem

/-! ### All faults -/

/-- **What is known of the faults in a text**, and of the positions in it. -/
structure FaultsInOrder (t : Text) : Prop where
  /-- The errors stand in the order of the text, and none reaches into the next one. -/
  ordered : (Syntax.parse t).errors.Pairwise fun e e' => e.start < e'.start ∧ e.stop ≤ e'.start
  /-- An error covers exactly one token, or it is empty and stands at the end of the text. -/
  covers : ∀ e ∈ (Syntax.parse t).errors,
    (∃ u, (u, e.start, e.stop) ∈ Token.spans 0 (Token.ofText t)) ∨
      e.start = t.size ∧ e.stop = t.size
  /-- At the end there is one error at most. -/
  end_once : ((Syntax.parse t).errors.filter fun e => e.start = t.size).length ≤ 1
  /-- An error begins between two characters. -/
  boundary : ∀ e ∈ (Syntax.parse t).errors, t.IsBoundary e.start
  /-- A later boundary has a later position, -/
  increasing : ∀ m n, t.IsBoundary m → t.IsBoundary n →
    ((Position.ofOffset t m).Before (.ofOffset t n) ↔ m < n)
  /-- and no other boundary has the same. -/
  distinct : ∀ m n, t.IsBoundary m → t.IsBoundary n →
    Position.ofOffset t m = .ofOffset t n → m = n
  /-- The line is one more than the line feeds before it. -/
  line : ∀ before behind, t = before ++ behind →
    (Position.ofOffset t (Text.size before)).line = before.count '\n' + 1
  /-- The column is one more than the characters since the last line feed, or since the
  beginning of the text. -/
  column : ∀ head line behind, t = head ++ line ++ behind → '\n' ∉ line →
    (head = [] ∨ ∃ h, head = h ++ ['\n']) →
    (Position.ofOffset t (Text.size (head ++ line))).column = line.length + 1
  /-- A text that fails for a fault fails for the leftmost one, at its position, and every text
  that has a fault does. -/
  first : ∀ position fault, parse t = .error ⟨position, .fault fault⟩ ↔
    ∃ e, IsLeftmost t e ∧ position = e.position t ∧ fault = e.fault

/-- An error covers a token or stands at the end. -/
private theorem covers_errors {t : Text} {e : SyntaxError} (h : e ∈ (Syntax.parse t).errors) :
    (∃ u, (u, e.start, e.stop) ∈ Token.spans 0 (Token.ofText t)) ∨
      e.start = t.size ∧ e.stop = t.size := by
  have hmem := (Syntax.reported_parse t).subset (List.mem_map_of_mem h)
  rcases List.mem_append.mp hmem with hspan | hend
  · obtain ⟨⟨u, r⟩, hu, hr⟩ := List.mem_map.mp hspan
    have hr : r = (e.start, e.stop) := hr
    exact Or.inl ⟨u, hr ▸ hu⟩
  · have hr := List.mem_singleton.mp hend
    exact Or.inr ⟨congrArg Prod.fst hr, congrArg Prod.snd hr⟩

/-- Of errors in order no two begin at the same place. -/
private theorem length_le_one_of_start {es : List SyntaxError} {n : Nat}
    (hordered : es.Pairwise fun e e' => e.start < e'.start ∧ e.stop ≤ e'.start)
    (hstart : ∀ e ∈ es, e.start = n) : es.length ≤ 1 := by
  match es with
  | [] => exact Nat.zero_le _
  | [e] => exact le_rfl
  | e :: e' :: more =>
    have hlt := ((List.pairwise_cons.mp hordered).1 e' List.mem_cons_self).1
    have he := hstart e List.mem_cons_self
    have he' := hstart e' (List.mem_cons_of_mem _ List.mem_cons_self)
    omega

/-- Between two tokens there is a boundary. -/
private theorem isBoundary_of_mem_spans {t : Text} {u : Token} {m n : Nat}
    (h : (u, m, n) ∈ Token.spans 0 (Token.ofText t)) : t.IsBoundary m := by
  obtain ⟨front, back, hsplit, hrange⟩ := Syntax.exists_split_of_mem_spans h
  refine ⟨front.flatMap Token.text, (u :: back).flatMap Token.text, ?_, ?_⟩
  · rw [← List.flatMap_append, ← hsplit, Token.texts_ofText]
  · have hm := congrArg Prod.fst hrange
    rwa [Nat.zero_add] at hm

/-- An error begins between two characters. -/
theorem isBoundary_start {t : Text} {e : SyntaxError} (h : e ∈ (Syntax.parse t).errors) :
    t.IsBoundary e.start := by
  rcases covers_errors h with ⟨u, hu⟩ | ⟨hstart, -⟩
  · exact isBoundary_of_mem_spans hu
  · exact ⟨t, [], (List.append_nil t).symm, hstart⟩

/-- **The faults of every text stand in order at exact positions**: each covers one token, or the
end of the text; positions follow the order of the text and are not shared; and the leftmost
fault is what a text that has one fails for. -/
theorem faultsInOrder (t : Text) : FaultsInOrder t where
  ordered := Syntax.pairwise_errors t
  covers := fun e he => covers_errors he
  end_once := by
    refine length_le_one_of_start (n := t.size) ((Syntax.pairwise_errors t).filter _) ?_
    exact fun e he => of_decide_eq_true (List.mem_filter.mp he).2
  boundary := fun e he => isBoundary_start he
  increasing := fun m n => Position.before_iff
  distinct := fun m n => Position.ofOffset_inj
  line := by
    rintro before behind rfl
    rw [Position.ofOffset_append]
    rfl
  column := by
    rintro head line behind rfl hline hhead
    rw [Position.ofOffset_append]
    exact Position.column_after hline hhead
  first := fun position fault => parse_fault_iff

end Document
end Uci
