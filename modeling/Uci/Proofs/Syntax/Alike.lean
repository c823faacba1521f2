import Uci.Proofs.Syntax.LineEnds
import Uci.Proofs.Syntax.Moving

/-!
# Reading a text with other line ends

A rule looks at the kinds of tokens, and at their texts only where they are no line ends.  So it
does the same in a text with carriage returns at its line ends: as many tokens are taken, the log is
the same, and what is reported are the same faults at the places that correspond.

## Main definitions

* `Parser.crlf` — the parser in the text with carriage returns that has come as far.
* `Parser.Fits` — what the tokens in front of a parser must be like.
* `Parser.Alike` — **a rule reads both texts alike.**

## Main results

* `Parser.alike_lineRule`, `Parser.alike_item` — every line is read alike.
* `Parser.alike_items` — so is a whole text.
* `errors_crlf` — **the same faults are found, at the places that correspond.**
-/

namespace Uci
namespace Syntax

/-! ### Rules that read both texts alike -/

namespace Parser

variable {g : Nat → Nat} {p q : Parser} {k : Kind} {fault : Fault} {rule rule' : Parser → Parser}

/-- **The parser in the text with carriage returns** that has come as far. -/
def crlf (g : Nat → Nat) (p : Parser) : Parser where
  rest := p.rest.map Token.crlf
  offset := g p.offset
  events := p.events
  errors := p.errors.map (SyntaxError.moved g)

/-- **What the tokens in front of a parser must be like.** -/
structure Fits (g : Nat → Nat) (p : Parser) : Prop where
  feeds : FeedsEnd p.rest
  carries : Carries g p.offset p.rest

/-- **A rule reads both texts alike** from where a parser stands. -/
structure Alike (g : Nat → Nat) (rule : Parser → Parser) (p : Parser) : Prop where
  eq : rule (p.crlf g) = (rule p).crlf g
  fits : (rule p).Fits g

theorem Alike.comp (h : Alike g rule p) (h' : Alike g rule' (rule p)) :
    Alike g (fun p => rule' (rule p)) p where
  eq := by rw [h.eq, h'.eq]
  fits := h'.fits

/-- A rule that reads tokens goes on in front of such tokens. -/
theorem Fits.advance (h : p.Fits g) {ts : List Token} (hrest : p.rest = ts ++ q.rest)
    (hoffset : q.offset = p.offset + sizeOf ts) : q.Fits g where
  feeds t ht := h.feeds t (by rw [hrest]; exact List.mem_append_right _ ht)
  carries := by
    rw [hoffset]
    exact Carries.behind (hrest ▸ h.carries)

/-! ### Looking ahead -/

section

variable (p)

@[simp] theorem current_crlf : (p.crlf g).current = p.current := by
  rw [current_eq, current_eq, crlf, List.head?_map, Option.map_map]
  rfl

@[simp] theorem isAt_crlf (k : Kind) : (p.crlf g).isAt k = p.isAt k := by
  rw [isAt, isAt, current_crlf]

@[simp] theorem atEnd_crlf : (p.crlf g).atEnd = p.atEnd := List.isEmpty_map

theorem currentText_crlf : (p.crlf g).currentText = Text.crlf p.currentText := by
  unfold currentText crlf
  cases p.rest <;> rfl

end

/-- No other token than a line end has another text. -/
theorem Fits.currentText_crlf (h : p.Fits g) (hk : p.current ≠ .newline) :
    (p.crlf g).currentText = p.currentText := by
  rw [Parser.currentText_crlf]
  unfold currentText
  cases hrest : p.rest with
  | nil => rfl
  | cons t ts =>
    rw [current_of_rest hrest] at hk
    exact Text.crlf_eq_self (h.feeds t (by rw [hrest]; exact List.mem_cons_self) hk)

theorem Fits.isAtKeyword_crlf (h : p.Fits g) (k : Keyword) :
    (p.crlf g).isAtKeyword k = p.isAtKeyword k := by
  unfold isAtKeyword isAtWord
  rw [isAt_crlf]
  by_cases hword : p.isAt .word = true
  · have hk : p.current ≠ .newline := by
      rw [isAt_iff.mp hword]
      exact Kind.noConfusion
    rw [h.currentText_crlf hk]
  · simp [hword]

/-- The fault of what stands behind a statement is the same, unless that is the end of the line. -/
theorem Fits.unexpected_crlf (h : p.Fits g) (hk : p.current ≠ .newline) :
    (p.crlf g).unexpected = p.unexpected := by
  unfold unexpected
  rw [current_crlf, h.currentText_crlf hk]

/-! ### Taking tokens and making nodes -/

/-- A token takes as many bytes as the map of places says. -/
private theorem carries_token {o : Nat} {t : Token} {ts : List Token} (h : Carries g o (t :: ts)) :
    g (o + t.text.size) = g o + t.crlf.text.size := by
  have hfront : Carries g o ([t] ++ ts) := h
  simpa using hfront.front

theorem alike_bumpAs (h : p.Fits g) (k : Kind) : Alike g (fun p => p.bumpAs k) p where
  eq := by
    obtain ⟨rest, offset, events, errors⟩ := p
    cases rest with
    | nil => rfl
    | cons t ts =>
      have hsize : g (offset + t.text.size) = g offset + t.crlf.text.size :=
        carries_token h.carries
      unfold bumpAs crlf
      dsimp only
      rw [hsize]
      rfl
  fits := by
    obtain ⟨ts, hrest, hoffset⟩ := (Advances.bumpAs p k).tokens
    exact h.advance hrest hoffset

theorem alike_bump (h : p.Fits g) : Alike g bump p where
  eq := by
    rw [bump, current_crlf]
    exact (alike_bumpAs h p.current).eq
  fits := (alike_bumpAs h p.current).fits

theorem alike_eat (h : p.Fits g) (k : Kind) : Alike g (fun p => (p.eat k).2) p := by
  unfold eat
  constructor
  · rw [isAt_crlf]
    split
    · exact (alike_bump h).eq
    · rfl
  · split
    · exact (alike_bump h).fits
    · exact h

theorem alike_bumpWhile (h : p.Fits g) (test : Kind → Bool) :
    Alike g (fun p => p.bumpWhile test) p := by
  have htake : ((p.crlf g).rest.takeWhile fun t => test t.kind) =
      (p.rest.takeWhile fun t => test t.kind).map Token.crlf := List.takeWhile_map ..
  unfold bumpWhile
  constructor
  · rw [htake, List.foldl_map]
    -- as many tokens are taken, whatever they are
    generalize p.rest.takeWhile (fun t => test t.kind) = ts
    induction ts generalizing p with
    | nil => rfl
    | cons t ts ih =>
      rw [List.foldl_cons, List.foldl_cons, (alike_bump h).eq]
      exact ih (alike_bump h).fits (List.takeWhile_map ..)
  · obtain ⟨ts, hrest, hoffset⟩ := (Advances.bumpWhile p test).tokens
    exact h.advance hrest hoffset

/-- Opening a node, closing it and opening another one around it concern the log only. -/
theorem Fits.start (h : p.Fits g) : p.start.2.Fits g := ⟨h.feeds, h.carries⟩

theorem Fits.precede (h : p.Fits g) (c : Completed) : (p.precede c).2.Fits g := by
  obtain ⟨ts, hrest, hoffset⟩ := (Advances.precede p c).tokens
  exact h.advance hrest hoffset

theorem precede_crlf (p : Parser) (c : Completed) :
    (p.crlf g).precede c = ((p.precede c).1, (p.precede c).2.crlf g) := by
  unfold precede
  have hevents : (p.crlf g).start.2.events = p.start.2.events := rfl
  rw [hevents]
  split <;> rfl

theorem node_crlf (h : Alike g rule p.start.2) (k : Kind) :
    (p.crlf g).node k rule = ((p.node k rule).1, (p.node k rule).2.crlf g) := by
  have hrule : rule (p.crlf g).start.2 = (rule p.start.2).crlf g := h.eq
  unfold node
  rw [hrule]
  rfl

theorem alike_node (h : Alike g rule p.start.2) (k : Kind) :
    Alike g (fun p => (p.node k rule).2) p where
  eq := congrArg Prod.snd (node_crlf h k)
  fits := ⟨h.fits.feeds, h.fits.carries⟩

theorem alike_error (h : p.Fits g) (fault : Fault) : Alike g (fun p => p.error fault) p where
  eq := by
    have hstop : g p.offset + (p.crlf g).currentText.size = g (p.offset + p.currentText.size) := by
      obtain ⟨rest, offset, events, errors⟩ := p
      cases rest with
      | nil => rfl
      | cons t ts => exact (carries_token h.carries).symm
    have hrange : (p.crlf g).currentRange = (g p.currentRange.1, g p.currentRange.2) :=
      congrArg (Prod.mk _) hstop
    have herrors : (p.errors.push ⟨fault, p.currentRange.1, p.currentRange.2⟩).map
        (SyntaxError.moved g) = (p.crlf g).errors.push
          ⟨fault, g p.currentRange.1, g p.currentRange.2⟩ := Array.map_push
    unfold error
    rw [hrange, ← herrors]
    rfl
  fits := ⟨h.feeds, h.carries⟩

/-! ### Pieces of a line -/

theorem value_crlf (h : p.Fits g) :
    (p.crlf g).value = (p.value.1, p.value.2.crlf g) ∧ p.value.2.Fits g := by
  have hspace := alike_eat h .whitespace
  have hrun : Alike g (fun p => p.bumpWhile Kind.isValuePart) (p.eat .whitespace).2.start.2 :=
    alike_bumpWhile hspace.fits.start _
  unfold value
  dsimp only
  rw [hspace.eq, current_crlf]
  split
  · exact ⟨congrArg (Prod.mk true) (alike_node hrun .value).eq, (alike_node hrun .value).fits⟩
  · exact ⟨rfl, hspace.fits⟩

theorem alike_errorLine (h : p.Fits g) : Alike g errorLine p := by
  have hline : Alike g (fun p => p.bumpWhile fun k => k ≠ .newline) p.start.2 :=
    alike_bumpWhile h.start _
  have hnode := alike_node hline .error
  exact hnode.comp (alike_eat hnode.fits .newline)

theorem alike_skipLine (h : p.Fits g) (fault : Fault) :
    Alike g (fun p => p.skipLine fault) p := by
  have herror := alike_error h fault
  exact herror.comp (alike_errorLine herror.fits)

theorem alike_lineEnd (h : p.Fits g) : Alike g lineEnd p :=
  (alike_eat h .whitespace).comp (alike_eat (alike_eat h .whitespace).fits .comment)

theorem alike_finishLine (h : p.Fits g) (sound : Bool) :
    Alike g (fun p => p.finishLine sound) p := by
  have hend := alike_lineEnd h
  have hbump := alike_bump hend.fits
  have hline := alike_errorLine hend.fits
  have hskip := alike_skipLine hend.fits p.lineEnd.unexpected
  constructor
  · rw [finishLine_eq, finishLine_eq, hend.eq, atEnd_crlf, isAt_crlf]
    split
    · rfl
    split
    · exact hbump.eq
    next hnewline =>
    split
    · rw [hend.fits.unexpected_crlf fun hk => hnewline (isAt_iff.mpr hk)]
      exact hskip.eq
    · exact hline.eq
  · rw [finishLine_eq]
    split
    · exact hend.fits
    split
    · exact hbump.fits
    split
    · exact hskip.fits
    · exact hline.fits

theorem alike_finishWithout (h : p.Fits g) (piece : Piece) :
    Alike g (fun p => p.finishWithout piece) p := by
  have herror := alike_error h (.missing piece)
  exact herror.comp (alike_finishLine herror.fits false)

/-! ### Statements -/

theorem alike_further (h : p.Fits g) (k : Keyword) : Alike g (further k) p := by
  obtain ⟨hvalue, hfits⟩ := value_crlf h
  have hline := alike_finishLine hfits true
  have hwithout := alike_finishWithout hfits .optionValue
  unfold further
  constructor
  · cases k with
    | package => exact (alike_finishLine h true).eq
    | config | list =>
      dsimp only
      rw [hvalue]
      exact hline.eq
    | option =>
      dsimp only
      rw [hvalue]
      split
      · exact hline.eq
      · exact hwithout.eq
  · cases k with
    | package => exact (alike_finishLine h true).fits
    | config | list => exact hline.fits
    | option =>
      dsimp only
      split
      · exact hline.fits
      · exact hwithout.fits

theorem alike_lineRule (h : p.Fits g) (k : Keyword) : Alike g (lineRule k) p := by
  have hkeyword := alike_bumpAs h k.kind
  obtain ⟨hvalue, hfits⟩ := value_crlf hkeyword.fits
  have hmore := alike_further hfits k
  have hwithout := alike_finishWithout hfits k.missing
  unfold lineRule
  constructor
  · rw [hkeyword.eq, hvalue]
    split
    · exact hmore.eq
    · exact hwithout.eq
  · split
    · exact hmore.fits
    · exact hwithout.fits

/-- The line of a statement. -/
theorem alike_clause (h : p.Fits g) (k : Keyword) :
    Alike g (fun p => (p.node k.node (lineRule k)).2) p :=
  alike_node (alike_lineRule h.start k) k.node

/-- **The lines of a section.** -/
theorem alike_entries (h : p.Fits g) : Alike g entries p := by
  have hskip : ∀ {p : Parser}, p.Fits g → Alike g skipTrivia p := fun h =>
    alike_bumpWhile h Kind.isTrivia
  have hat : ∀ {p : Parser}, p.Fits g → ∀ k,
      (p.crlf g).skipTrivia.isAtKeyword k = p.skipTrivia.isAtKeyword k := by
    intro p h k
    rw [(hskip h).eq, (hskip h).fits.isAtKeyword_crlf]
  induction p using entries.induct with
  | case1 p ho hlt ih =>
    have hline : Alike g (fun p => p.skipTrivia.option) p := by
      simp only [option_eq]
      exact (hskip h).comp (alike_clause (hskip h).fits .option)
    have hmore := hline.comp (ih hline.fits)
    constructor
    · rw [entries_of_option ho, entries_of_option (by rw [hat h, ho])]
      exact hmore.eq
    · rw [entries_of_option ho]
      exact hmore.fits
  | case2 p ho hl hlt ih =>
    have hline : Alike g (fun p => p.skipTrivia.list) p := by
      simp only [list_eq]
      exact (hskip h).comp (alike_clause (hskip h).fits .list)
    have hmore := hline.comp (ih hline.fits)
    constructor
    · rw [entries_of_list ho hl, entries_of_list (by rwa [hat h]) (by rw [hat h, hl])]
      exact hmore.eq
    · rw [entries_of_list ho hl]
      exact hmore.fits
  | case3 p ho hl =>
    constructor
    · rw [entries_of_other ho hl, entries_of_other (by rwa [hat h]) (by rwa [hat h])]
      exact (hskip h).eq
    · rw [entries_of_other ho hl]
      exact (hskip h).fits

theorem alike_package (h : p.Fits g) : Alike g package p := by
  simp only [funext package_eq]
  exact alike_clause h .package

theorem alike_section (h : p.Fits g) : Alike g «section» p := by
  have hheader := node_crlf (alike_lineRule h.start .config) .sectionHeader
  have hfits : (p.behindNode .sectionHeader (lineRule .config)).Fits g :=
    (alike_clause h .config).fits.precede _
  have hbody := alike_entries hfits
  have hsection : ∀ p : Parser, p.section =
      ((p.behindNode .sectionHeader (lineRule .config)).entries.complete
        ((p.node .sectionHeader (lineRule .config)).2.precede
          (p.node .sectionHeader (lineRule .config)).1).1 .section).2 := by
    intro p
    unfold «section»
    rw [sectionHeader_eq]
    rfl
  have hbehind : (p.crlf g).behindNode .sectionHeader (lineRule .config) =
      (p.behindNode .sectionHeader (lineRule .config)).crlf g := by
    unfold behindNode
    rw [hheader, precede_crlf]
  constructor
  · rw [hsection, hsection, hbehind, hbody.eq, hheader, precede_crlf]
    rfl
  · rw [hsection]
    exact ⟨hbody.fits.feeds, hbody.fits.carries⟩

/-! ### Whole sources -/

theorem alike_item (h : p.Fits g) : Alike g item p := by
  have hbump := alike_bump h
  have hsection := alike_section h
  have hpackage := alike_package h
  have hskip := alike_skipLine h
  unfold item
  constructor
  · simp only [current_crlf, h.isAtKeyword_crlf]
    split
    · exact hbump.eq
    next htrivia =>
    -- a line that is reported does not begin with its end
    have htext : (p.crlf g).currentText = p.currentText :=
      h.currentText_crlf fun hk => htrivia (by rw [hk]; rfl)
    rw [htext]
    split
    · exact hsection.eq
    split
    · exact hpackage.eq
    split
    · exact (hskip _).eq
    · exact (hskip _).eq
  · split
    · exact hbump.fits
    split
    · exact hsection.fits
    split
    · exact hpackage.fits
    split
    · exact (hskip _).fits
    · exact (hskip _).fits

/-- **Both texts are read alike** to the end. -/
theorem alike_items (h : p.Fits g) : Alike g items p := by
  induction p using item_induction with
  | nil p hend =>
    constructor
    · rw [items_of_atEnd hend, items_of_atEnd (by rwa [atEnd_crlf])]
    · rw [items_of_atEnd hend]
      exact h
  | item p hend ih =>
    have hone := alike_item h
    have hmore := ih hone.fits
    constructor
    · rw [items_of_not_atEnd hend, items_of_not_atEnd (by rwa [atEnd_crlf]), hone.eq, hmore.eq]
    · rw [items_of_not_atEnd hend]
      exact hmore.fits

end Parser

/-! ### The errors of both texts -/

section

variable {t : Text}

/-- **The same faults are found, at the places that correspond.** -/
theorem errors_crlf (hreturn : '\r' ∉ t) (hfeeds : FeedsEnd (Token.ofText t)) :
    (parse t.crlf).errors = (parse t).errors.map (SyntaxError.moved t.crlfOffset) := by
  have hfits : (Parser.ofText t).start.2.Fits t.crlfOffset := ⟨hfeeds, carries_ofText t⟩
  have hzero : t.crlfOffset 0 = 0 := Text.crlfOffset_append [] t
  have hstart : (Parser.ofText t.crlf).start.2 = (Parser.ofText t).start.2.crlf t.crlfOffset := by
    unfold Parser.ofText Parser.start Parser.crlf
    rw [ofText_crlf hreturn hfeeds]
    rw [hzero, Array.map_empty]
  have herrors : ∀ s, (parse s).errors = (Parser.ofText s).start.2.items.errors.toList :=
    fun s => rfl
  rw [herrors, herrors, hstart, (Parser.alike_items hfits).eq]
  exact Array.toList_map

end

end Syntax
end Uci
