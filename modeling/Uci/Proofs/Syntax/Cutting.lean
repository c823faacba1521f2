import Uci.Proofs.Syntax.Reporting
import Uci.Proofs.Syntax.Splicing

/-!
# Where a text can be cut

A line of a text begins behind a line feed, and that is a place between two tokens unless it stands
in a quoted value.  In a text that is read without an error a line start between two tokens stands
behind a line end, and the text up to there falls into the same tokens as before.

## Main definitions

* `LineStart` — a text is cut in two where a line starts, between two tokens.

## Main results

* `ofText_of_append` — **the tokens up to a line end do not depend on what follows.**
* `LineStart.ended` — in front of a line start stands a line end.
-/

namespace Uci
namespace Syntax

/-- **The tokens up to a line end do not depend on what follows.** -/
theorem ofText_of_append {t : Text} {ts us : List Token} (h : Token.ofText t = ts ++ us)
    (hts : Ended ts) : Token.ofText (ts.flatMap Token.text) = ts := by
  induction ts generalizing t with
  | nil => exact Token.ofText_nil
  | cons u ts ih =>
    rw [List.cons_append] at h
    obtain ⟨r, -, hcut, hmore⟩ := exists_cut h
    -- what is left behind the first token are the others and what follows
    have hr : r = ts.flatMap Token.text ++ us.flatMap Token.text := by
      rw [← Token.texts_ofText r, hmore, List.flatMap_append]
    have hend : Token.ofText (ts.flatMap Token.text) = ts ∧ Cut u (ts.flatMap Token.text) := by
      by_cases hnil : ts = []
      · subst hnil
        exact ⟨Token.ofText_nil, hcut.of_newline (hts u rfl) []⟩
      · have hlast : Ended ([u] ++ ts) := hts
        have hothers := ih hmore (hlast.of_append hnil)
        refine ⟨hothers, Cut.of_append (hr ▸ hcut) ?_⟩
        exact fun hempty => hnil (hothers.symm.trans (ofText_eq_nil.mpr hempty))
    rw [List.flatMap_cons, ofText_of_cut hend.2, hend.1]

/-! ### Line starts -/

/-- **A text is cut in two where a line starts**, between two tokens: some of the tokens make up
what stands in front, and that is nothing or ends with a line feed. -/
structure LineStart (before after : Text) : Prop where
  boundary : ∃ ts us, Token.ofText (before ++ after) = ts ++ us ∧ before = ts.flatMap Token.text
  start : before = [] ∨ ∃ s, before = s ++ ['\n']

/-- What ends with a line feed is a line end, or no pattern allows it. -/
private theorem Cut.kind_of_feed {u : Token} {r : Text} (h : Cut u r)
    (hfeed : u.text.getLast? = some '\n') : u.kind = .newline ∨ u.kind = .unknown := by
  cases h with
  | feed | returnFeed => exact Or.inl rfl
  | loneReturn | openSingle | openDouble | other => exact Or.inr rfl
  | spacing _ hs =>
    exact absurd (List.all_eq_true.mp hs _ (List.mem_of_getLast? hfeed)) (by decide)
  | comment hs =>
    rcases List.mem_cons.mp (List.mem_of_getLast? hfeed) with hhash | hmem
    · exact absurd hhash (by decide)
    · exact absurd (List.all_eq_true.mp hs _ hmem) (by decide)
  | single | double =>
    rw [List.getLast?_concat] at hfeed
    exact absurd (Option.some.inj hfeed) (by decide)
  | word hw => exact absurd (isWordChar_of_mem hw (List.mem_of_getLast? hfeed)) (by decide)

/-- So is a token of a text. -/
private theorem kind_of_mem_feed {t : Text} {u : Token} (hu : u ∈ Token.ofText t)
    (hfeed : u.text.getLast? = some '\n') : u.kind = .newline ∨ u.kind = .unknown := by
  obtain ⟨r, hcut⟩ := cut_of_mem hu
  exact hcut.kind_of_feed hfeed

/-- Every token of a text that is read without an error is allowed by a pattern. -/
theorem kind_ne_unknown {t : Text} {u : Token} (herrors : (parse t).errors = [])
    (hu : u ∈ Token.ofText t) : u.kind ≠ .unknown := by
  obtain ⟨rows, -, htokens⟩ := exists_accepted herrors
  rw [htokens] at hu
  obtain ⟨r, -, hmem⟩ := List.mem_flatMap.mp hu
  obtain ⟨body, hbodies, hbody⟩ := exists_body r
  rw [← r.withStop_ending, hbodies, List.mem_append] at hmem
  rcases hmem with hmem | hmem
  · intro hunknown
    have hinline := hbody u hmem
    rw [hunknown] at hinline
    cases hinline
  · rw [kind_of_mem_optional hmem]
    exact Kind.noConfusion

/-- **In front of a line start stands a line end**, if the text is read without an error, and the
text up to there falls into the same tokens as before. -/
theorem LineStart.ended {before after : Text} (h : LineStart before after)
    (herrors : (parse (before ++ after)).errors = []) : Ended (Token.ofText before) := by
  obtain ⟨ts, us, htokens, rfl⟩ := h.boundary
  suffices hts : Ended ts by
    rw [ofText_of_append htokens hts]
    exact hts
  intro u hu
  obtain ⟨front, rfl⟩ := List.getLast?_eq_some_iff.mp hu
  have hmem : u ∈ Token.ofText ((front ++ [u]).flatMap Token.text ++ after) := by
    rw [htokens]
    simp
  have hfeed : ((front ++ [u]).flatMap Token.text).getLast? = some '\n' := by
    rcases h.start with hnil | ⟨s, hs⟩
    · exact absurd (List.flatMap_eq_nil_iff.mp hnil u (by simp)) (text_ne_nil_of_mem hmem)
    · rw [hs, List.getLast?_concat]
  rw [List.flatMap_append, List.flatMap_singleton,
    List.getLast?_append_of_ne_nil _ (text_ne_nil_of_mem hmem)] at hfeed
  exact (kind_of_mem_feed hmem hfeed).resolve_right (kind_ne_unknown herrors hmem)

end Syntax
end Uci
