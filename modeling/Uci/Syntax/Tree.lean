import Uci.Syntax.Token

/-!
# Syntax trees

A syntax tree keeps every token of its source as a leaf. Its inner nodes say
what the tokens between them were read as.

* `Tree.tokens`, `Tree.text` — the leaves from left to right, and their text.
* `Tree.located` — the children of a node with the offsets they start at.
-/

namespace Uci
namespace Syntax

/-- **Syntax tree**: a token, or a node over a list of trees. -/
inductive Tree where
  | token (kind : Kind) (text : Text)
  | node (kind : Kind) (children : List Tree)
  deriving Repr, Inhabited

namespace Tree

/-- What the tree was read as. -/
def kind : Tree → Kind
  | token k _ => k
  | node k _ => k

/-- The trees right below. -/
def children : Tree → List Tree
  | token _ _ => []
  | node _ ts => ts

mutual

/-- The leaves, from left to right. -/
def tokens : Tree → List Token
  | token k t => [⟨k, t⟩]
  | node _ ts => tokensOfList ts

/-- The leaves of a list of trees. -/
def tokensOfList : List Tree → List Token
  | [] => []
  | t :: ts => t.tokens ++ tokensOfList ts

end

@[simp] theorem tokens_token (k : Kind) (t : Text) : (token k t).tokens = [⟨k, t⟩] := by
  rw [tokens]

@[simp] theorem tokens_node (k : Kind) (ts : List Tree) :
    (node k ts).tokens = ts.flatMap tokens := by
  rw [tokens]
  induction ts with
  | nil => rfl
  | cons t ts ih => rw [tokensOfList, ih, List.flatMap_cons]

/-- The text of the leaves. -/
def text (t : Tree) : Text := t.tokens.flatMap Token.text

/-- Trees that follow one another from `offset` on, each with the offset it
starts at. -/
def located : Nat → List Tree → List (Nat × Tree)
  | _, [] => []
  | offset, t :: ts => (offset, t) :: located (offset + t.text.size) ts

@[simp] theorem map_snd_located (offset : Nat) (ts : List Tree) :
    (located offset ts).map Prod.snd = ts := by
  induction ts generalizing offset with
  | nil => rfl
  | cons t ts ih => simp [located, ih]

end Tree
end Syntax
end Uci
