import Uci.Text.Alphanumeric
import Uci.Text.Basic

/-!
# Expansion

A directory may be written with variables of the environment, and with a tilde for
the home directory. Variables are put in first. A text with a variable that is not
set stays as it is, as a whole; a variable that is set to nothing counts as set.

* `Environment` — the variables.
* `reference` — what a dollar sign refers to.
* `Environment.expandVariables?`, `Environment.expandHome` — the two steps.
* `Environment.expand` — a text with both of them done.
-/

namespace Uci

/-- **Environment**: variables and their values. -/
structure Environment where
  bindings : List (Text × Text) := []
  deriving DecidableEq, Repr

/-- What a dollar sign refers to. -/
inductive Reference where
  /-- Nothing: the text stands for itself. -/
  | literal (t : Text)
  /-- A variable, and what is taken where it is not set. -/
  | variable (name : Text) (otherwise : Option Text)
  deriving DecidableEq, Repr

/-- Characters of the name of a variable. -/
def isNameChar (c : Char) : Bool := Text.isAlphanumeric c || c = '_'

/-- A text up to the first `:-` in it, and the rest behind that. -/
def splitDefault : Text → Text × Option Text
  | [] => ([], none)
  | ':' :: '-' :: t => ([], some t)
  | c :: t => (c :: (splitDefault t).1, (splitDefault t).2)

/-- A reference by what stands between its braces. Where nothing stands in front of
`:-`, that is part of the name. -/
def bracedReference (inside : Text) : Reference :=
  let (name, otherwise) := splitDefault inside
  if name.isEmpty then .variable inside none else .variable name otherwise

/-- **What a dollar sign refers to**, told from the text behind it, and the text behind
the reference. -/
def reference : Text → Reference × Text
  | '{' :: t =>
    if t.contains '\x7d' then
      (bracedReference (t.takeWhile (· ≠ '\x7d')), (t.dropWhile (· ≠ '\x7d')).tail)
    else (.literal ['$', '{'], t)
  | '$' :: t => (.literal ['$'], t)
  | t =>
    if (t.takeWhile isNameChar).isEmpty then (.literal ['$'], t)
    else (.variable (t.takeWhile isNameChar) none, t.dropWhile isNameChar)

private theorem length_dropWhile_le (p : Char → Bool) (t : Text) :
    (t.dropWhile p).length ≤ t.length := (List.dropWhile_suffix p).length_le

theorem length_reference_le (t : Text) : (reference t).2.length ≤ t.length := by
  unfold reference
  split
  · next t =>
    split
    · have := length_dropWhile_le (· ≠ '\x7d') t
      simp only [List.length_tail, List.length_cons]
      omega
    · simp
  · simp
  · split
    · exact Nat.le_refl _
    · exact length_dropWhile_le _ _

namespace Environment

/-- The value of a variable, if it is set. -/
def get? (env : Environment) (name : Text) : Option Text := env.bindings.lookup name

/-- The home directory. -/
def home? (env : Environment) : Option Text :=
  (env.get? "HOME".toList).filter fun h => !h.isEmpty

/-- What a reference stands for, unless it is to a variable that is not set. -/
def resolve? (env : Environment) : Reference → Option Text
  | .literal t => some t
  | .variable name otherwise => (env.get? name).or otherwise

/-- Puts in the values of all variables. -/
def expandVariables? (env : Environment) : Text → Option Text
  | [] => some []
  | c :: t =>
    if c = '$' then do
      let value ← env.resolve? (reference t).1
      let rest ← expandVariables? env (reference t).2
      return value ++ rest
    else (expandVariables? env t).map (c :: ·)
  termination_by t => t.length
  decreasing_by
    · have := length_reference_le t
      simp only [List.length_cons]
      omega
    · simp

/-- Puts the home directory in for a tilde that is the whole text or stands in front of
a slash. -/
def expandHome (env : Environment) : Text → Text
  | '~' :: t =>
    match env.home? with
    | some home => if t.isEmpty || t.head? = some '/' then home ++ t else '~' :: t
    | none => '~' :: t
  | t => t

/-- **A text with variables and the home directory put in.** A tilde that came out of a
variable stays. -/
def expand (env : Environment) (t : Text) : Text :=
  match env.expandVariables? t with
  | none => t
  | some u => if t.head? = some '~' then env.expandHome u else u

/-- A text without dollar signs and tildes stands for itself. -/
theorem expand_eq_self (env : Environment) {t : Text} (h : ∀ c ∈ t, c ≠ '$' ∧ c ≠ '~') :
    env.expand t = t := by
  have hv : ∀ u : Text, (∀ c ∈ u, c ≠ '$') → env.expandVariables? u = some u := by
    intro u hu
    induction u with
    | nil => simp [expandVariables?]
    | cons c u ih =>
      rw [expandVariables?, if_neg (hu c (by simp)), ih fun d hd => hu d (by simp [hd])]
      rfl
  have ht : t.head? ≠ some '~' := by
    intro ht
    exact (h '~' (List.mem_of_mem_head? ht)).2 rfl
  rw [expand, hv t fun c hc => (h c hc).1]
  simp [ht]

end Environment
end Uci
