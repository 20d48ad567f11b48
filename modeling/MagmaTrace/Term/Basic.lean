import MagmaTrace.Text.Basic

/-! # Terms of a magma

A term is a binary tree: variables at the leaves, the one operation of the magma at the
nodes. A leaf keeps the spelling it was read with.
-/

namespace MagmaTrace

/-- A term over the single binary operation. -/
inductive Term where
  | var (name : Text)
  | op (left right : Term)
  deriving DecidableEq

namespace Term

/-- The names at the leaves from left to right, with repetitions. -/
def names : Term → List Text
  | var name => [name]
  | op left right => left.names ++ right.names

/-- Change every name. -/
def rename (f : Text → Text) : Term → Term
  | var name => var (f name)
  | op left right => op (left.rename f) (right.rename f)

/-- The term as the prover writes it, `op(left,right)`. -/
def tptp : Term → Text
  | var name => name
  | op left right => lit "op(" ++ left.tptp ++ lit "," ++ right.tptp ++ lit ")"

/-- The operation's sign in a Lean script. -/
def diamond : CodeUnit := '◇'

/-- The term as a Lean script writes it, `(left ◇ right)` with every parenthesis. -/
def lean : Term → Text
  | var name => name
  | op left right => lit "(" ++ left.lean ++ lit " ◇ " ++ right.lean ++ lit ")"

theorem names_rename (f : Text → Text) (t : Term) : (t.rename f).names = t.names.map f := by
  induction t with
  | var => rfl
  | op left right ihl ihr => simp [rename, names, ihl, ihr]

end Term

end MagmaTrace
