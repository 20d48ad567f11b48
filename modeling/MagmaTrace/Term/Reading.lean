import MagmaTrace.Fault

/-! # What a reader gives

A reader takes a value off the start of its input and leaves the rest, or it is stuck. The
input is a text or a list of tokens.
-/

namespace MagmaTrace

/-- Why a reader is stuck, and what is left of its input there. -/
structure Stuck (σ : Type) where
  fault : Fault
  rest : List σ
  deriving DecidableEq

/-- A value read off the start of an input, with the rest of it, which is shorter. -/
structure Reading {σ : Type} (α : Type) (input : List σ) where
  value : α
  rest : List σ
  shorter : rest.length < input.length

end MagmaTrace
