import MagmaTrace.Text.Cut

/-! # Formula declarations

The hypothesis and the conjecture of a transcript are declared as
`fof(<name>, <role>, <formula>).`, possibly over several lines. A collector gathers the
lines of one declaration; a new beginning gives up an unfinished one.
-/

namespace MagmaTrace

open Text

/-- What a declared formula is to the theorem. -/
inductive Role where
  | hypothesis
  | conjecture
  deriving DecidableEq

namespace Role

/-- The word for a role in a declaration. -/
def word : Role → Text
  | hypothesis => lit "axiom"
  | conjecture => lit "conjecture"

def ofWord? (text : Text) : Option Role :=
  if text = word hypothesis then some hypothesis
  else if text = word conjecture then some conjecture
  else none

end Role

/-- A declared formula and the line on which its declaration starts. -/
structure Declaration where
  name : Text
  role : Role
  formula : Text
  line : Nat
  deriving DecidableEq

namespace Declaration

/-- The mark that a declaration begins with. -/
def opening : Text := lit "fof("

/-- The mark that a declaration ends with. -/
def ending : Text := lit ")."

/-- The text of a field without white space around it; of a blank field, its last unit. -/
def fieldText? (field : Text) : Option Text :=
  match trim field with
  | [] => field.getLast?.map ([·])
  | text => some text

/-- The text before the first comma and the text after it. -/
def field? (text : Text) : Option (Text × Text) :=
  match text.dropWhile (· != (',' : CodeUnit)) with
  | [] => none
  | _ :: rest => (fieldText? (text.takeWhile (· != (',' : CodeUnit)))).map (·, rest)

/-- The text before the final parenthesis and period, between which there may be white space. -/
def beforeEnding? (text : Text) : Option Text := do
  let closing ← strip? (lit ".") text.reverse
  let formula ← strip? (lit ")") (skipBlanks closing)
  return formula.reverse

/-- Name, role and formula of a declaration that starts here and ends with the text. -/
def fields? (text : Text) : Option (Text × Text × Text) := do
  let (name, rest) ← field? (← strip? opening text)
  let (role, rest) ← field? rest
  return (name, role, trim (← beforeEnding? rest))

/-- The declaration in a text. The leftmost beginning that fits counts, and there is none if
    its role is not a known one. -/
def read? (text : Text) (line : Nat) : Option Declaration := do
  let (name, role, formula) ← first? fields? text
  return ⟨name, ← Role.ofWord? role, formula, line⟩

end Declaration

/-- The lines of an unfinished declaration, joined, and the line on which it starts. -/
structure Pending where
  text : Text
  line : Nat
  deriving DecidableEq

/-- A collector holds at most one unfinished declaration. -/
abbrev Collector := Option Pending

namespace Collector

/-- The unfinished declaration after a text: a new one if the text has a beginning, else the
    old one with the text added after a space. -/
def gather (pending : Collector) (text : Text) (line : Nat) : Collector :=
  if occurs Declaration.opening text then some ⟨text, line⟩
  else pending.map fun p => { p with text := p.text ++ lit " " ++ text }

/-- Take up a text. When it ends a declaration, that is read and given up. -/
def feed (pending : Collector) (text : Text) (line : Nat) : Collector × Option Declaration :=
  match gather pending text line with
  | none => (none, none)
  | some p =>
    if endsWith Declaration.ending p.text then (none, Declaration.read? p.text p.line)
    else (some p, none)

end Collector

end MagmaTrace
