import MagmaTrace.Number.Numeral
import MagmaTrace.Transcript.Dependency

/-! # What the lines of a transcript say

A transcript begins with a header of declarations; after a marker line come the proofs, in
blocks that start with a heading and end with a result line or with the next heading. What a
line says depends on the phase, and every line says at most two things: it can close a block
and open the next.
-/

namespace MagmaTrace

open Text

/-- The parts of a transcript. -/
inductive Phase where
  | header
  | proofs
  | block
  deriving DecidableEq

/-- What a block proves: the goal, or a lemma on the way to it. -/
inductive Keyword where
  | goal
  | auxiliary
  deriving DecidableEq

def Keyword.word : Keyword → Text
  | goal => lit "Goal"
  | auxiliary => lit "Lemma"

/-- The heading of a block: its number, the name in parentheses if there is one, and the
    statement. -/
structure Heading where
  keyword : Keyword
  number : Numeral
  name : Option Text
  statement : Text
  deriving DecidableEq

/-- What a line says. -/
inductive Event where
  /-- An inline axiom is stated. -/
  | axiomStated (name statement : Text)
  /-- A lemma is declared, with hints at what it depends on. -/
  | lemmaStated (name statement : Text) (hints : List Text)
  /-- A block begins. -/
  | blockOpened (heading : Heading)
  /-- A line of the open block's proof, with its references. -/
  | proofLine (text : Text) (references : List Text)
  /-- The open block ends. -/
  | blockClosed
  /-- Nothing of the above: perhaps a part of a declaration. -/
  | other (text : Text)
  deriving DecidableEq

namespace Event

/-- The line that ends the header. -/
def proofMarker : Text := lit "The conjecture is true! Here is a proof"

/-- The beginning of a line that ends a block. -/
def resultMark : Text := lit "RESULT"

/-- The rest of a line after white space, provided that it is a single line. -/
def restOfLine? (text : Text) : Option Text :=
  let rest := skipBlanks text
  if rest.any isLineEnd then none else some rest

/-- A nonempty text in parentheses at the start of a text, with what follows. -/
def parenthesized? (text : Text) : Option (Text × Text) := do
  let (inside, rest) ← run? (· != (')' : CodeUnit)) (← strip? (lit "(") text)
  return (inside, ← strip? (lit ")") rest)

/-- An inline axiom, `Axiom <number> (<name>): <statement>.` -/
def axiomLine? (line : Text) : Option Event := do
  let (_, rest) ← run? isDigit (← skipSomeBlanks? (← strip? (lit "Axiom") line))
  let (name, rest) ← parenthesized? (← skipSomeBlanks? rest)
  let statement ← restOfLine? (← strip? (lit ":") rest)
  return axiomStated name (dropEndWhile (· == '.') statement)

/-- The beginnings of lines that declare lemmas. -/
def lemmaMarks : List Text := [lit "% single_lemma_", lit "% history_lemma_"]

/-- A statement under a name, `<name>: <statement>`, the name being free of white space. The
    first colon that has a name before it and a single line after it counts; `name` holds what
    was passed over. -/
def named? : (name : Text) → Text → Option (Text × Text)
  | _, [] => none
  | name, u :: rest =>
    if isBlank u then none
    else
      let here := if u = ':' ∧ name ≠ [] then restOfLine? rest else none
      match here with
      | some statement => some (name, statement)
      | none => named? (name ++ [u]) rest

/-- The names after `deps:`, without what an arrow adds to them. -/
def hintsIn (text : Text) : List Text :=
  match after? (lit "deps:") text with
  | none => []
  | some list =>
    ((splitAt ',' list).map fun entry => trim (before (lit "->") entry)).filter (· ≠ [])

/-- A declared lemma, `% <name>: <statement> | deps: <hints>`. -/
def lemmaLine? (line : Text) : Option Event := do
  let body := trim (line.takeWhile (· != ('|' : CodeUnit)))
  let hints := (line.dropWhile (· != ('|' : CodeUnit))).drop 1
  let (name, statement) ← named? [] (skipBlanks (← strip? (lit "%") body))
  return lemmaStated name (trim statement) (hintsIn hints)

/-- A heading, `Goal <number> (<name>): <statement>`, or `Lemma` in place of `Goal`; the name
    may be left out. -/
def heading? (line : Text) : Option Heading := do
  let (keyword, rest) ←
    ((strip? Keyword.goal.word line).map (Keyword.goal, ·)).or
      ((strip? Keyword.auxiliary.word line).map (Keyword.auxiliary, ·))
  let (digits, rest) ← run? isDigit (← skipSomeBlanks? rest)
  let named := parenthesized? (skipBlanks rest)
  let afterName := match named with
    | some (_, rest) => rest
    | none => rest
  let statement ← restOfLine? (← strip? (lit ":") (skipBlanks afterName))
  return { keyword := keyword
           number := Numeral.ofDigits digits
           name := named.map fun (name, _) => trim name
           statement := trim statement }

/-- Whether a line of an open block belongs to its proof. -/
def isProofLine (line : Text) : Bool :=
  line != [] && !startsWith Keyword.goal.word line && !startsWith Keyword.auxiliary.word line

end Event

namespace Phase

open Event

/-- What a line without white space around it says in a phase where no declaration was found
    on it, and the phase after it. -/
def stepInside (phase : Phase) (line : Text) : Phase × List Event :=
  match phase, heading? line with
  | .proofs, some heading => (.block, [blockOpened heading])
  | .block, some heading => (.block, [blockClosed, blockOpened heading])
  | .block, none =>
    if startsWith resultMark line then (.proofs, [blockClosed])
    else if isProofLine line then (.block, [proofLine line (Dependency.references line)])
    else (.block, [])
  | phase, _ => (phase, [other line])

/-- What a line says in a phase, and the phase after it. -/
def step (phase : Phase) (rawLine : Text) : Phase × List Event :=
  let line := trim rawLine
  match axiomLine? line with
  | some event => (phase, [event])
  | none =>
    if startsWith proofMarker line then
      (match phase with
        | .header => .proofs
        | phase => phase, [])
    else if lemmaMarks.any (startsWith · line) then (phase, (lemmaLine? line).toList)
    else phase.stepInside line

end Phase

end MagmaTrace
