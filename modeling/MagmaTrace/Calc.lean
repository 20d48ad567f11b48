import MagmaTrace.Layout
import MagmaTrace.Naming
import MagmaTrace.Renaming

/-! # Chains of equations

A proof block lists terms with a justification between each two:

    op(a, b)
  = { by axiom 1 (a1) }
    op(b, a)

Each justification line makes one step of a chain; its sides are the terms on the lines
directly before and after it.
-/

namespace MagmaTrace

open Text

/-- Why a transcript cannot be turned into a script. -/
inductive TranslationError where
  | malformed (error : LineError)
  | missingDependency (error : MissingDependency)
  | missingRecord (role : Role)
  deriving DecidableEq

def TranslationError.diagnostic : TranslationError → Diagnostic Details
  | malformed e => e.diagnostic
  | missingDependency e => e.diagnostic
  | missingRecord role => Diagnostic.missingRecord role.word

/-- A step of a chain: two sides, the name of what proves it, and its line in the transcript. -/
structure CalcStep where
  lhs : Text
  rhs : Text
  justification : Text
  line : Nat
  deriving DecidableEq

namespace CalcStep

/-- Whether a line justifies a step, `= { by <something> }`. -/
def isJustification (text : Text) : Bool :=
  let reason := do
    let inside ← strip? (lit "=") text
    let cause ← strip? ['{'] (skipBlanks inside)
    skipSomeBlanks? (← strip? (lit "by") (skipBlanks cause))
  match reason with
  | some (_ :: rest) => (rest.takeWhile fun u => !isLineEnd u).contains ('}' : CodeUnit)
  | _ => false

/-- A lemma's number after the word for it, at the start of a text and in any case. -/
def numberedLemma? (text : Text) : Option Text := do
  let (digits, _) ← run? isDigit (← skipSomeBlanks? (← stripCaseless? (lit "lemma") text))
  return Dependency.lemmaName digits

/-- The token that a justification cites: the first token of a declared statement, else the
    first lemma cited by its number. -/
def citedToken? (text : Text) : Option Text :=
  ((first? Dependency.token? text).map (·.1)).or (first? numberedLemma? text)

/-- Whether a line can be a side of a step. -/
def isSide (text : Text) : Bool :=
  text != [] && lower text != lit "proof:" && !isJustification text

/-- A side of a step from the line beside its justification. -/
def readSide (r : Renaming) (side : Neighbour) (justification : ProofLine) :
    Option ProofLine → Except LineError Text
  | none => missing
  | some neighbour =>
    if isSide neighbour.text then
      match Term.readAt neighbour.text 0 with
      | .ok (term, _) => .ok (term.rename r.apply).lean
      | .error e => .error ⟨neighbour.line, neighbour.text, e⟩
    else missing
where
  missing : Except LineError Text :=
    .error ⟨justification.line, justification.text, .whole (.neighbour side) justification.text⟩

/-- The step that a justification line makes between its neighbours. -/
def ofLines (r : Renaming) (n : Naming) (before : Option ProofLine) (line : ProofLine)
    (after : Option ProofLine) : Except TranslationError CalcStep := do
  let place := lit "line " ++ decimal line.line
  match citedToken? line.text with
  | none => throw (.missingDependency ⟨line.text, some place⟩)
  | some token =>
    let lhs ← (readSide r .left line before).mapError .malformed
    let rhs ← (readSide r .right line after).mapError .malformed
    let name ← (n.resolve token (some (place ++ lit ": " ++ line.text))).mapError .missingDependency
    return ⟨lhs, rhs, name, line.line⟩

/-- The steps of a proof's lines, of which `before` is the line before the first. -/
def ofLinesAfter (r : Renaming) (n : Naming) (before : Option ProofLine) :
    List ProofLine → Except TranslationError (List CalcStep)
  | [] => .ok []
  | line :: rest => do
    if isJustification line.text then
      let step ← ofLines r n before line rest.head?
      let steps ← ofLinesAfter r n (some line) rest
      return step :: steps
    else ofLinesAfter r n (some line) rest

/-- The chain of a proof block. -/
def ofBlock (r : Renaming) (n : Naming) (block : ProofBlock) :
    Except TranslationError (List CalcStep) :=
  ofLinesAfter r n none block.lines

/-- The indent of what continues a step. -/
def indent : Text := lit "        "

/-- Between two steps. -/
def separator : Text := lit "\n      "

/-- A step as text: on one line if both sides fit together, else broken after the equals sign,
    with sides broken in turn if need be. -/
def write (o : Options) (s : CalcStep) : Text :=
  let proof := lit ":= by\n" ++ indent ++ o.tactic ++ lit " [" ++ s.justification ++ lit "]"
  if o.maxLineLength.atLeast (s.lhs.length + s.rhs.length) then
    s.lhs ++ lit " = " ++ s.rhs ++ lit " " ++ proof
  else
    Layout.wrapSide s.lhs indent o.maxLineLength ++ lit " =\n" ++ indent ++
      Layout.wrapSide s.rhs indent o.maxLineLength ++ lit " " ++ proof

/-- A chain as text. -/
def writeAll (o : Options) (steps : List CalcStep) : Text := join separator (steps.map (write o))

end CalcStep

end MagmaTrace
