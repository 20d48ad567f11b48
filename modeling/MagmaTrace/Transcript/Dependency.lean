import MagmaTrace.Text.Case
import MagmaTrace.Text.Cut
import MagmaTrace.Text.Order

/-! # What a proof depends on

A line of a proof cites a declared statement by its token in parentheses, such as
`(single_lemma_3)` or `(a1)`, and a proved one by mention, `by lemma 4`. The second kind
is filed under the name `Lemma_4`. A declaration may also hint at its dependencies.
-/

namespace MagmaTrace

open Text

/-- What kind of statement a dependency names. -/
inductive DependencyKind where
  /-- The hypothesis of the whole theorem. -/
  | hypothesis
  /-- A lemma that the prover used once. -/
  | single
  /-- A lemma out of the prover's history. -/
  | history
  /-- A lemma proved in a block of the transcript. -/
  | mentioned
  /-- Any other name. -/
  | named
  deriving DecidableEq

/-- A cited name with the kind of statement it stands for. -/
structure Dependency where
  kind : DependencyKind
  name : Text
  deriving DecidableEq

namespace Dependency

/-- The token of the hypothesis. -/
def hypothesisToken : Text := lit "a1"

/-- A fixed beginning and a number after it, with what follows. -/
def numbered? (lead text : Text) : Option (Text × Text) := do
  let (digits, rest) ← run? isDigit (← strip? lead text)
  return (lead ++ digits, rest)

def single? (text : Text) : Option (Text × Text) := numbered? (lit "single_lemma_") text

def history? (text : Text) : Option (Text × Text) := numbered? (lit "history_lemma_") text

/-- The token of a declared statement at the start of a text, with what follows. -/
def token? (text : Text) : Option (Text × Text) :=
  (single? text).or <| (history? text).or <|
    (strip? hypothesisToken text).map (hypothesisToken, ·)

/-- A token in parentheses at the start of a text. -/
def reference? (text : Text) : Option Text := do
  let (token, rest) ← token? (← strip? (lit "(") text)
  let _ ← strip? (lit ")") rest
  return token

/-- The tokens in parentheses in a text, from left to right. -/
def references (text : Text) : List Text := scan reference? text

/-- The name under which the lemma of a given number is filed. -/
def lemmaName (digits : Text) : Text := lit "Lemma_" ++ digits

/-- The mention of a lemma at the start of a text, in any case. -/
def mention? (text : Text) : Option Text := do
  let (digits, _) ← run? isDigit (← stripCaseless? (lit "by lemma ") text)
  return lemmaName digits

/-- The lemmas mentioned in a text, from left to right. -/
def mentions (text : Text) : List Text := scan mention? text

/-- Whether a text is nothing but what a reader takes. -/
private def isAll (taken : Option (Text × Text)) : Bool :=
  match taken with
  | some (_, []) => true
  | _ => false

/-- The kind of statement a name stands for. -/
def kindOf (name : Text) : DependencyKind :=
  if name = hypothesisToken then .hypothesis
  else if isAll (single? name) then .single
  else if isAll (history? name) then .history
  else if isAll (numbered? (lemmaName []) name) then .mentioned
  else .named

/-- The dependency on a name. -/
def ofName (name : Text) : Dependency := ⟨kindOf name, name⟩

/-- The names cited on some lines, in order of first mention. -/
def cited (lines : List Text) : List Text :=
  firstMentions (lines.flatMap fun line => references line ++ mentions line)

/-- What some lines of a proof depend on, in increasing order of name. -/
def ofLines (lines : List Text) : List Dependency := (sort (cited lines)).map ofName

end Dependency

end MagmaTrace
