import MagmaTrace.Term.Basic
import MagmaTrace.Term.Reading

/-! # Reading terms in the prover's form

    term = "op(" term "," term ")"  |  name

White space may stand before each of these parts. Offsets are counted in the whole text,
also when only a part of it is read.
-/

namespace MagmaTrace

open Text

/-- Take a given mark off the start of a text, after white space. -/
def readMark (mark : CodeUnit) (text : Text) : Except (Stuck CodeUnit) (Reading Unit text) :=
  match found : skipBlanks text with
  | [] => .error ⟨.expectedMark mark, []⟩
  | u :: rest =>
    if u = mark then
      .ok ⟨(), rest, by have := length_skipBlanks_le text; simp [found] at this; omega⟩
    else .error ⟨.expectedMark mark, u :: rest⟩

/-- Take a name off the start of a text: a letter, then as many word units as there are. -/
def readName (text : Text) : Except (Stuck CodeUnit) (Reading Text text) :=
  match text with
  | [] => .error ⟨.unexpectedEnd, []⟩
  | u :: rest =>
    if isLetter u then
      .ok ⟨u :: rest.takeWhile isWord, rest.dropWhile isWord,
        Nat.lt_succ_of_le (length_dropWhile_le isWord rest)⟩
    else .error ⟨.notVariable u, u :: rest⟩

namespace Term

/-- Take a term off the start of a text. -/
def read (text : Text) : Except (Stuck CodeUnit) (Reading Term text) :=
  have atStart := length_skipBlanks_le text
  match opened : strip? (lit "op(") (skipBlanks text) with
  | some inside =>
    have atInside := length_of_strip? opened
    match read inside with
    | .error e => .error e
    | .ok left =>
      have atComma := left.shorter
      match readMark ',' left.rest with
      | .error e => .error e
      | .ok comma =>
        have afterComma := comma.shorter
        match read comma.rest with
        | .error e => .error e
        | .ok right =>
          match readMark ')' right.rest with
          | .error e => .error e
          | .ok close =>
            .ok ⟨.op left.value right.value, close.rest, by
              have := right.shorter; have := close.shorter; omega⟩
  | none =>
    match readName (skipBlanks text) with
    | .error e => .error e
    | .ok name => .ok ⟨.var name.value, name.rest, Nat.lt_of_lt_of_le name.shorter atStart⟩
termination_by text.length
decreasing_by
  all_goals
    have : (lit "op(").length = 3 := by decide
    omega

/-- Read a term from an offset on; the answer's offset is the one just past the term. -/
def readAt (text : Text) (start : Nat) : Except SyntaxError (Term × Nat) :=
  let body := text.drop start
  match read body with
  | .error e => .error (.located e.fault text (start + (body.length - e.rest.length)))
  | .ok r => .ok (r.value, start + (body.length - r.rest.length))

/-- What may follow a complete side of an equation: white space and periods. -/
def isTrailing (u : CodeUnit) : Bool := isBlank u || u == '.'

/-- Read the term that takes up the whole text between two offsets, apart from white space
    before it and white space and periods after it. -/
def readBetween (text : Text) (start stop : Nat) : Except SyntaxError Term :=
  let inside := (text.take stop).drop start
  let kept := if stop ≤ text.length then dropEndWhile isTrailing inside else inside
  match read kept with
  | .error e =>
    .error (.located e.fault ((text.take stop).take start ++ kept)
      (start + (kept.length - e.rest.length)))
  | .ok r =>
    let extra := skipBlanks r.rest
    if extra = [] ∧ stop ≤ text.length then .ok r.value
    else .error (.located (.extraText extra) text (start + (kept.length - extra.length)))

end Term

end MagmaTrace
