import MagmaTrace.Term.Basic
import MagmaTrace.Term.Reading

/-! # Reading terms of a Lean script

    term = atom { "◇" atom }
    atom = name  |  "(" term ")"

The operation associates to the left. Tokens after the first end token are never looked at,
and where the tokens run out the end of the text is found.
-/

namespace MagmaTrace

namespace Token

mutual

/-- Take a term off the start of a list of tokens. -/
def readTerm (tokens : List Token) : Except (Stuck Token) (Reading Term tokens) :=
  match readAtom tokens with
  | .error e => .error e
  | .ok first => have := first.shorter; readMore first
termination_by 2 * tokens.length + 2

/-- Go on with the operands that follow a term already read. -/
def readMore {tokens : List Token} (left : Reading Term tokens) :
    Except (Stuck Token) (Reading Term tokens) :=
  match onward : left.rest with
  | [] => .ok left
  | token :: rest =>
    if token.kind = .operation then
      match readAtom rest with
      | .error e => .error e
      | .ok right =>
        have onwardLength := congrArg List.length onward
        have atRight := right.shorter
        readMore ⟨.op left.value right.value, right.rest, by
          have := left.shorter; simp only [List.length_cons] at onwardLength; omega⟩
    else .ok left
termination_by 2 * left.rest.length + 1
decreasing_by
  · have := congrArg List.length onward
    simp only [List.length_cons] at this; omega
  · simp only [List.length_cons] at onwardLength; omega

/-- Take a name or a term in parentheses off the start of a list of tokens. -/
def readAtom (tokens : List Token) : Except (Stuck Token) (Reading Term tokens) :=
  match tokens with
  | [] => .error ⟨.notOperand .finish, []⟩
  | token :: rest =>
    match token.kind with
    | .name => .ok ⟨.var token.value, rest, by simp⟩
    | .opening =>
      match readTerm rest with
      | .error e => .error e
      | .ok inner =>
        match after : inner.rest with
        | [] => .error ⟨.unclosed .finish, []⟩
        | close :: outside =>
          if close.kind = .closing then
            .ok ⟨inner.value, outside, by
              have := inner.shorter; simp only [after, List.length_cons] at this ⊢; omega⟩
          else .error ⟨.unclosed close.kind, close :: outside⟩
    | kind => .error ⟨.notOperand kind, token :: rest⟩
termination_by 2 * tokens.length + 1

end

/-- The position at which a reader of tokens is stuck; past the last token it is the end of
    the text. -/
def positionOf (text : Text) : List Token → Nat
  | [] => text.length
  | token :: _ => token.position

/-- Read the tokens of a text as one term. -/
def parse (tokens : List Token) (text : Text) : Except SyntaxError Term :=
  match readTerm tokens with
  | .error e => .error (.located e.fault text (positionOf text e.rest))
  | .ok r =>
    match r.rest with
    | [] => .ok r.value
    | token :: _ =>
      if token.kind = .finish then .ok r.value
      else .error (.located (.strayToken token.value) text token.position)

/-- The tokens of a text, with an end token after the last. -/
def ofText (text : Text) : Except SyntaxError (List Token) :=
  match tokensFrom 0 text with
  | .error (found, position) => .error (.located (.strayUnit found) text position)
  | .ok tokens => .ok tokens

end Token

/-- Read a text as one term of a Lean script. -/
def Term.ofLean (text : Text) : Except SyntaxError Term := do
  Token.parse (← Token.ofText text) text

end MagmaTrace
