import MagmaTrace.Diagnostic.Kind
import MagmaTrace.Term.Token

/-! # Malformed texts

The reasons why a text cannot be read, as causes. Their wording is in `Fault.message` and
`Lack.message`; the place and the hint are added when a cause becomes a diagnostic.
-/

namespace MagmaTrace

open Text

/-- Why reading cannot go on at some offset. -/
inductive Fault where
  /-- The text ends where a term should start. -/
  | unexpectedEnd
  /-- A comma or a closing parenthesis of the operation is not there. -/
  | expectedMark (mark : CodeUnit)
  /-- A unit that starts no term. -/
  | notVariable (found : CodeUnit)
  /-- More text after a complete term. -/
  | extraText (text : Text)
  /-- A unit that starts no token. -/
  | strayUnit (found : CodeUnit)
  /-- A token after a complete term. -/
  | strayToken (value : Text)
  /-- A parenthesis that is not closed. -/
  | unclosed (found : TokenKind)
  /-- A token that starts no term. -/
  | notOperand (found : TokenKind)
  deriving DecidableEq

/-- The wording of a fault found at an offset. -/
def Fault.message (offset : Nat) : Fault → Text
  | unexpectedEnd => lit "Unexpected end while parsing term"
  | expectedMark mark =>
    lit "Expected '" ++ [mark] ++ lit "' in op(...) at pos " ++ decimal offset
  | notVariable found => lit "Expected variable but found '" ++ [found] ++ lit "'"
  | extraText text => lit "Extra characters after parsed term: '" ++ text ++ lit "'"
  | strayUnit found => lit "Unexpected character '" ++ [found] ++ lit "'"
  | strayToken value => lit "Unexpected token '" ++ value ++ lit "'"
  | unclosed found => lit "Expected ')' but got " ++ found.word
  | notOperand found => lit "Expected variable or '(' but got " ++ found.word

/-- The two terms that stand beside a justification. -/
inductive Neighbour where
  | left
  | right
  deriving DecidableEq

/-- What a text as a whole does not have. -/
inductive Lack where
  /-- An equation without an equals sign. -/
  | equals
  /-- A justification without a term beside it. -/
  | neighbour (side : Neighbour)
  deriving DecidableEq

/-- The wording of what is not there. -/
def Lack.message : Lack → Text
  | equals => lit "Expected '=' in equation"
  | neighbour .left => lit "Justification has no left-hand term"
  | neighbour .right => lit "Justification has no right-hand term"

/-- A text that cannot be read, with the reason and, unless the whole text is to blame, the
    offset where reading stopped. -/
inductive SyntaxError where
  | located (fault : Fault) (input : Text) (offset : Nat)
  | whole (lack : Lack) (input : Text)
  deriving DecidableEq

namespace SyntaxError

def input : SyntaxError → Text
  | located _ input _ => input
  | whole _ input => input

def offset? : SyntaxError → Option Nat
  | located _ _ offset => some offset
  | whole _ _ => none

def message : SyntaxError → Text
  | located fault _ offset => fault.message offset
  | whole lack _ => lack.message

def diagnostic {δ : Type} (e : SyntaxError) : Diagnostic δ :=
  Diagnostic.parseError e.message e.input e.offset?

end SyntaxError

/-- A malformed text on a line of a transcript: the line's number, the text to show for it,
    and what is wrong. -/
structure LineError where
  line : Nat
  source : Text
  error : SyntaxError
  deriving DecidableEq

def LineError.diagnostic {δ : Type} (e : LineError) : Diagnostic δ :=
  e.error.diagnostic.atLine e.line e.source

end MagmaTrace
