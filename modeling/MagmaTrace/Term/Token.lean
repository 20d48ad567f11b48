import MagmaTrace.Text.Cut

/-! # Tokens of Lean terms

A term such as `x ◇ (y ◇ z)` is read by way of its tokens: names, the operation's sign,
the two parentheses, and the end of the text. White space only separates.
-/

namespace MagmaTrace

/-- What a token is. -/
inductive TokenKind where
  | name
  | operation
  | opening
  | closing
  | finish
  deriving DecidableEq

namespace TokenKind

/-- The word that stands for a kind of token in messages. -/
def word : TokenKind → Text
  | name => lit "IDENT"
  | operation => lit "OP"
  | opening => lit "LPAREN"
  | closing => lit "RPAREN"
  | finish => lit "EOF"

/-- The kind of a unit that is a token by itself. -/
def ofMark? (u : CodeUnit) : Option TokenKind :=
  if u = '(' then some opening
  else if u = ')' then some closing
  else if u = '◇' then some operation
  else none

end TokenKind

/-- A token with the text it was read from and where that starts. -/
structure Token where
  kind : TokenKind
  value : Text
  position : Nat
  deriving DecidableEq

namespace Token

open Text

/-- The tokens of a text that starts at `position`, up to the first unit that starts none. -/
def tokensFrom (position : Nat) (text : Text) : Except (CodeUnit × Nat) (List Token) :=
  match text with
  | [] => .ok [⟨.finish, [], position⟩]
  | u :: rest =>
    if isBlank u then tokensFrom (position + 1) rest
    else match TokenKind.ofMark? u with
      | some kind => (⟨kind, [u], position⟩ :: ·) <$> tokensFrom (position + 1) rest
      | none =>
        if isWordStart u then
          let word := u :: rest.takeWhile isWord
          (⟨.name, word, position⟩ :: ·) <$>
            tokensFrom (position + word.length) (rest.dropWhile isWord)
        else .error (u, position)
termination_by text.length
decreasing_by
  all_goals simp only [List.length_cons]
  · omega
  · omega
  · exact Nat.lt_succ_of_le (length_dropWhile_le isWord rest)

end Token

end MagmaTrace
