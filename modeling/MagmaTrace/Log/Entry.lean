import MagmaTrace.Number.Numeral
import MagmaTrace.Text.Cut

/-! # Entries of prover logs

A log line `Vampire: <n> Minimized: <m>` gives the length of a proof as it was found and after
minimization. Where no minimization was made, `N/A` stands for the second number.
-/

namespace MagmaTrace

open Text

/-- The two lengths of one proof. -/
structure LogEntry where
  found : Float
  minimized : Float

namespace LogEntry

/-- The entry at the start of a text. -/
def here? (text : Text) : Option LogEntry := do
  let (digits, rest) ← run? isDigit (← skipSomeBlanks? (← strip? (lit "Vampire:") text))
  let found := (Numeral.ofDigits digits).toFloat
  let rest ← skipSomeBlanks? (← strip? (lit "Minimized:") (← skipSomeBlanks? rest))
  if startsWith (lit "N/A") rest then return ⟨found, found⟩
  else
    let (digits, _) ← run? isDigit rest
    return ⟨found, (Numeral.ofDigits digits).toFloat⟩

/-- The first entry on a line. -/
def ofLine? (line : Text) : Option LogEntry := first? here? line

/-- The entries of a log, one a line at most. -/
def ofLog (log : Text) : List LogEntry := (lines log).filterMap ofLine?

end LogEntry

end MagmaTrace
