import MagmaTrace.Problem.Database
import MagmaTrace.Proofs.Margins
import MagmaTrace.Proofs.Numbering
import MagmaTrace.Proofs.Spread

/-! # Printed sources of the equation database

An identity is printed as a definition on a line of its own, which may go on over the lines after
it. From such a source the definitions are read back in order, each under its number and with a
text that has the words of the identity (`EquationIndex.definitionsIn_printed`).
-/

namespace MagmaTrace

open Text

namespace EquationIndex

/-- An identity of the database, with its number. -/
structure Identity where
  number : Nat
  lhs : Term
  rhs : Term
  small : number < Nat.pow 2 53
  lhsNamed : lhs.IsNamed
  rhsNamed : rhs.IsNamed

namespace Identity

def body (d : Identity) : Text := d.lhs.lean ++ lit " = " ++ d.rhs.lean

def clause (d : Identity) : Clause := Clause.ofTerms d.lhs d.rhs

/-- The beginning of a definition, up to the sign before its text. -/
def head (d : Identity) : Text := lit "equation " ++ decimal d.number ++ lit " :="

/-- A definition, with any white space between the words after the sign. -/
def IsPrinted (d : Identity) (text : Text) : Prop :=
  ∃ tail, Spread (space :: d.body) tail ∧ text = d.head ++ tail

end Identity

/-- Sources that define some identities in order. Each definition begins on a line of its own;
    between them there may be any lines without text, and white space may stand at both ends of
    every line. -/
inductive Prints : List Identity → Text → Prop where
  | blank {margin : Text} (blank : IsBlank margin) : Prints [] margin
  | last {d : Identity} {margin text ending : Text} (blankMargin : IsBlank margin)
      (printed : d.IsPrinted text) (blankEnding : IsBlank ending) :
      Prints [d] (margin ++ (text ++ ending))
  | more {d : Identity} {ds : List Identity} {margin text ending rest : Text}
      (blankMargin : IsBlank margin) (printed : d.IsPrinted text) (blankEnding : IsBlank ending)
      (others : Prints ds rest) :
      Prints (d :: ds) (margin ++ (text ++ ending ++ newline :: rest))

/-! ## Rows -/

/-- The lines of a text without the white space around them. -/
def rows (text : Text) : List Text := (splitAt newline text).map trim

theorem definitionsIn_eq (source : Text) : definitionsIn source = definitions none (rows source) := by
  rw [definitionsIn, rows, map_trim_of_mayReturn (mayReturn_lines source)]

theorem rows_append (a b : Text) : rows (a ++ newline :: b) = rows a ++ rows b := by
  simp only [rows, splitAt_append, List.map_append]

/-- A first line goes on where a text without line ends stops. -/
theorem exists_rows_of_prefix {lead : Text} (oneLine : newline ∉ lead) (text : Text) :
    ∃ first others, splitAt newline text = first :: others ∧
      rows (lead ++ text) = trim (lead ++ first) :: others.map trim := by
  obtain ⟨first, others, pieces⟩ := List.exists_cons_of_ne_nil
    (List.splitOn_ne_nil newline text)
  refine ⟨first, others, by rw [splitAt_eq_splitOn, pieces], ?_⟩
  have whole : splitAt newline (lead ++ text) = (lead ++ first) :: others := by
    induction lead with
    | nil => rw [List.nil_append, splitAt_eq_splitOn, pieces, List.nil_append]
    | cons u lead ih =>
        rw [List.mem_cons, not_or] at oneLine
        have other : u ≠ newline := Ne.symm oneLine.1
        rw [List.cons_append, splitAt, if_neg other, ih oneLine.2]
        rfl
  rw [rows, whole, List.map_cons]

/-- Rows have the words of the lines, and those without text have none. -/
theorem flatMap_spaced_rows (lines : List Text) :
    ((lines.map trim).filter (· ≠ [])).flatMap spaced = lines.flatMap spaced := by
  induction lines with
  | nil => rfl
  | cons line lines ih =>
      by_cases empty : trim line = []
      · have wordless : spaced line = [] := by rw [← spaced_trim, empty, spaced_nil]
        simpa [empty, wordless] using ih
      · simpa [empty, spaced_trim] using ih

/-- Rows without text count for nothing, and neither does white space before a row. -/
theorem definitions_margin {margin : Text} (blank : IsBlank margin) (begun : Option Definition)
    (text : Text) : definitions begun (rows (margin ++ text)) = definitions begun (rows text) := by
  induction margin with
  | nil => rfl
  | cons u margin ih =>
      obtain ⟨isBlank, others⟩ := List.forall_mem_cons.mp blank
      rw [← ih others]
      by_cases feed : u = newline
      · subst feed
        have empty : rows (newline :: margin ++ text) = [] :: rows (margin ++ text) :=
          rows_append [] (margin ++ text)
        rw [empty, definitions]
        rfl
      · have oneLine : newline ∉ [u] := by simpa using Ne.symm feed
        have single : IsBlank [u] := by simpa [IsBlank] using isBlank
        obtain ⟨first, later, pieces, whole⟩ := exists_rows_of_prefix oneLine (margin ++ text)
        have same : trim ([u] ++ first) = trim first := by
          rw [trim, skipBlanks_blank_append single, trim]
        have joined : u :: margin ++ text = [u] ++ (margin ++ text) := rfl
        rw [joined, whole, same, rows, pieces, List.map_cons]

/-- Lines that begin no definition go on with the one that is begun. -/
theorem definitions_goOn {lines : List Text} (goOn : ∀ line ∈ lines, start? line = none)
    (d : Definition) (more : List Text) : definitions (some d) (lines ++ more) =
      definitions (some { d with pieces := d.pieces ++ lines.filter (· ≠ []) }) more := by
  induction lines generalizing d with
  | nil => simp
  | cons line lines ih =>
      obtain ⟨here, later⟩ := List.forall_mem_cons.mp goOn
      rw [List.cons_append, definitions, here]
      by_cases empty : line = []
      · subst empty
        simpa using ih later d
      · simp only [empty, if_false, Option.map_some, ih later]
        simp [empty]

/-! ## Definitions -/

def colon : CodeUnit := ':'

/-- A line that begins a definition has a colon. -/
theorem colon_mem_of_start? {line : Text} {d : Definition} (h : start? line = some d) :
    colon ∈ line := by
  simp only [start?, Option.bind_eq_bind, Option.bind_eq_some_iff, strip?_eq_some, Prod.exists] at h
  obtain ⟨_, rfl, _, skipped, digits, rest, counted, body, sign, -⟩ := h
  obtain ⟨⟨gap, _⟩, ran, rfl⟩ := Option.map_eq_some_iff.mp skipped
  obtain ⟨rfl, -⟩ := run?_eq_some.mp ran
  obtain ⟨rfl, -⟩ := run?_eq_some.mp counted
  have within : colon ∈ skipBlanks rest := by
    rw [sign]
    exact List.mem_append_left _ (by decide)
  have inRest : colon ∈ rest := (List.dropWhile_suffix _).subset within
  simp [inRest]

namespace Identity

variable (d : Identity)

theorem colon_notMem_body : colon ∉ d.body := by
  intro mem
  rcases List.mem_append.mp mem with within | right
  · rcases List.mem_append.mp within with left | sign
    · exact absurd (Term.mem_lean d.lhsNamed left) (by decide)
    · exact absurd sign (by decide)
  · exact absurd (Term.mem_lean d.rhsNamed right) (by decide)

/-- The first line of a definition begins it. -/
theorem start?_head (first : Text) :
    start? (trim (d.head ++ first)) = some ⟨.finite d.number, [trim first]⟩ := by
  have parts (rest : Text) : d.head ++ rest =
      lit "equation" ++ (lit " " ++ (decimal d.number ++ (lit " " ++ (lit ":=" ++ rest)))) := by
    have lead : lit "equation " = lit "equation" ++ lit " " := by decide
    have sign : lit " :=" = lit " " ++ lit ":=" := by decide
    simp only [head, lead, sign, List.append_assoc]
  obtain ⟨ending, dropped, blank⟩ := exists_dropped isBlank first
  have trimmed : trim (d.head ++ first) = d.head ++ dropEndWhile isBlank first := by
    have sign : IsSolid (lit ":=") := by decide
    have front : skipBlanks (d.head ++ first) = d.head ++ first := rfl
    have kept := dropEndWhile_append_solid sign (by decide)
      (lit "equation" ++ (lit " " ++ (decimal d.number ++ lit " "))) first
    rw [trim, front, parts, parts]
    simpa only [List.append_assoc] using kept
  have textAfter : trim (dropEndWhile isBlank first) = trim first := by
    conv_rhs => rw [dropped]
    exact (trim_append_blank blank _).symm
  have numeral : Numeral.ofDigits (decimal d.number) = .finite d.number := by
    rw [Numeral.ofDigits, ofDigits_decimal, Numeral.ofNat, if_pos d.small]
  have stop : ∀ u ∈ (lit " " ++ (lit ":=" ++ dropEndWhile isBlank first)).head?,
      isDigit u = false := by
    rintro u ⟨⟩
    decide
  obtain ⟨skipped, counted⟩ := read_number (by decide) isBlank_space (decimal_ne_nil d.number)
    (isDigit_of_mem_decimal d.number) stop
  have word : strip? (lit "equation") (d.head ++ dropEndWhile isBlank first) = some
      (lit " " ++ (decimal d.number ++ (lit " " ++ (lit ":=" ++ dropEndWhile isBlank first)))) :=
    strip?_eq_some.mpr (parts _)
  have sign : strip? (lit ":=") (skipBlanks (lit " " ++ (lit ":=" ++ dropEndWhile isBlank first))) =
      some (dropEndWhile isBlank first) := strip?_eq_some.mpr rfl
  simp only [trimmed, start?, word, skipped, counted, sign, Option.bind_eq_bind, Option.bind_some,
    Option.pure_def, numeral, textAfter]

/-- The rows of a definition make one, with the words that come after the sign. -/
theorem definitions_printed {text : Text} (noColon : colon ∉ text) (begun : Option Definition)
    (more : List Text) : ∃ made : Definition, made.number = .finite d.number ∧
      spaced made.entry.2 = spaced text ∧
      definitions begun (rows (d.head ++ text) ++ more) =
        begun.toList.map Definition.entry ++ definitions (some made) more := by
  have oneLine : newline ∉ d.head := by
    intro mem
    rcases List.mem_append.mp mem with within | sign
    · rcases List.mem_append.mp within with word | digit
      · exact absurd word (by decide)
      · exact absurd (isDigit_of_mem_decimal _ _ digit) (by decide)
    · exact absurd sign (by decide)
  obtain ⟨first, others, pieces, whole⟩ := exists_rows_of_prefix oneLine text
  have goOn : ∀ line ∈ others.map trim, start? line = none := by
    intro line mem
    obtain ⟨piece, among, rfl⟩ := List.mem_map.mp mem
    rw [Option.eq_none_iff_forall_ne_some]
    intro found begins
    have line : piece <:+: text := by
      have joined : piece <:+: join [newline] (splitAt newline text) := by
        rw [pieces]
        exact infix_join_of_mem (List.mem_cons_of_mem first among)
      rwa [splitAt_eq_splitOn, join, List.intercalate_splitOn] at joined
    exact noColon (line.subset ((infix_trim piece).subset (colon_mem_of_start? begins)))
  refine ⟨⟨.finite d.number, trim first :: (others.map trim).filter (· ≠ [])⟩, rfl, ?_, ?_⟩
  · have separator : lit " " = [space] := by decide
    rw [Definition.entry, spaced_trim, separator, spaced_join (by decide), List.flatMap_cons,
      spaced_trim, flatMap_spaced_rows, ← List.flatMap_cons, ← pieces, spaced_splitAt]
  · rw [whole, List.cons_append, definitions, d.start?_head]
    dsimp only
    rw [definitions_goOn goOn]
    rfl

theorem IsPrinted.exists_tail {d : Identity} {text : Text} (h : d.IsPrinted text) {ending : Text}
    (blank : IsBlank ending) : ∃ tail, text ++ ending = d.head ++ tail ∧ colon ∉ tail ∧
      spaced tail = spaced d.body := by
  obtain ⟨tail, spread, rfl⟩ := h
  have notBlank : isBlank colon = false := by decide
  have gap : IsBlank [space] := by decide
  refine ⟨tail ++ ending, List.append_assoc .., ?_, ?_⟩
  · rw [← mem_solid notBlank, solid_append, spread.solid_eq, solid_of_isBlank blank,
      List.append_nil, mem_solid notBlank, List.mem_cons, not_or]
    exact ⟨by decide, d.colon_notMem_body⟩
  · rw [spaced_append_gap blank, spread.spaced_eq]
    exact spaced_gap gap d.body

end Identity

/-- An entry that a source makes of an identity. -/
structure Stores (d : Identity) (entry : Numeral × Text) : Prop where
  number : entry.1 = .finite d.number
  words : spaced entry.2 = spaced d.body

theorem definitions_of_prints {ds : List Identity} {source : Text} (h : Prints ds source)
    (begun : Option Definition) : ∃ entries,
      definitions begun (rows source) = begun.toList.map Definition.entry ++ entries ∧
        List.Forall₂ Stores ds entries := by
  -- By the definitions in order; each is complete when the next begins or the source ends.
  induction h generalizing begun with
  | @blank margin blank =>
      have none := definitions_margin blank begun []
      rw [List.append_nil] at none
      exact ⟨[], by rw [none, List.append_nil]; rfl, .nil⟩
  | @last d margin text ending blankMargin printed blankEnding =>
      obtain ⟨tail, whole, noColon, words⟩ := printed.exists_tail blankEnding
      obtain ⟨made, number, same, defines⟩ := d.definitions_printed noColon begun []
      rw [List.append_nil] at defines
      refine ⟨[made.entry], ?_, .cons ⟨number, same.trans words⟩ .nil⟩
      rw [definitions_margin blankMargin, whole, defines]
      rfl
  | @more d ds margin text ending rest blankMargin printed blankEnding _ ih =>
      obtain ⟨tail, whole, noColon, words⟩ := printed.exists_tail blankEnding
      obtain ⟨made, number, same, defines⟩ := d.definitions_printed noColon begun (rows rest)
      obtain ⟨entries, others, stores⟩ := ih (some made)
      refine ⟨made.entry :: entries, ?_, .cons ⟨number, same.trans words⟩ stores⟩
      rw [definitions_margin blankMargin, whole, rows_append, defines, others]
      rfl

/-- The definitions of a printed source are the identities in order. -/
theorem definitionsIn_printed {ds : List Identity} {source : Text} (h : Prints ds source) :
    List.Forall₂ Stores ds (definitionsIn source) := by
  obtain ⟨entries, defines, stores⟩ := definitions_of_prints h none
  have all : definitionsIn source = entries := by
    rw [definitionsIn_eq, defines]
    rfl
  exact all ▸ stores

end EquationIndex

end MagmaTrace
