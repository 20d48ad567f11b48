import MagmaTrace.Text.Cut

/-! # Files of assignments

A file gives texts to names by assignments `NAME=value`, each of which begins a line. A value
ends with its line or at a comment, unless it stands in quotation marks: then it may hold both,
and a backslash before a mark keeps the mark in the value.
-/

namespace MagmaTrace

open Text

/-- A name and the text that is assigned to it. -/
structure Assignment where
  name : Text
  value : Text
  deriving DecidableEq

namespace Assignment

/-- A text in which every line ends with a line feed alone. -/
def unifyLines : Text → Text
  | [] => []
  | carriageReturn :: newline :: rest => newline :: unifyLines rest
  | carriageReturn :: rest => newline :: unifyLines rest
  | u :: rest => u :: unifyLines rest

/-! ## Names -/

/-- The units of a variable's name. -/
def isNameUnit (u : CodeUnit) : Bool := isWord u || u == '.' || u == '-'

/-- What follows the sign between a name and its value: an equals sign, before which there may
    be white space, or a colon with white space after it. -/
def afterSign? (text : Text) : Option Text :=
  (strip? (lit "=") (skipBlanks text)).or <|
    match text with
    | colon :: blank :: rest => if colon = ':' ∧ isBlank blank then some rest else none
    | _ => none

/-- The name that is assigned to at the start of a text, and what follows the sign. -/
def name? (text : Text) : Option (Text × Text) :=
  match run? isNameUnit text with
  | none => none
  | some (name, rest) => (afterSign? rest).map (name, ·)

/-- The same where the word `export` may stand before the name. -/
def exported? (text : Text) : Option (Text × Text) :=
  (((strip? (lit "export") text).bind skipSomeBlanks?).bind name?).or (name? text)

/-! ## Values -/

/-- The marks that may stand around a value: apostrophe, quotation mark and grave accent. -/
def quoteMarks : List CodeUnit := [0x27, 0x22, 0x60]

def backslash : CodeUnit := 0x5C

def commentMark : CodeUnit := '#'

/-- The ways to end a quotation, each with what is inside and what follows. It ends at the
    first mark without a backslash before it; failing that, at one with a backslash, of which
    the last comes first. -/
def endings (mark : CodeUnit) : (escaped : Bool) → Text → List (Text × Text)
  | _, [] => []
  | escaped, u :: rest =>
    let longer := (endings mark (u == backslash) rest).map fun e => (u :: e.1, e.2)
    if u = mark then (if escaped then longer ++ [([], rest)] else [([], rest)])
    else longer

/-- Whether nothing but white space and a comment follows on the line. -/
def endsLine (text : Text) : Bool :=
  let after := skipBlanks text
  after = [] || after.head? == some commentMark || (text.takeWhile isBlank).any isLineEnd

/-- The quotation at the start of a text, with its marks, and what follows. -/
def quotation? (text : Text) : Option (Text × Text) :=
  match text with
  | [] => none
  | mark :: rest =>
    if quoteMarks.contains mark then
      ((endings mark false rest).find? (endsLine ·.2)).map fun e => (mark :: e.1 ++ [mark], e.2)
    else none

/-- The units of a value that is no quotation. -/
def isPlain (u : CodeUnit) : Bool := u != commentMark && u != newline

/-- The value at the start of a text as it is written, and what follows. -/
def written (text : Text) : Text × Text :=
  (quotation? (skipBlanks text)).getD (text.takeWhile isPlain, text.dropWhile isPlain)

/-- The text up to the last mark that ends a line, and the text after it. -/
def lastEnding? (mark : CodeUnit) : Text → Option (Text × Text)
  | [] => none
  | u :: rest =>
    match lastEnding? mark rest with
    | some (inside, after) => some (u :: inside, after)
    | none => if u = mark ∧ rest.head?.all isLineEnd then some ([], rest) else none

theorem length_of_lastEnding? {mark : CodeUnit} {text inside after : Text}
    (h : lastEnding? mark text = some (inside, after)) : after.length < text.length := by
  induction text generalizing inside after with
  | nil => simp [lastEnding?] at h
  | cons u rest ih =>
    unfold lastEnding? at h
    split at h
    · next found => simp at h; have := ih found; simp only [List.length_cons, ← h.2]; omega
    · split at h
      · simp at h; simp [← h.2]
      · simp at h

/-- A text without the marks around it. A mark that starts a line goes together with the last
    of its kind that ends one. -/
def unquote (startsLine : Bool) (text : Text) : Text :=
  match text with
  | [] => []
  | u :: rest =>
    if startsLine ∧ quoteMarks.contains u then
      match _found : lastEnding? u rest with
      | some (inside, after) => inside ++ unquote false after
      | none => u :: unquote false rest
    else u :: unquote (isLineEnd u) rest
termination_by text.length
decreasing_by
  · have := length_of_lastEnding? _found; simp only [List.length_cons]; omega
  all_goals simp

/-- A text with its line ends written out: `\n` and `\r` stand for them. -/
def expand : Text → Text
  | [] => []
  | [u] => [u]
  | u :: v :: rest =>
    if u = backslash ∧ v = 'n' then newline :: expand rest
    else if u = backslash ∧ v = 'r' then carriageReturn :: expand rest
    else u :: expand (v :: rest)

/-- The value that a written one denotes. Line ends are written out between quotation marks,
    but not between the other marks. -/
def denoted (raw : Text) : Text :=
  let text := trim raw
  let inside := unquote true text
  if text.head? = some 0x22 then expand inside else inside

/-! ## Assignments -/

/-- The assignment at the start of a text and what follows it. -/
def here? (text : Text) : Option (Assignment × Text) :=
  match exported? text with
  | none => none
  | some (name, rest) =>
    let (raw, rest) := written rest
    some (⟨name, denoted raw⟩, rest)

theorem length_of_run? {p : CodeUnit → Bool} {text run rest : Text}
    (h : run? p text = some (run, rest)) : rest.length < text.length := by
  cases text with
  | nil => simp [run?] at h
  | cons u more =>
    unfold run? at h
    rw [List.takeWhile_cons] at h
    split at h
    · simp at h
    · next start =>
      split at start
      · next pu =>
        simp only [Option.some.injEq, Prod.mk.injEq] at h
        rw [← h.2, List.dropWhile_cons, if_pos pu, List.length_cons]
        exact Nat.lt_succ_of_le (length_dropWhile_le p more)
      · simp at start

theorem length_of_afterSign? {text rest : Text} (h : afterSign? text = some rest) :
    rest.length < text.length := by
  unfold afterSign? at h
  rw [Option.or_eq_some_iff] at h
  rcases h with h | ⟨-, h⟩
  · have := length_of_strip? h
    have := length_skipBlanks_le text
    have : (lit "=").length = 1 := by decide
    omega
  · split at h
    · split at h
      · simp at h; simp only [List.length_cons, ← h]; omega
      · simp at h
    · simp at h

theorem length_of_name? {text name rest : Text} (h : name? text = some (name, rest)) :
    rest.length < text.length := by
  unfold name? at h
  split at h
  · simp at h
  · next found =>
    simp only [Option.map_eq_some_iff, Prod.mk.injEq] at h
    obtain ⟨more, sign, -, rfl⟩ := h
    exact Nat.lt_trans (length_of_afterSign? sign) (length_of_run? found)

theorem length_of_exported? {text name rest : Text} (h : exported? text = some (name, rest)) :
    rest.length < text.length := by
  unfold exported? at h
  rw [Option.or_eq_some_iff] at h
  rcases h with h | ⟨-, h⟩
  · simp only [Option.bind_eq_some_iff] at h
    obtain ⟨body, ⟨more, export_, blanks⟩, named⟩ := h
    have := length_of_strip? export_
    have := length_of_name? named
    simp only [skipSomeBlanks?, Option.map_eq_some_iff, Prod.exists] at blanks
    obtain ⟨run, rest', found, rfl⟩ := blanks
    have := length_of_run? found
    omega
  · exact length_of_name? h

theorem length_of_mem_endings {mark : CodeUnit} {escaped : Bool} {text : Text}
    {e : Text × Text} (h : e ∈ endings mark escaped text) : e.2.length < text.length := by
  induction text generalizing escaped e with
  | nil => simp [endings] at h
  | cons u rest ih =>
    have longer : ∀ e ∈ (endings mark (u == backslash) rest).map fun e => (u :: e.1, e.2),
        e.2.length < rest.length + 1 := by
      intro e he
      obtain ⟨inner, found, rfl⟩ := List.mem_map.1 he
      exact Nat.lt_succ_of_lt (@ih (u == backslash) inner found)
    grind [endings]

theorem length_written_le (text : Text) : (written text).2.length ≤ text.length := by
  unfold written
  cases found : quotation? (skipBlanks text) with
  | none => exact length_dropWhile_le isPlain text
  | some e =>
    have := length_skipBlanks_le text
    unfold quotation? at found
    split at found
    · simp at found
    · next mark rest start =>
      split at found
      · obtain ⟨ending, chosen, rfl⟩ := Option.map_eq_some_iff.1 found
        have := length_of_mem_endings (List.mem_of_find?_eq_some chosen)
        have := congrArg List.length start
        simp only [List.length_cons] at this
        simp only [Option.getD_some]
        omega
      · simp at found

theorem length_of_here? {text rest : Text} {a : Assignment} (h : here? text = some (a, rest)) :
    rest.length < text.length := by
  unfold here? at h
  split at h
  · simp at h
  · next name more found =>
    simp only [Option.some.injEq, Prod.mk.injEq] at h
    have := length_of_exported? found
    have := length_written_le more
    rw [← h.2]
    omega

/-- The assignments in a text that starts a line; a line that holds none is passed over. -/
def allFrom (text : Text) : List Assignment :=
  match _found : here? (skipBlanks text) with
  | some (a, rest) => a :: allFrom rest
  | none =>
    match _onward : (skipBlanks text).dropWhile (fun u => !isLineEnd u) with
    | [] => []
    | _ :: rest => allFrom rest
termination_by text.length
decreasing_by
  · exact Nat.lt_of_lt_of_le (length_of_here? _found) (length_skipBlanks_le text)
  · have := length_dropWhile_le (fun u => !isLineEnd u) (skipBlanks text)
    have := length_skipBlanks_le text
    rw [_onward, List.length_cons] at *
    omega

/-- The assignments of a file, in order. -/
def all (file : Text) : List Assignment := allFrom (unifyLines file)

end Assignment

end MagmaTrace
