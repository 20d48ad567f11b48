import MagmaTrace.Proofs.Manuscript
import MagmaTrace.Proofs.Numbering

/-! # Lines of a header

Each kind of line that a header is printed on is read as what it was printed from, and the scanner
records just that.
-/

namespace MagmaTrace

open Text

namespace Text

/-- All of a text stands before a mark that does not occur in it. -/
theorem before_of_absent {mark text : Text} (h : ¬ mark <:+: text) : before mark text = text := by
  induction text with
  | nil => rfl
  | cons u rest ih =>
      have notHere : startsWith mark (u :: rest) = false := by
        rw [startsWith, Option.isSome_eq_false_iff, Option.isNone_iff_eq_none,
          Option.eq_none_iff_forall_ne_some]
        intro more found
        exact h ⟨[], more, (strip?_eq_some.mp found).symm⟩
      have notLater : ¬ mark <:+: rest := fun later => h (List.infix_cons later)
      rw [before, notHere, ih notLater]
      rfl

/-- A list with spaces after its commas is cut at the commas. -/
theorem splitAt_comma {names : List Text} (nonempty : names ≠ [])
    (noComma : ∀ name ∈ names, Term.comma ∉ name) :
    splitAt Term.comma (lit " " ++ join (lit ", ") names) = names.map (lit " " ++ ·) := by
  induction names with
  | nil => exact absurd rfl nonempty
  | cons name more ih =>
      have clear : Term.comma ∉ lit " " ++ name := by
        intro mem
        rcases List.mem_append.mp mem with space | inside
        · exact absurd space (by decide)
        · exact noComma name List.mem_cons_self inside
      by_cases last : more = []
      · subst more
        rw [join_singleton, splitAt_of_not_mem clear]
        rfl
      · have parts : lit " " ++ join (lit ", ") (name :: more) =
            (lit " " ++ name) ++ Term.comma :: (lit " " ++ join (lit ", ") more) := by
          have separator : lit ", " = Term.comma :: lit " " := rfl
          rw [join_cons last, separator]
          simp only [List.append_assoc, List.cons_append]
        rw [parts, splitAt_append_mark clear,
          ih last fun name mem => noComma name (List.mem_cons_of_mem _ mem)]
        rfl

end Text

namespace Equation

variable (e : Equation)

theorem mem_text {u : CodeUnit} (mem : u ∈ e.text) : isWord u = true ∨ u ∈ lit "(,) =" := by
  have lettered : ∀ name ∈ e.expression.names, IsIdentifier name := by
    intro name among
    rcases List.mem_append.mp among with onLeft | onRight
    · exact e.lhsLettered name onLeft
    · exact e.rhsLettered name onRight
  have word : (lit "op").all isWord = true := by decide
  rcases Expression.mem_write (e := e.expression) mem with ⟨name, among, inside⟩ | mark
  · exact .inl ((lettered name among).isName.isWord_of_mem u inside)
  · exact (List.mem_append.mp (show u ∈ lit "op" ++ lit "(,) =" from mark)).imp_left
      (List.all_eq_true.mp word u)

theorem not_mem_text {u : CodeUnit} (notWord : isWord u = false) (notMark : u ∉ lit "(,) =") :
    u ∉ e.text := by
  intro mem
  rcases e.mem_text mem with word | mark
  · exact absurd (notWord.symm.trans word) Bool.false_ne_true
  · exact notMark mark

theorem isUnbroken_text : IsUnbroken e.text := by
  have marks : IsUnbroken (lit "(,) =") := by decide
  intro u mem
  rcases e.mem_text mem with word | mark
  · exact isLineEnd_of_not_isBlank (isBlank_of_isWord word)
  · exact marks u mark

theorem isTrimmed_text : IsTrimmed e.text := by
  have tight := Expression.isTight_write e.lhsLettered e.rhsLettered
  refine ⟨tight.ne_nil, tight.head?_not_blank, fun u final => ?_⟩
  have notTrailing := tight.ends u final
  rw [Term.isTrailing, Bool.or_eq_false_iff] at notTrailing
  exact notTrailing.1

theorem read_text {tail : Text} (trailing : ∀ u ∈ tail, Term.isTrailing u = true) :
    Expression.read (e.text ++ tail) = .ok e.expression :=
  Expression.read_write e.lhsLettered e.rhsLettered trailing

/-- An equation has no quantifier to strip. -/
theorem ofFormula_text {tail : Text} (solid : IsSolid tail)
    (trailing : ∀ u ∈ tail, Term.isTrailing u = true) :
    Expression.ofFormula (e.text ++ tail) = .ok e.expression := by
  obtain ⟨u, more, begins, letter⟩ :=
    (Expression.isTight_write e.lhsLettered e.rhsLettered).begins
  have parts : e.text ++ tail = u :: (more ++ tail) := by
    have whole : e.text = u :: more := begins
    rw [whole, List.cons_append]
  have solidHead : isBlank u = false := isBlank_of_isLetter letter
  have noMark : strip? (lit "!") (skipBlanks (e.text ++ tail)) = none := by
    rw [parts, skipBlanks, List.dropWhile_cons_of_neg (by simp [solidHead])]
    refine strip?_of_head (fun v first => ?_) []
    cases first
    rintro rfl
    exact absurd letter (by decide)
  have trimmed : trim (e.text ++ tail) = e.text ++ tail := by
    by_cases nothing : tail = []
    · rw [nothing, List.append_nil]
      exact e.isTrimmed_text.trim_eq
    · have whole := e.isTrimmed_text.around [] (.of_isSolid solid nothing)
      exact whole.trim_eq
  rw [Expression.ofFormula, Expression.stripQuantifier, Expression.afterQuantifier?, noMark]
  simp only [Option.bind_eq_bind, Option.bind_none, Option.getD_none, trimmed]
  exact e.read_text trailing

end Equation

namespace Event

theorem restOfLine?_append {gap text : Text} (blank : IsBlank gap)
    (first : ∀ u ∈ text.head?, isBlank u = false) (oneLine : IsUnbroken text) :
    restOfLine? (gap ++ text) = some text := by
  have rest : skipBlanks (gap ++ text) = text := (cut_append blank first).2
  have noEnd : text.any isLineEnd = false := by
    rw [List.any_eq_false]
    intro u mem
    rw [oneLine u mem]
    exact Bool.false_ne_true
  simp only [restOfLine?, rest, noEnd, Bool.false_eq_true, if_false]

theorem parenthesized?_append {name : Text} (nonempty : name ≠ []) (noClose : Term.closeMark ∉ name)
    (rest : Text) :
    parenthesized? (Term.openMark :: (name ++ Term.closeMark :: rest)) = some (name, rest) := by
  have opened : strip? (lit "(") (Term.openMark :: (name ++ Term.closeMark :: rest)) =
      some (name ++ Term.closeMark :: rest) := strip?_eq_some.mpr rfl
  have run : run? (· != Term.closeMark) (name ++ Term.closeMark :: rest) =
      some (name, Term.closeMark :: rest) := by
    obtain ⟨taken, dropped⟩ := cut_mark noClose rest
    obtain ⟨u, more, rfl⟩ := List.exists_cons_of_ne_nil nonempty
    simp only [run?, taken, dropped]
  have closed : strip? (lit ")") (Term.closeMark :: rest) = some rest := strip?_eq_some.mpr rfl
  have mark : (')' : CodeUnit) = Term.closeMark := rfl
  simp only [parenthesized?, opened, Option.bind_eq_bind, Option.bind_some, mark, run, closed,
    Option.pure_def]

/-- An inline axiom is read. -/
theorem axiomLine?_printed (number : Digits) (name : EnclosedName) (e : Equation) :
    axiomLine? (lit "Axiom " ++ number ++ lit " (" ++ name ++ lit "): " ++ e.text ++ lit ".") =
      some (.axiomStated name e.text) := by
  obtain ⟨digits, someDigits, all⟩ := number
  obtain ⟨name, nonempty, solid, noClose⟩ := name
  let statement : Text := e.text ++ lit "."
  let afterNumber : Text := lit " " ++ Term.openMark :: (name ++ Term.closeMark ::
    (lit ":" ++ (lit " " ++ statement)))
  have parts : lit "Axiom " ++ digits ++ lit " (" ++ name ++ lit "): " ++ e.text ++ lit "." =
      lit "Axiom" ++ (lit " " ++ (digits ++ afterNumber)) := by
    have word : lit "Axiom " = lit "Axiom" ++ lit " " := rfl
    have opens : lit " (" = lit " " ++ [Term.openMark] := rfl
    have closes : lit "): " = Term.closeMark :: (lit ":" ++ lit " ") := rfl
    simp only [word, opens, closes, afterNumber, statement, List.append_assoc, List.cons_append,
      List.nil_append]
  have wide : lit " " ≠ [] := by decide
  have stop : ∀ u ∈ afterNumber.head?, isDigit u = false := forall_mem_head?_cons (by decide) _
  obtain ⟨spaced, counted⟩ := read_number wide isBlank_space someDigits all stop
  have word : strip? (lit "Axiom") (lit "Axiom" ++ (lit " " ++ (digits ++ afterNumber))) =
      some (lit " " ++ (digits ++ afterNumber)) := strip?_eq_some.mpr rfl
  have opened : skipSomeBlanks? afterNumber = some (Term.openMark :: (name ++ Term.closeMark ::
      (lit ":" ++ (lit " " ++ statement)))) :=
    skipSomeBlanks?_append wide isBlank_space (forall_mem_head?_cons (by decide) _)
  have named := parenthesized?_append nonempty noClose (lit ":" ++ (lit " " ++ statement))
  have colon : strip? (lit ":") (lit ":" ++ (lit " " ++ statement)) = some (lit " " ++ statement) :=
    strip?_eq_some.mpr rfl
  have period : IsTrimmed (lit ".") := .of_isSolid (by decide) (by decide)
  have rest : restOfLine? (lit " " ++ statement) = some statement :=
    restOfLine?_append isBlank_space (e.isTrimmed_text.around [] period).first
      (isUnbroken_append.mpr ⟨e.isUnbroken_text, by decide⟩)
  have dropped : dropEndWhile (· == '.') statement = e.text := by
    refine dropEndWhile_append (fun u last => ?_) (List.all_eq_true.mp (by decide))
    have notTrailing := (Expression.isTight_write e.lhsLettered e.rhsLettered).ends u last
    rw [Term.isTrailing, Bool.or_eq_false_iff] at notTrailing
    exact notTrailing.2
  rw [parts]
  simp only [axiomLine?, word, spaced, counted, opened, named, colon, rest, dropped,
    Option.bind_eq_bind, Option.bind_some, Option.pure_def]

/-- What follows the bar on the line of a declared lemma. -/
def hintText (hints : List Text) : Text :=
  lit " deps:" ++ if hints = [] then [] else lit " " ++ join (lit ", ") hints

/-- The hints of a declared lemma are read. -/
theorem hintsIn_hintText {hints : List Text} (isHint : ∀ hint ∈ hints, hint ≠ [] ∧ IsSolid hint ∧
    Term.comma ∉ hint ∧ ¬ lit "->" <:+: hint) : hintsIn (hintText hints) = hints := by
  by_cases nothing : hints = []
  · subst nothing
    rfl
  · let list : Text := lit " " ++ join (lit ", ") hints
    have text : hintText hints = lit " " ++ (lit "deps:" ++ list) := by
      rw [hintText, if_neg nothing]
      rfl
    have found : after? (lit "deps:") (lit " " ++ (lit "deps:" ++ list)) = some list := by
      have here : strip? (lit "deps:") (lit "deps:" ++ list) = some list := strip?_eq_some.mpr rfl
      have notYet : strip? (lit "deps:") (lit " " ++ (lit "deps:" ++ list)) = none := rfl
      show first? _ (0x20 :: (lit "deps:" ++ list)) = _
      rw [first?, first?_of_some here]
      change (strip? (lit "deps:") (lit " " ++ (lit "deps:" ++ list))).or (some list) = some list
      rw [notYet, Option.none_or]
    have pieces := splitAt_comma nothing fun hint mem => (isHint hint mem).2.2.1
    have entry : ∀ hint ∈ hints, trim (before (lit "->") (lit " " ++ hint)) = hint := by
      intro hint mem
      obtain ⟨nonempty, solid, -, noArrow⟩ := isHint hint mem
      have clear : ¬ lit "->" <:+: lit " " ++ hint := by
        rintro ⟨earlier, later, split⟩
        cases earlier with
        | nil => exact absurd (List.cons.inj split).1 (by decide)
        | cons u earlier => exact noArrow ⟨earlier, later, (List.cons.inj split).2⟩
      rw [before_of_absent clear]
      exact (IsTrimmed.of_isSolid solid nonempty).trim_indented (by decide)
    have comma : (',' : CodeUnit) = Term.comma := rfl
    simp only [hintsIn, text, found, comma]
    rw [pieces, List.map_map]
    have same : (hints.map ((fun entry => trim (before (lit "->") entry)) ∘ (lit " " ++ ·))) =
        hints := (List.map_congr_left entry).trans (List.map_id' hints)
    rw [same, List.filter_eq_self]
    intro hint mem
    exact decide_eq_true (isHint hint mem).1

/-- A name is passed over up to the colon after it. -/
theorem named?_append {name : Text} (solid : IsSolid name) (noColon : (0x3A : CodeUnit) ∉ name)
    (seen rest : Text) : named? seen (name ++ rest) = named? (seen ++ name) rest := by
  induction name generalizing seen with
  | nil => rw [List.nil_append, List.append_nil]
  | cons u more ih =>
      obtain ⟨solidHead, solidRest⟩ := List.forall_mem_cons.mp solid
      rw [List.mem_cons, not_or] at noColon
      have other : u ≠ ':' := fun same => noColon.1 same.symm
      rw [List.cons_append, named?]
      simp only [solidHead, Bool.false_eq_true, if_false, other, false_and]
      rw [ih solidRest noColon.2, List.append_assoc, List.singleton_append]

theorem named?_statement {name statement : Text} (nonempty : name ≠ []) (solid : IsSolid name)
    (noColon : (0x3A : CodeUnit) ∉ name) (first : ∀ u ∈ statement.head?, isBlank u = false)
    (oneLine : IsUnbroken statement) :
    named? [] (name ++ (lit ": " ++ statement)) = some (name, statement) := by
  have rest := restOfLine?_append isBlank_space first oneLine
  have colon : isBlank (':' : CodeUnit) = false := by decide
  have parts : lit ": " ++ statement = 0x3A :: (lit " " ++ statement) := rfl
  have mark : (0x3A : CodeUnit) = ':' := rfl
  rw [named?_append solid noColon, List.nil_append, parts, named?]
  simp only [colon, Bool.false_eq_true, if_false, mark, ne_eq, nonempty, not_false_eq_true,
    and_self, if_true, rest]

/-- The line of a declared lemma, without white space at its end. -/
def declaredLine (name statement : Text) (hints : List Text) : Text :=
  lit "% " ++ (name ++ (lit ": " ++ (statement ++ (lit " " ++ bar :: hintText hints))))

/-- A declared lemma is read. -/
theorem lemmaLine?_declaredLine {name : Text} (nonempty : name ≠ [])
    (word : ∀ u ∈ name, isWord u = true) (e : Equation) {hints : List Text} (isHint : ∀ hint ∈ hints, hint ≠ [] ∧ IsSolid hint ∧
      Term.comma ∉ hint ∧ ¬ lit "->" <:+: hint) :
    lemmaLine? (declaredLine name e.text hints) = some (.lemmaStated name e.text hints) := by
  have solid : IsSolid name := fun u mem => isBlank_of_isWord (word u mem)
  have noColon : (0x3A : CodeUnit) ∉ name := fun mem => absurd (word _ mem) (by decide)
  have noBar : bar ∉ name := fun mem => absurd (word _ mem) (by decide)
  let body : Text := lit "%" ++ ((lit " " ++ (name ++ lit ": ")) ++ e.text)
  have trimmedBody : IsTrimmed body :=
    .around (.of_isSolid (by decide) (by decide)) _ e.isTrimmed_text
  have parts : declaredLine name e.text hints = (body ++ lit " ") ++ bar :: hintText hints := by
    have mark : lit "% " = lit "%" ++ lit " " := rfl
    simp only [declaredLine, body, mark, List.append_assoc]
  have clear : bar ∉ body ++ lit " " := by
    intro mem
    simp only [body, List.mem_append] at mem
    rcases mem with (mark | (space | inName | colon) | inText) | space
    · exact absurd mark (by decide)
    · exact absurd space (by decide)
    · exact noBar inName
    · exact absurd colon (by decide)
    · exact e.not_mem_text (by decide) (by decide) inText
    · exact absurd space (by decide)
  obtain ⟨taken, dropped⟩ := cut_mark clear (hintText hints)
  have trimmed : trim (body ++ lit " ") = body := by
    exact trimmedBody.trim_around isBlank_nil isBlank_space
  have marked : strip? (lit "%") body = some (lit " " ++ (name ++ (lit ": " ++ e.text))) := by
    refine strip?_eq_some.mpr ?_
    simp only [body, List.append_assoc]
  have named : skipBlanks (lit " " ++ (name ++ (lit ": " ++ e.text))) =
      name ++ (lit ": " ++ e.text) := by
    rw [skipBlanks_blank_append isBlank_space, skipBlanks_solid_append solid nonempty]
  have read := named?_statement nonempty solid noColon e.isTrimmed_text.first e.isUnbroken_text
  have statement := e.isTrimmed_text.trim_eq
  have mark : ('|' : CodeUnit) = bar := rfl
  simp only [lemmaLine?, mark, parts, taken, dropped, trimmed, marked, Option.bind_eq_bind,
    Option.bind_some, named, read, statement, List.drop_one, List.tail_cons,
    hintsIn_hintText isHint, Option.pure_def]

end Event

namespace Manuscript

open Event

theorem Formula.text_eq (f : Formula) :
    f.text = Expression.quantified f.vars f.equation.lhs f.equation.rhs := by
  have opens : lit "] : (" = lit "] : " ++ [Term.openMark] := rfl
  have closes : lit ")" = [Term.closeMark] := rfl
  have equation : (Expression.equation f.equation.lhs f.equation.rhs).write Term.tptp =
      f.equation.text := rfl
  simp only [text, Expression.quantified, opens, closes, equation, List.append_assoc,
    List.cons_append, List.nil_append]

/-- A declared formula reads as its equation. -/
theorem Formula.ofFormula_text (f : Formula) :
    Expression.ofFormula f.text = .ok f.equation.expression := by
  rw [f.text_eq]
  exact Expression.ofFormula_quantified f.noBracket f.equation.lhsLettered f.equation.rhsLettered

theorem LemmaToken.isWord_of_mem (name : LemmaToken) : ∀ u ∈ name.1, isWord u = true := by
  obtain ⟨name, lead, known, digits, nonempty, all, rfl⟩ := name
  have isToken : Dependency.IsToken (lead ++ digits) :=
    .numbered (List.mem_pair.mp known) nonempty all
  exact isToken.isWord_of_mem

theorem LemmaToken.ne_nil (name : LemmaToken) : name.1 ≠ [] := by
  obtain ⟨name, lead, known, digits, some, -, rfl⟩ := name
  exact List.append_ne_nil_of_right_ne_nil lead some

variable (m : Manuscript)

/-- What a line of the header adds to the records. -/
def record (line : Nat) (r : Records) : Entry → Records
  | .formula role => r.addDeclaration ⟨(m.formula role).name, role, (m.formula role).text, line⟩
  | .inlineAxiom _ name equation => r.addAxiom ⟨name, equation.expression, line⟩
  | .declaredLemma name equation hints =>
    r.addLemma ⟨name, equation.expression, hints.map fun hint => Dependency.ofName hint.1, line⟩

theorem entryLine_formula (role : Role) : m.entryLine (.formula role) =
    Declaration.spelled (m.formula role).name role (lit " ") (m.formula role).text [] := by
  have opens : lit "fof(" = Declaration.opening := rfl
  have separator : lit ", " = Term.comma :: lit " " := rfl
  have ends : lit ")." = Declaration.ending := rfl
  simp only [entryLine, Declaration.spelled, opens, separator, ends, List.append_assoc,
    List.cons_append, List.nil_append]

theorem isTrimmed_formula (role : Role) : IsTrimmed (m.entryLine (.formula role)) := by
  have opens : IsTrimmed Declaration.opening := .of_isSolid (by decide) (by decide)
  have ends : IsTrimmed Declaration.ending := .of_isSolid (by decide) (by decide)
  have whole := opens.around ((m.formula role).name ++ Term.comma :: (lit " " ++ (role.word ++
    Term.comma :: (lit " " ++ (m.formula role).text)))) ends
  rw [entryLine_formula, Declaration.spelled]
  simpa using whole

theorem isTrimmed_inlineAxiom (number : Digits) (name : EnclosedName) (equation : Equation) :
    IsTrimmed (m.entryLine (.inlineAxiom number name equation)) := by
  have word : IsTrimmed (lit "Axiom") := .of_isSolid (by decide) (by decide)
  have period : IsTrimmed (lit ".") := .of_isSolid (by decide) (by decide)
  have whole := word.around (lit " " ++ (number ++ (lit " (" ++ (name ++ (lit "): " ++
    equation.text))))) period
  have start : lit "Axiom " = lit "Axiom" ++ lit " " := rfl
  rw [entryLine, start]
  simpa only [List.append_assoc] using whole

theorem isTrimmed_join {names : List Text} (nonempty : names ≠ [])
    (trimmed : ∀ name ∈ names, IsTrimmed name) (separator : Text) :
    IsTrimmed (join separator names) := by
  induction names with
  | nil => exact absurd rfl nonempty
  | cons name more ih =>
      obtain ⟨here, later⟩ := List.forall_mem_cons.mp trimmed
      by_cases last : more = []
      · subst more
        rw [join_singleton]
        exact here
      · rw [join_cons last, List.append_assoc]
        exact here.around separator (ih last later)

/-- Without hints the line of a declared lemma ends with a space. -/
theorem trim_declaredLemma (name : LemmaToken) (equation : Equation) (hints : List HintName) :
    trim (m.entryLine (.declaredLemma name equation hints)) =
      declaredLine name equation.text (hints.map (·.1)) := by
  have mark : IsTrimmed (lit "%") := .of_isSolid (by decide) (by decide)
  have start : lit "% " = lit "%" ++ lit " " := rfl
  have label : lit " | deps: " = lit " " ++ bar :: (lit " deps:" ++ lit " ") := rfl
  by_cases nothing : hints = []
  · subst nothing
    have colon : IsTrimmed (lit ":") := .of_isSolid (by decide) (by decide)
    have whole := mark.around (lit " " ++ (name ++ (lit ": " ++ (equation.text ++ (lit " " ++
      bar :: lit " deps"))))) colon
    have trimmed := whole.trim_around isBlank_nil isBlank_space
    have deps : lit " deps:" = lit " deps" ++ lit ":" := rfl
    simpa [entryLine, declaredLine, hintText, join, label, start, deps] using trimmed
  · have some : hints.map (·.1) ≠ [] := fun empty => nothing (List.map_eq_nil_iff.mp empty)
    have list := isTrimmed_join some (fun hint mem => by
      obtain ⟨⟨hint, nonempty, solid, -⟩, -, rfl⟩ := List.mem_map.mp mem
      exact .of_isSolid solid nonempty) (lit ", ")
    have whole := (mark.around (lit " " ++ (name ++ (lit ": " ++ (equation.text ++ lit " | deps: "))))
      list).trim_eq
    have same : m.entryLine (.declaredLemma name equation hints) =
        declaredLine name equation.text (hints.map (·.1)) := by
      simp only [entryLine, declaredLine, hintText, if_neg some, label, List.append_assoc,
        List.cons_append]
    rw [← same]
    simpa only [entryLine, start, List.append_assoc] using whole

theorem step_inlineAxiom (phase : Phase) (number : Digits) (name : EnclosedName)
    (equation : Equation) : phase.step (m.entryLine (.inlineAxiom number name equation)) =
      (phase, [.axiomStated name equation.text]) := by
  have read := axiomLine?_printed number name equation
  have trimmed := (m.isTrimmed_inlineAxiom number name equation).trim_eq
  unfold Phase.step
  rw [trimmed]
  simp only [entryLine, read]

theorem step_declaredLemma (phase : Phase) (name : LemmaToken) (equation : Equation)
    (hints : List HintName) : phase.step (m.entryLine (.declaredLemma name equation hints)) =
      (phase, [.lemmaStated name equation.text (hints.map (·.1))]) := by
  have isHint : ∀ hint ∈ hints.map (·.1), hint ≠ [] ∧ IsSolid hint ∧ Term.comma ∉ hint ∧
      ¬ lit "->" <:+: hint := by
    intro hint mem
    obtain ⟨⟨hint, nonempty, solid, noComma, -, noArrow⟩, -, rfl⟩ := List.mem_map.mp mem
    exact ⟨nonempty, solid, noComma, noArrow⟩
  have read := lemmaLine?_declaredLine (LemmaToken.ne_nil name) (LemmaToken.isWord_of_mem name)
    equation isHint
  have noAxiom : axiomLine? (declaredLine name equation.text (hints.map (·.1))) = none := rfl
  have noMarker : startsWith proofMarker (declaredLine name equation.text (hints.map (·.1))) =
      false := rfl
  have marked : lemmaMarks.any (startsWith · (declaredLine name equation.text (hints.map (·.1)))) =
      true := by
    obtain ⟨_, lead, known, digits, -, -, rfl⟩ := name
    rw [List.any_eq_true]
    refine ⟨lit "% " ++ lead, ?_, ?_⟩
    · rcases List.mem_pair.mp known with rfl | rfl
      · exact List.mem_cons_self
      · exact List.mem_cons_of_mem _ List.mem_cons_self
    · have begins : strip? (lit "% " ++ lead) (declaredLine (lead ++ digits) equation.text
          (hints.map (·.1))) = some _ :=
        strip?_eq_some.mpr (by simp only [declaredLine, List.append_assoc]; rfl)
      rw [startsWith, begins, Option.isSome_some]
  unfold Phase.step
  rw [m.trim_declaredLemma]
  simp only [noAxiom, noMarker, marked, read, Bool.false_eq_true, if_false, if_true,
    Option.toList_some]

/-- Each line of the header adds to the records what it was printed from. -/
theorem feed_entryLine {s : Scanner} (header : s.phase = .header) (idle : s.collector = none)
    (entry : Entry) (line : Nat) : s.feed (m.entryLine entry) line =
      ({ s with records := m.record line s.records entry }, none) := by
  obtain ⟨phase, current, collector, records⟩ := s
  cases header
  cases idle
  cases entry with
  | formula role =>
      have plain : ∀ u ∈ (trim (m.entryLine (.formula role))).head?,
          u ≠ 'A' ∧ u ≠ 'T' ∧ u ≠ '%' := by
        rw [(m.isTrimmed_formula role).trim_eq]
        exact forall_mem_head?_cons (by decide) _
      have fed := Declaration.feed_spelled (m.formula role).solid (m.formula role).nonempty
        (m.formula role).noComma role isBlank_space
        ((m.formula role).text_eq ▸ Expression.isTrimmed_quantified _ _ _) isBlank_nil none line
      rw [← m.entryLine_formula, ← (m.isTrimmed_formula role).trim_eq] at fed
      exact Scanner.feed_declared rfl plain fed
  | inlineAxiom number name equation =>
      have read : Expression.read equation.text = .ok equation.expression := by
        have whole : Expression.read (equation.text ++ []) = _ := equation.read_text (by simp)
        rwa [List.append_nil] at whole
      simp only [Scanner.feed, m.step_inlineAxiom, Scanner.applyAll, Scanner.apply,
        Scanner.readPlainOn, read, Except.mapError, record]
  | declaredLemma name equation hints =>
      have read : Expression.ofFormula equation.text = .ok equation.expression := by
        have nothing : IsSolid [] := by simp [IsSolid]
        have whole := equation.ofFormula_text nothing (by simp)
        rwa [List.append_nil] at whole
      simp only [Scanner.feed, m.step_declaredLemma, Scanner.applyAll, Scanner.apply,
        Scanner.readOn, read, Except.mapError, record, List.map_map]
      rfl

/-! ## The records of a header -/

theorem recorded_append_singleton {α : Type} (record? : Nat → Entry → Option α)
    (entries : List Entry) (entry : Entry) : recorded record? (entries ++ [entry]) =
      recorded record? entries ++ (record? (entries.length + 1) entry).toList := by
  have last : [(entry, entries.length + 1)].filterMap (fun entry => record? entry.2 entry.1) =
      (record? (entries.length + 1) entry).toList := by
    rcases found : record? (entries.length + 1) entry with _ | value
    · simp [found]
    · simp [found]
  simp only [recorded, List.zipIdx_append, List.filterMap_append, List.zipIdx_singleton,
    Nat.add_comm 1, last]

/-- The declaration for a role among some lines of the header. -/
def declaredIn (role : Role) (entries : List Entry) : Option Declaration :=
  if .formula role ∈ entries then
    some ⟨(m.formula role).name, role, (m.formula role).text, entries.idxOf (.formula role) + 1⟩
  else none

theorem declaredIn_append_of_ne {role : Role} {entry : Entry} (other : entry ≠ .formula role)
    (entries : List Entry) : m.declaredIn role (entries ++ [entry]) = m.declaredIn role entries := by
  unfold declaredIn
  by_cases among : .formula role ∈ entries
  · rw [if_pos among, if_pos (List.mem_append_left _ among), List.idxOf_append_of_mem among]
  · have still : .formula role ∉ entries ++ [entry] := by
      simp [among, Ne.symm other]
    rw [if_neg among, if_neg still]

theorem declaredIn_append_self {role : Role} {entries : List Entry}
    (new : .formula role ∉ entries) : m.declaredIn role (entries ++ [.formula role]) =
      some ⟨(m.formula role).name, role, (m.formula role).text, entries.length + 1⟩ := by
  unfold declaredIn
  rw [if_pos (by simp), List.idxOf_append_of_notMem new]
  simp

/-- What is on record after some lines of the header. -/
def headerRecords (entries : List Entry) : Records :=
  { hypothesis := m.declaredIn .hypothesis entries
    conjecture := m.declaredIn .conjecture entries
    axioms := .ofList ((axiomRecords entries).map fun a => (a.name, a))
    lemmas := .ofList ((declaredLemmas entries).map fun l => (l.name, l))
    proofs := ∅
    used := [] }

theorem headerRecords_append_singleton {entries : List Entry} {entry : Entry}
    (new : ∀ role, entry = .formula role → entry ∉ entries) :
    m.headerRecords (entries ++ [entry]) =
      m.record (entries.length + 1) (m.headerRecords entries) entry := by
  have axioms := recorded_append_singleton Entry.axiomRecord? entries entry
  have lemmas := recorded_append_singleton Entry.lemmaRecord? entries entry
  cases entry with
  | formula role =>
      have other (role' : Role) (ne : role' ≠ role) : Entry.formula role ≠ .formula role' := by
        rintro ⟨⟩
        exact ne rfl
      cases role with
      | hypothesis =>
          have mine := m.declaredIn_append_self (new .hypothesis rfl)
          have same := m.declaredIn_append_of_ne (other .conjecture (by decide)) entries
          simp only [headerRecords, axiomRecords, declaredLemmas, axioms, lemmas, mine, same,
            Entry.axiomRecord?, Entry.lemmaRecord?, Option.toList_none, List.append_nil, record,
            Records.addDeclaration]
      | conjecture =>
          have mine := m.declaredIn_append_self (new .conjecture rfl)
          have same := m.declaredIn_append_of_ne (other .hypothesis (by decide)) entries
          simp only [headerRecords, axiomRecords, declaredLemmas, axioms, lemmas, mine, same,
            Entry.axiomRecord?, Entry.lemmaRecord?, Option.toList_none, List.append_nil, record,
            Records.addDeclaration]
  | inlineAxiom number name equation =>
      have same (role : Role) := m.declaredIn_append_of_ne
        (nofun : Entry.inlineAxiom number name equation ≠ .formula role) entries
      simp only [headerRecords, axiomRecords, declaredLemmas, axioms, lemmas, same,
        Entry.axiomRecord?, Entry.lemmaRecord?, Option.toList_none, Option.toList_some,
        List.append_nil, List.map_append, List.map_singleton, Registry.ofList_append_singleton,
        record, Records.addAxiom]
  | declaredLemma name equation hints =>
      have same (role : Role) := m.declaredIn_append_of_ne
        (nofun : Entry.declaredLemma name equation hints ≠ .formula role) entries
      simp only [headerRecords, axiomRecords, declaredLemmas, axioms, lemmas, same,
        Entry.axiomRecord?, Entry.lemmaRecord?, Option.toList_none, Option.toList_some,
        List.append_nil, List.map_append, List.map_singleton, Registry.ofList_append_singleton,
        record, Records.addLemma]

/-- The scanner after some lines of the header. -/
theorem after_entries {entries : List Entry} (start : entries <+: m.header) :
    Scanner.after (entries.map m.entryLine) =
      .ok { Scanner.initial with records := m.headerRecords entries } := by
  induction entries using List.reverseRecOn with
  | nil => rfl
  | append_singleton entries entry ih =>
      have earlier := ih (List.IsPrefix.trans (List.prefix_append entries [entry]) start)
      have new : ∀ role, entry = .formula role → entry ∉ entries := by
        rintro role rfl among
        have twice := List.IsPrefix.count_le (.formula role) start
        rw [m.once role, List.count_append, List.count_singleton_self] at twice
        have before := List.count_pos_iff.mpr among
        omega
      rw [List.map_append, List.map_singleton]
      refine Scanner.feedAll_append_singleton.mpr ⟨_, earlier, ?_⟩
      rw [m.feed_entryLine rfl rfl, m.headerRecords_append_singleton new, List.length_map,
        Nat.add_comm 1]

end Manuscript

end MagmaTrace
