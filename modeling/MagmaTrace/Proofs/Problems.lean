import Mathlib.Data.Set.Function
import MagmaTrace.Problem.Clause
import MagmaTrace.Proofs.Formulas
import MagmaTrace.Proofs.Statements

/-! # Problems and their translation

A problem is written for two equations of the database. Read as a transcript it declares both,
each with its variables renamed by first appearance and then by rank, and nothing else
(`Translation.ofTranscript_problem`).
-/

namespace MagmaTrace

open Text

namespace Clause

open Expression (equalsMark)

/-! ## Equations of the database -/

/-- A text states an equation: its first equals sign stands between texts that read as the two
    sides. -/
def States (text : Text) (lhs rhs : Term) : Prop :=
  ∃ left right, text = left ++ equalsMark :: right ∧ equalsMark ∉ left ∧
    Term.ofLean (trim left) = .ok lhs ∧ Term.ofLean (trim right) = .ok rhs

theorem ofLean_ok_iff {text : Text} {clause : Clause} :
    ofLean text = .ok clause ↔ ∃ lhs rhs, States text lhs rhs ∧ ofTerms lhs rhs = clause := by
  have mark : ('=' : CodeUnit) = equalsMark := rfl
  unfold ofLean
  rw [mark]
  constructor
  · intro h
    split at h
    · cases h
    · next u right divided =>
        obtain ⟨lhs, readLeft, h⟩ := bind_ok_iff.mp h
        obtain ⟨rhs, readRight, h⟩ := bind_ok_iff.mp h
        obtain rfl := eq_of_dropWhile_mark divided
        have whole : text = text.takeWhile (· != equalsMark) ++ equalsMark :: right := by
          rw [← divided, List.takeWhile_append_dropWhile]
        exact ⟨lhs, rhs, ⟨_, right, whole, notMem_takeWhile_mark equalsMark text, readLeft,
          readRight⟩, pure_ok_iff.mp h⟩
  · rintro ⟨lhs, rhs, ⟨left, right, rfl, clear, readLeft, readRight⟩, rfl⟩
    obtain ⟨taken, dropped⟩ := cut_mark clear right
    rw [taken, dropped]
    simp only [readLeft, readRight]
    rfl

/-! ## Variables by first appearance -/

/-- The distinct names among some, without the operation's, by first appearance. -/
def appearing (names : List Text) : List Text := firstMentions (names.filter (· ≠ lit "op"))

/-- The new name of a name. -/
def newName (names : List Text) (name : Text) : Text := ((byAppearance names).get? name).getD name

theorem mem_appearing {names : List Text} {name : Text} :
    name ∈ appearing names ↔ name ∈ names ∧ name ≠ lit "op" := by
  rw [appearing, mem_firstMentions, List.mem_filter, decide_eq_true_eq]

theorem newName_of_mem {names : List Text} {name : Text} (mem : name ∈ appearing names) :
    newName names name = variableName ((appearing names).idxOf name) := by
  have found : (byAppearance names).get? name =
      some (variableName ((appearing names).idxOf name)) :=
    Registry.get?_ranked (nodup_firstMentions _) variableName mem
  rw [newName, found, Option.getD_some]

theorem isIdentifier_variableName (place : Nat) : IsIdentifier (variableName place) :=
  isIdentifier_numbered (by decide) place

/-- In lower case the variables that a problem names are named by rank. -/
theorem lower_variableName (place : Nat) :
    lower (variableName place) = Renaming.rankName place :=
  lower_numbered (by decide) (isDigit_of_mem_decimal place)

section

variable {lhs rhs : Term} (notOp : lit "op" ∉ lhs.names ++ rhs.names)

/-- The equation of a clause. -/
def equationOf (lhs rhs : Term) : Expression :=
  .equation (lhs.rename (newName (lhs.names ++ rhs.names)))
    (rhs.rename (newName (lhs.names ++ rhs.names)))

theorem names_equationOf (lhs rhs : Term) :
    (equationOf lhs rhs).names = (lhs.names ++ rhs.names).map (newName (lhs.names ++ rhs.names)) :=
  Expression.names_rename _ (.equation lhs rhs)

include notOp

theorem exists_variableName {name : Text} (mem : name ∈ (equationOf lhs rhs).names) :
    ∃ place, name = variableName place := by
  rw [names_equationOf] at mem
  obtain ⟨old, among, rfl⟩ := List.mem_map.mp mem
  have other : old ≠ lit "op" := fun same => notOp (same ▸ among)
  exact ⟨_, newName_of_mem (mem_appearing.mpr ⟨among, other⟩)⟩

theorem lower_ne_operation : ∀ name ∈ (equationOf lhs rhs).names, lower name ≠ Renaming.operation := by
  intro name mem
  obtain ⟨place, rfl⟩ := exists_variableName notOp mem
  rw [lower_variableName]
  intro same
  exact absurd (List.cons.inj same).1 (by decide)

theorem isLettered_equationOf :
    (lhs.rename (newName (lhs.names ++ rhs.names))).IsLettered ∧
      (rhs.rename (newName (lhs.names ++ rhs.names))).IsLettered := by
  have identifiers : ∀ name ∈ (equationOf lhs rhs).names, IsIdentifier name := by
    intro name mem
    obtain ⟨place, rfl⟩ := exists_variableName notOp mem
    exact isIdentifier_variableName place
  exact ⟨fun name mem => identifiers name (List.mem_append_left _ mem),
    fun name mem => identifiers name (List.mem_append_right _ mem)⟩

/-- A variable is named by first appearance in the problem and by rank in the script. -/
theorem injOn_newName : Set.InjOn
    (fun name => (Renaming.scope (equationOf lhs rhs)).apply (newName (lhs.names ++ rhs.names) name))
    {name | name ∈ lhs.names ++ rhs.names} := by
  intro a memA b memB same
  have appears {name : Text} (mem : name ∈ lhs.names ++ rhs.names) :
      name ∈ appearing (lhs.names ++ rhs.names) :=
    mem_appearing.mpr ⟨mem, fun same => notOp (same ▸ mem)⟩
  have renamed {name : Text} (mem : name ∈ lhs.names ++ rhs.names) :
      newName (lhs.names ++ rhs.names) name ∈ (equationOf lhs rhs).names := by
    rw [names_equationOf]
    exact List.mem_map_of_mem mem
  have lowered := (Renaming.apply_eq_iff (renamed memA) (renamed memB)
    (lower_ne_operation notOp _ (renamed memA)) (lower_ne_operation notOp _ (renamed memB))).mp same
  rw [newName_of_mem (appears memA), newName_of_mem (appears memB), lower_variableName,
    lower_variableName, Renaming.rankName_injective.eq_iff] at lowered
  exact (List.idxOf_inj (appears memA)).mp lowered

end

theorem formula_ofTerms (lhs rhs : Term) : (ofTerms lhs rhs).formula =
    Term.openMark :: ((equationOf lhs rhs).write Term.tptp ++ [Term.closeMark]) := by
  have opens : lit "(" = [Term.openMark] := rfl
  have closes : lit ")" = [Term.closeMark] := rfl
  simp only [ofTerms, equationOf, Expression.write, opens, closes, List.append_assoc,
    List.cons_append, List.nil_append]
  rfl

theorem vars_ofTerms (lhs rhs : Term) : (ofTerms lhs rhs).vars =
    (List.range (appearing (lhs.names ++ rhs.names)).length).map variableName :=
  Registry.values_ranked (nodup_firstMentions _) variableName

theorem exists_of_mem_vars {lhs rhs : Term} {name : Text} (mem : name ∈ (ofTerms lhs rhs).vars) :
    ∃ place, name = variableName place := by
  rw [vars_ofTerms] at mem
  obtain ⟨place, -, rfl⟩ := List.mem_map.mp mem
  exact ⟨place, rfl⟩

/-! ## The text of a problem -/

/-- The lines of a declaration. -/
def declarationLines (name role vars formula : Text) : List Text :=
  [ Declaration.opening ++ (name ++ Term.comma :: (lit " " ++ (role ++ [Term.comma]))),
    lit "    ! [" ++ (vars ++ lit "] :"),
    lit "        " ++ formula,
    Declaration.ending ]

theorem declare_eq (name role vars formula : Text) :
    declare name role vars formula = joinLines (declarationLines name role vars formula ++ [[]]) := by
  have separator : lit ", " = Term.comma :: lit " " := rfl
  have quantifier : lit ",\n    ! [" = [Term.comma] ++ [newline] ++ lit "    ! [" := rfl
  have afterVars : lit "] :\n        " = lit "] :" ++ [newline] ++ lit "        " := rfl
  have last : lit "\n).\n" = [newline] ++ Declaration.ending ++ [newline] := rfl
  have opens : lit "fof(" = Declaration.opening := rfl
  simp only [declare, declarationLines, joinLines, List.cons_append, List.nil_append]
  rw [join_cons (by simp), join_cons (by simp), join_cons (by simp), join_cons (by simp),
    join_singleton, separator, quantifier, afterVars, last, opens]
  simp only [List.append_assoc, List.cons_append, List.nil_append, List.append_nil]

/-- The units of a clause and of the variables over it. -/
def isClauseUnit (u : CodeUnit) : Bool := isDigit u || (lit "Xop(,) =").contains u

theorem isClauseUnit_of_mem_variableName {u : CodeUnit} {place : Nat} (mem : u ∈ variableName place) :
    isClauseUnit u = true := by
  rcases List.mem_append.mp mem with letter | digit
  · rw [List.mem_singleton.mp letter]
    decide
  · simp [isClauseUnit, isDigit_of_mem_decimal place u digit]

theorem isClauseUnit_of_mem_formula {lhs rhs : Term} (notOp : lit "op" ∉ lhs.names ++ rhs.names)
    {u : CodeUnit} (mem : u ∈ (ofTerms lhs rhs).formula) : isClauseUnit u = true := by
  have marks : ∀ u ∈ lit "op(,) =", isClauseUnit u = true := List.all_eq_true.mp (by decide)
  rw [formula_ofTerms, List.mem_cons, List.mem_append, List.mem_singleton] at mem
  rcases mem with rfl | inside | rfl
  · decide
  · rcases Expression.mem_write inside with ⟨name, among, inName⟩ | mark
    · obtain ⟨place, rfl⟩ := exists_variableName notOp among
      exact isClauseUnit_of_mem_variableName inName
    · exact marks u mark
  · decide

theorem isClauseUnit_of_mem_join {vars : List Text} (named : ∀ name ∈ vars, ∃ place, name = variableName place)
    {u : CodeUnit} (mem : u ∈ join (lit ", ") vars) : isClauseUnit u = true := by
  rcases mem_join mem with separator | ⟨name, among, inside⟩
  · rcases List.mem_pair.mp separator with rfl | rfl
    · decide
    · decide
  · obtain ⟨place, rfl⟩ := named name among
    exact isClauseUnit_of_mem_variableName inside

end Clause

namespace Scanner

open Clause Declaration

/-- A line that says a piece of a declaration, but not its end. -/
structure IsPiece (rawLine piece : Text) : Prop where
  trimmed : trim rawLine = piece
  plain : ∀ u ∈ piece.head?, u ≠ 'A' ∧ u ≠ 'T' ∧ u ≠ '%'
  unfinished : ∀ before, endsWith ending (before ++ piece) = false

theorem IsPiece.of_ends {gap start : Text} {u : CodeUnit} (before : IsBlank gap)
    (trimmed : IsTrimmed start) (plain : ∀ u ∈ start.head?, u ≠ 'A' ∧ u ≠ 'T' ∧ u ≠ '%')
    (solid : isBlank u = false) (notPeriod : u ≠ '.') (middle : Text) :
    IsPiece (gap ++ (start ++ (middle ++ [u]))) (start ++ (middle ++ [u])) := by
  have last : IsTrimmed [u] := .of_isSolid (by simpa [IsSolid] using solid) (by simp)
  refine ⟨(trimmed.around middle last).trim_indented before, ?_, ?_⟩
  · rw [List.head?_append, Option.or_of_isSome (List.isSome_head?.mpr trimmed.nonempty)]
    exact plain
  · intro earlier
    rw [← List.append_assoc start, ← List.append_assoc]
    exact Collector.endsWith_ending_concat notPeriod _

section

variable {s : Scanner} (header : s.phase = .header) {rawLine piece : Text}
  (said : IsPiece rawLine piece) (line : Nat) (rest : List Text)
include header said

theorem feedAll_beginning (begins : occurs opening piece = true) :
    s.feedAll line (rawLine :: rest) =
      Scanner.feedAll { s with collector := some ⟨piece, line⟩ } (line + 1) rest := by
  have fed : s.collector.feed (trim rawLine) line = (some ⟨piece, line⟩, none) := by
    rw [said.trimmed]
    exact Collector.feed_beginning _ begins (said.unfinished []) line
  exact feedAll_cons (feed_unfinished header (said.trimmed ▸ said.plain) fed) rest

theorem feedAll_further {p : Pending} (pending : s.collector = some p)
    (inside : occurs opening piece = false) : s.feedAll line (rawLine :: rest) =
      Scanner.feedAll { s with collector := some ⟨p.text ++ lit " " ++ piece, p.line⟩ }
        (line + 1) rest := by
  have fed : s.collector.feed (trim rawLine) line =
      (some ⟨p.text ++ lit " " ++ piece, p.line⟩, none) := by
    rw [said.trimmed, pending]
    exact Collector.feed_further inside (said.unfinished (p.text ++ lit " ")) line
  exact feedAll_cons (feed_unfinished header (said.trimmed ▸ said.plain) fed) rest

end

/-- A blank line of the header says nothing where no declaration is unfinished. -/
theorem feedAll_nil {s : Scanner} (header : s.phase = .header) (idle : s.collector = none)
    (line : Nat) (rest : List Text) : s.feedAll line ([] :: rest) = s.feedAll (line + 1) rest := by
  have fed : s.collector.feed (trim []) line = (none, none) := by
    rw [idle]
    rfl
  have same : { s with collector := none } = s := by rw [← idle]
  have taken := feed_unfinished header (by simp [trim, skipBlanks, dropEndWhile]) fed
  rw [same] at taken
  exact feedAll_cons taken rest

section

variable {name vars : Text} (solid : IsSolid name) (nonempty : name ≠ [])
  (noComma : Term.comma ∉ name) (role : Role) {lhs rhs : Term}
  (unitsOfVars : ∀ u ∈ vars, isClauseUnit u = true)
  (unitsOfFormula : ∀ u ∈ Term.openMark :: ((Expression.equation lhs rhs).write Term.tptp ++
    [Term.closeMark]), isClauseUnit u = true)

include unitsOfVars unitsOfFormula in
theorem not_occurs_of_units :
    occurs opening (lit "! [" ++ (vars ++ lit "] :")) = false ∧
      occurs opening (Term.openMark :: ((Expression.equation lhs rhs).write Term.tptp ++
        [Term.closeMark])) = false := by
  have inside : (0x66 : CodeUnit) ∈ opening := by decide
  refine ⟨occurs_of_not_mem inside ?_, occurs_of_not_mem inside ?_⟩
  · rw [List.mem_append, List.mem_append]
    rintro (mark | mem | mark)
    · exact absurd mark (by decide)
    · exact absurd (unitsOfVars _ mem) (by decide)
    · exact absurd mark (by decide)
  · exact fun mem => absurd (unitsOfFormula _ mem) (by decide)

/-- The first line of a declaration. -/
theorem isPiece_heading (name role : Text) : IsPiece
    (opening ++ (name ++ Term.comma :: (lit " " ++ (role ++ [Term.comma]))))
    (opening ++ (name ++ Term.comma :: (lit " " ++ (role ++ [Term.comma])))) := by
  have start : IsTrimmed opening := .of_isSolid (by decide) (by decide)
  have solid : isBlank Term.comma = false := by decide
  have said := IsPiece.of_ends isBlank_nil start (forall_mem_head?_cons (by decide) _) solid
    (by decide) (name ++ Term.comma :: (lit " " ++ role))
  simpa using said

/-- Its quantifier. -/
theorem isPiece_quantifier (vars : Text) :
    IsPiece (lit "    ! [" ++ (vars ++ lit "] :")) (lit "! [" ++ (vars ++ lit "] :")) := by
  have gap : IsBlank (lit "    ") := by decide
  have start : IsTrimmed (lit "!") := .of_isSolid (by decide) (by decide)
  have said := IsPiece.of_ends (u := 0x3A) gap start (forall_mem_head?_cons (by decide) _)
    (by decide) (by decide) (lit " [" ++ (vars ++ lit "] "))
  have parts : lit "!" ++ ((lit " [" ++ (vars ++ lit "] ")) ++ [0x3A]) =
      lit "! [" ++ (vars ++ lit "] :") := by
    have opens : lit "! [" = lit "!" ++ lit " [" := rfl
    have closes : lit "] :" = lit "] " ++ [0x3A] := rfl
    simp only [opens, closes, List.append_assoc]
  rw [parts] at said
  exact said

/-- Its clause. -/
theorem isPiece_clause (text : Text) :
    IsPiece (lit "        " ++ Term.openMark :: (text ++ [Term.closeMark]))
      (Term.openMark :: (text ++ [Term.closeMark])) := by
  have start : IsTrimmed [Term.openMark] := .of_isSolid (by decide) (by decide)
  exact .of_ends (by decide) start (forall_mem_head?_cons (by decide) _) (by decide) (by decide)
    text

include solid nonempty noComma unitsOfVars unitsOfFormula

/-- A declaration of a clause is recorded on its first line. -/
theorem feedAll_declarationLines {s : Scanner} (header : s.phase = .header) (line : Nat)
    (rest : List Text) :
    s.feedAll line (declarationLines name role.word vars (Term.openMark ::
      ((Expression.equation lhs rhs).write Term.tptp ++ [Term.closeMark])) ++ rest) =
    Scanner.feedAll { s with
        collector := none
        records := s.records.addDeclaration
          ⟨name, role, Expression.quantified vars lhs rhs, line⟩ } (line + 4) rest := by
  obtain ⟨notVars, notFormula⟩ := not_occurs_of_units unitsOfVars unitsOfFormula
  have notEnding : occurs opening ending = false := by decide
  have trimmed : trim ending = ending := by decide
  let heading : Text := opening ++ (name ++ Term.comma :: (lit " " ++ (role.word ++ [Term.comma])))
  let quantifier : Text := lit "! [" ++ (vars ++ lit "] :")
  let clause : Text := Term.openMark :: ((Expression.equation lhs rhs).write Term.tptp ++
    [Term.closeMark])
  have whole : heading ++ lit " " ++ quantifier ++ lit " " ++ clause ++ lit " " ++ ending =
      spelled name role (lit " ") (Expression.quantified vars lhs rhs) (lit " ") := by
    have colon : lit "] : " = lit "] :" ++ lit " " := rfl
    simp only [heading, quantifier, clause, spelled, Expression.quantified, colon,
      List.append_assoc, List.cons_append, List.nil_append]
  have read := read?_spelled solid nonempty noComma role isBlank_space
    (Expression.isTrimmed_quantified vars lhs rhs) isBlank_space line
  have fed : Collector.feed
      (some ⟨heading ++ lit " " ++ quantifier ++ lit " " ++ clause, line⟩) (trim ending)
        (line + 3) = (none, some ⟨name, role, Expression.quantified vars lhs rhs, line⟩) := by
    rw [trimmed, Collector.feed_ending notEnding (endsWith_append ..), whole, read]
  calc s.feedAll line (declarationLines name role.word vars clause ++ rest)
    _ = Scanner.feedAll { s with collector := some ⟨heading, line⟩ } (line + 1) _ :=
      feedAll_beginning header (isPiece_heading name role.word) line _ (occurs_append ..)
    _ = Scanner.feedAll { s with collector := some ⟨heading ++ lit " " ++ quantifier, line⟩ }
          (line + 2) _ :=
      feedAll_further (s := { s with collector := some ⟨heading, line⟩ }) header
        (isPiece_quantifier vars) _ _ rfl notVars
    _ = Scanner.feedAll { s with
          collector := some ⟨heading ++ lit " " ++ quantifier ++ lit " " ++ clause, line⟩ }
          (line + 3) (ending :: rest) :=
      feedAll_further
        (s := { s with collector := some ⟨heading ++ lit " " ++ quantifier, line⟩ }) header
        (isPiece_clause _) _ _ rfl notFormula
    _ = _ := by
      have plain : ∀ u ∈ (trim ending).head?, u ≠ 'A' ∧ u ≠ 'T' ∧ u ≠ '%' :=
        forall_mem_head?_cons (by decide) _
      exact feedAll_cons (feed_declared (s := { s with
        collector := some ⟨heading ++ lit " " ++ quantifier ++ lit " " ++ clause, line⟩ })
        header plain fed) rest

end

end Scanner

namespace Clause

theorem isUnbroken_of_isClauseUnit {text : Text} (h : ∀ u ∈ text, isClauseUnit u = true) :
    IsUnbroken text := by
  have marks : IsUnbroken (lit "Xop(,) =") := by decide
  intro u mem
  have isUnit := h u mem
  rw [isClauseUnit, Bool.or_eq_true, List.contains_iff_mem] at isUnit
  rcases isUnit with digit | mark
  · exact isLineEnd_of_isDigit digit
  · exact marks u mark

theorem isLine_of_mem_declarationLines {name role vars formula : Text} (ofName : IsUnbroken name)
    (ofRole : IsUnbroken role) (ofVars : IsUnbroken vars) (ofFormula : IsUnbroken formula) :
    ∀ line ∈ declarationLines name role vars formula ++ [[]], IsLine line := by
  have comma : lit "," = [Term.comma] := rfl
  have first : Declaration.opening ++ (name ++ Term.comma :: (lit " " ++ (role ++ [Term.comma]))) =
      Declaration.opening ++ (name ++ (lit "," ++ (lit " " ++ (role ++ lit ",")))) := rfl
  intro line mem
  apply IsLine.of_isUnbroken
  simp only [declarationLines, List.cons_append, List.nil_append, List.mem_cons, List.not_mem_nil,
    or_false] at mem
  rcases mem with rfl | rfl | rfl | rfl | rfl
  · rw [first]
    simp only [isUnbroken_append]
    exact ⟨by decide, ofName, by decide, by decide, ofRole, by decide⟩
  · simp only [isUnbroken_append]
    exact ⟨by decide, ofVars, by decide⟩
  · simp only [isUnbroken_append]
    exact ⟨by decide, ofFormula⟩
  · decide
  · decide

end Clause

section

open Clause

variable {l r l' r' : Term} (notOp : lit "op" ∉ l.names ++ r.names)
  (notOp' : lit "op" ∉ l'.names ++ r'.names)

/-- The variables that both declarations of a problem are quantified over. -/
def Clause.problemVars (hypothesis conjecture : Clause) : Text :=
  join (lit ", ") (sort (firstMentions (hypothesis.vars ++ conjecture.vars)))

theorem Clause.isClauseUnit_of_mem_problemVars {l r l' r' : Term} {u : CodeUnit}
    (mem : u ∈ problemVars (ofTerms l r) (ofTerms l' r')) : isClauseUnit u = true := by
  refine isClauseUnit_of_mem_join (fun name among => ?_) mem
  rw [mem_sort, mem_firstMentions, List.mem_append] at among
  rcases among with here | there
  · exact exists_of_mem_vars here
  · exact exists_of_mem_vars there

include notOp notOp'

theorem Clause.lines_problem : lines (problem (ofTerms l r) (ofTerms l' r')) =
    declarationLines (lit "a1") Role.hypothesis.word (problemVars (ofTerms l r) (ofTerms l' r'))
        (ofTerms l r).formula ++ [[]] ++
      (declarationLines (lit "conjecture0") Role.conjecture.word
        (problemVars (ofTerms l r) (ofTerms l' r')) (ofTerms l' r').formula ++ [[]]) := by
  have ofVars : IsUnbroken (problemVars (ofTerms l r) (ofTerms l' r')) :=
    isUnbroken_of_isClauseUnit fun u => isClauseUnit_of_mem_problemVars
  have text : problem (ofTerms l r) (ofTerms l' r') = joinLines
      (declarationLines (lit "a1") Role.hypothesis.word (problemVars (ofTerms l r) (ofTerms l' r'))
          (ofTerms l r).formula ++ [[]] ++
        (declarationLines (lit "conjecture0") Role.conjecture.word
          (problemVars (ofTerms l r) (ofTerms l' r')) (ofTerms l' r').formula ++ [[]])) := by
    have feed : lit "\n" = [newline] := rfl
    rw [joinLines, join_append (by simp) (by simp), ← joinLines, ← joinLines, ← declare_eq,
      ← declare_eq, ← feed]
    rfl
  rw [text]
  refine lines_joinLines (by simp) fun line mem => ?_
  rcases List.mem_append.mp mem with here | there
  · exact isLine_of_mem_declarationLines (by decide) (by decide) ofVars
      (isUnbroken_of_isClauseUnit fun u => isClauseUnit_of_mem_formula notOp) line here
  · exact isLine_of_mem_declarationLines (by decide) (by decide) ofVars
      (isUnbroken_of_isClauseUnit fun u => isClauseUnit_of_mem_formula notOp') line there

/-- The declarations of a problem are all that is on record after it. -/
theorem Records.of_problem :
    ofTranscript (problem (ofTerms l r) (ofTerms l' r')) = .ok { empty with
      hypothesis := some ⟨lit "a1", .hypothesis,
        Expression.quantified (problemVars (ofTerms l r) (ofTerms l' r'))
          (l.rename (newName (l.names ++ r.names))) (r.rename (newName (l.names ++ r.names))), 1⟩
      conjecture := some ⟨lit "conjecture0", .conjecture,
        Expression.quantified (problemVars (ofTerms l r) (ofTerms l' r'))
          (l'.rename (newName (l'.names ++ r'.names)))
          (r'.rename (newName (l'.names ++ r'.names))), 6⟩ } := by
  let vars := problemVars (ofTerms l r) (ofTerms l' r')
  let f := newName (l.names ++ r.names)
  let f' := newName (l'.names ++ r'.names)
  let d : Declaration := ⟨lit "a1", .hypothesis, Expression.quantified vars (l.rename f) (r.rename f), 1⟩
  let d' : Declaration :=
    ⟨lit "conjecture0", .conjecture, Expression.quantified vars (l'.rename f') (r'.rename f'), 6⟩
  have ofVars : ∀ u ∈ vars, isClauseUnit u = true := fun u => isClauseUnit_of_mem_problemVars
  have ofFormula := fun u => isClauseUnit_of_mem_formula (u := u) notOp
  have ofFormula' := fun u => isClauseUnit_of_mem_formula (u := u) notOp'
  rw [formula_ofTerms] at ofFormula ofFormula'
  let between : Scanner := { Scanner.initial with records := Records.empty.addDeclaration d }
  have first (rest : List Text) := Scanner.feedAll_declarationLines (s := .initial)
    (by decide : IsSolid (lit "a1")) (by decide) (by decide) .hypothesis ofVars ofFormula rfl 1 rest
  have second (rest : List Text) := Scanner.feedAll_declarationLines (s := between)
    (by decide : IsSolid (lit "conjecture0")) (by decide) (by decide) .conjecture ofVars
    ofFormula' rfl 6 rest
  refine Records.ofTranscript_ok_iff.mpr
    ⟨{ Scanner.initial with records := (Records.empty.addDeclaration d).addDeclaration d' }, ?_, rfl⟩
  rw [lines_problem notOp notOp', formula_ofTerms, formula_ofTerms, List.append_assoc]
  calc Scanner.initial.feedAll 1 _
    _ = between.feedAll 5 _ := first _
    _ = between.feedAll 6 _ := Scanner.feedAll_nil rfl rfl 5 _
    _ = Scanner.feedAll { between with records := between.records.addDeclaration d' } 10 [[]] :=
      second [[]]
    _ = _ := Scanner.feedAll_nil rfl rfl 10 []

end

/-! ## The translation of a problem -/

theorem Term.rename_rename (f g : Text → Text) (t : Term) :
    (t.rename f).rename g = t.rename fun name => g (f name) := by
  induction t with
  | var name => rfl
  | op left right ihl ihr => simp only [rename, ihl, ihr]

theorem Naming.finalize_of_declared (hypothesis : Text) (h c : Option Declaration) :
    (Naming.initial hypothesis).finalize { Records.empty with hypothesis := h, conjecture := c } =
      (Naming.initial hypothesis, .ok ⟨[], [], ∅⟩) := by
  have nothing : candidates { Records.empty with hypothesis := h, conjecture := c } = [] := by
    simp [candidates, sort, Records.empty]
  simp only [finalize, retain, nothing]
  rfl

/-- A script without lemmas and axioms has its goal proved from everything at hand. -/
theorem Script.assemble_of_laws {hypothesis conjecture : Declaration} {law law' : Law}
    (stated : Law.ofDeclaration hypothesis = .ok law)
    (stated' : Law.ofDeclaration conjecture = .ok law') (n : Naming) :
    Script.assemble hypothesis conjecture n ⟨[], [], ∅⟩ =
      .ok ⟨law, [], law', [.goal law'.statement.vars (.citing [])]⟩ := by
  have none : arrange [] = [] := rfl
  simp only [assemble, none, closing, stated, stated', List.any_nil, List.map_nil]
  rfl

theorem Template.theoremHeader_problem (hypothesisName : Text) :
    theoremHeader (lit "a1") (lit "conjecture0") hypothesisName =
      lit "theorem Equation_a1_implies_Equation_conjecture0 (G : Type _) [Magma G]\n    (" ++
        hypothesisName ++ lit " : Equation_a1 G) : Equation_conjecture0 G :=\n" := by
  have before : lit "theorem Equation_a1_implies_Equation_conjecture0 (G : Type _) [Magma G]\n    (" =
      lit "theorem Equation_" ++ lit "a1" ++ lit "_implies_Equation_" ++ lit "conjecture0" ++
        lit " (G : Type _) [Magma G]\n    (" := by
    simp only [← lit_append, String.reduceAppend]
  have after : lit " : Equation_a1 G) : Equation_conjecture0 G :=\n" = lit " : Equation_" ++
      lit "a1" ++ lit " G) : Equation_" ++ lit "conjecture0" ++ lit " G :=\n" := by
    simp only [← lit_append, String.reduceAppend]
  simp only [theoremHeader_eq, before, after, List.append_assoc]

/-- Renamed injectively, two terms are quantified over as many variables as they had. -/
theorem Statement.Says.vars_of_injOn {vars : List Text} {body : Text} {l r : Term}
    {f : Text → Text} (h : Says vars body (l.rename f) (r.rename f))
    (injective : Set.InjOn f {name | name ∈ l.names ++ r.names}) :
    vars = (List.range (l.names ++ r.names).dedup.length).map Renaming.rankName := by
  have distinct : ((l.names ++ r.names).dedup.map f).Nodup := by
    refine List.Nodup.map_on (fun a memA b memB => ?_) (List.nodup_dedup _)
    exact injective (List.mem_dedup.mp memA) (List.mem_dedup.mp memB)
  have perm : ((l.names ++ r.names).map f).dedup.Perm ((l.names ++ r.names).dedup.map f) :=
    (List.perm_ext_iff_of_nodup (List.nodup_dedup _) distinct).mpr fun name => by
      simp only [List.mem_dedup, List.mem_map]
  have renamed := h.vars_eq
  rwa [Term.names_rename, Term.names_rename, ← List.map_append, perm.length_eq,
    List.length_map] at renamed

/-- What a clause declares is stated by the law of its declaration, up to an injective renaming of
    the variables. -/
theorem Law.exists_of_clause {l r : Term} (notOp : lit "op" ∉ l.names ++ r.names) {vars : Text}
    (noBracket : Expression.bracket ∉ vars) (name : Text) (role : Role) (line : Nat) :
    ∃ law f, Law.ofDeclaration ⟨name, role, Expression.quantified vars
        (l.rename (Clause.newName (l.names ++ r.names)))
        (r.rename (Clause.newName (l.names ++ r.names))), line⟩ = .ok law ∧
      law.writeSchema = lit "abbrev Equation_" ++ name ++
        lit " (G : Type _) [Magma G] :=\n  ∀ " ++ join (lit " ") law.statement.vars ++
        lit " : G, " ++ law.statement.line ++ lit "\n" ∧
      law.name = name ∧ law.statement.vars ≠ [] ∧ Set.InjOn f {name | name ∈ l.names ++ r.names} ∧
      Statement.Says law.statement.vars law.statement.line (l.rename f) (r.rename f) := by
  obtain ⟨hl, hr⟩ := Clause.isLettered_equationOf notOp
  have notOperation := Clause.lower_ne_operation notOp
  have parsed := Expression.ofFormula_quantified noBracket hl hr
  have stated : Law.ofDeclaration ⟨name, role, Expression.quantified vars
      (l.rename (Clause.newName (l.names ++ r.names)))
      (r.rename (Clause.newName (l.names ++ r.names))), line⟩ =
      .ok ⟨name, .ofExpression (Clause.equationOf l r)⟩ := by
    simp only [Law.ofDeclaration, parsed]
    rfl
  have some := Statement.vars_ne_nil notOperation
  have said := Statement.says_line rfl notOperation
  rw [Term.rename_rename, Term.rename_rename] at said
  exact ⟨_, _, stated, Statement.writeSchema_quantified some, rfl, some,
    Clause.injOn_newName notOp, said⟩

namespace Translation

/-- The problem that is written for two equations without a variable `op` is translated. The
    script has no lemma and no axiom, and its two laws state the equations up to an injective
    renaming of the variables, each quantified over its own. -/
theorem ofTranscript_problem {a c : Text} {A C : Clause} (acceptsA : Clause.ofLean a = .ok A)
    (acceptsC : Clause.ofLean c = .ok C) {l r l' r' : Term} (statesA : Clause.States a l r)
    (statesC : Clause.States c l' r') (notOp : lit "op" ∉ l.names ++ r.names)
    (notOp' : lit "op" ∉ l'.names ++ r'.names) (o : Options) :
    ∃ (t : Translation) (vars vars' : List Text) (body body' : Text) (f f' : Text → Text),
      (ofTranscript (Clause.problem A C) o).2 = .ok t ∧
      t.hypothesis = lit "a1" ∧ t.conjecture = lit "conjecture0" ∧ t.lemmaCount = 0 ∧
      t.retainedAxioms = [] ∧
      t.document = joinLines
        [ Template.preamble,
          lit "abbrev Equation_a1 (G : Type _) [Magma G] :=\n  ∀ " ++ join (lit " ") vars ++
            lit " : G, " ++ body ++ lit "\n",
          lit "abbrev Equation_conjecture0 (G : Type _) [Magma G] :=\n  ∀ " ++
            join (lit " ") vars' ++ lit " : G, " ++ body' ++ lit "\n",
          lit "theorem Equation_a1_implies_Equation_conjecture0 (G : Type _) [Magma G]\n    (" ++
            o.hypothesisName ++ lit " : Equation_a1 G) : Equation_conjecture0 G :=\n" ++
            lit "  show _ by\n    intros " ++ join (lit " ") vars' ++ lit "\n    " ++ o.tactic ++
            lit " [*]\n" ] ∧
      Set.InjOn f {name | name ∈ l.names ++ r.names} ∧
      Statement.Says vars body (l.rename f) (r.rename f) ∧
      Set.InjOn f' {name | name ∈ l'.names ++ r'.names} ∧
      Statement.Says vars' body' (l'.rename f') (r'.rename f') := by
  have clauseA : A = Clause.ofTerms l r :=
    Except.ok.inj (acceptsA.symm.trans (Clause.ofLean_ok_iff.mpr ⟨l, r, statesA, rfl⟩))
  have clauseC : C = Clause.ofTerms l' r' :=
    Except.ok.inj (acceptsC.symm.trans (Clause.ofLean_ok_iff.mpr ⟨l', r', statesC, rfl⟩))
  subst clauseA clauseC
  have noBracket : Expression.bracket ∉
      Clause.problemVars (Clause.ofTerms l r) (Clause.ofTerms l' r') :=
    fun mem => absurd (Clause.isClauseUnit_of_mem_problemVars mem) (by decide)
  obtain ⟨law, f, stated, schema, name, -, injective, said⟩ :=
    Law.exists_of_clause notOp noBracket (lit "a1") .hypothesis 1
  obtain ⟨law', f', stated', schema', name', some, injective', said'⟩ :=
    Law.exists_of_clause notOp' noBracket (lit "conjecture0") .conjecture 6
  have scanned := Records.of_problem notOp notOp'
  let script : Script := ⟨law, [], law', [.goal law'.statement.vars (.citing [])]⟩
  have assembled := Script.assemble_of_laws stated stated' (Naming.initial o.hypothesisName)
  have translated : (ofTranscript (Clause.problem (Clause.ofTerms l r) (Clause.ofTerms l' r')) o).2 =
      .ok ⟨script.write o, lit "a1", lit "conjecture0", 0, [], ∅⟩ := by
    rw [ofTranscript, scanned]
    simp only [declared, Naming.finalize_of_declared, assembled]
    rfl
  refine ⟨_, law.statement.vars, law'.statement.vars, law.statement.line, law'.statement.line, f, f',
    translated, rfl, rfl, rfl, rfl, ?_, injective, said, injective', said'⟩
  have ofHypothesis : lit "abbrev Equation_a1 (G : Type _) [Magma G] :=\n  ∀ " =
      lit "abbrev Equation_" ++ lit "a1" ++ lit " (G : Type _) [Magma G] :=\n  ∀ " := by
    simp only [← lit_append, String.reduceAppend]
  have ofConjecture : lit "abbrev Equation_conjecture0 (G : Type _) [Magma G] :=\n  ∀ " =
      lit "abbrev Equation_" ++ lit "conjecture0" ++ lit " (G : Type _) [Magma G] :=\n  ∀ " := by
    simp only [← lit_append, String.reduceAppend]
  have ofTheorem : lit "theorem Equation_a1_implies_Equation_conjecture0 (G : Type _) [Magma G]\n    (" ++
      o.hypothesisName ++ lit " : Equation_a1 G) : Equation_conjecture0 G :=\n" ++
      lit "  show _ by\n    intros " ++ join (lit " ") law'.statement.vars ++ lit "\n    " ++
      o.tactic ++ lit " [*]\n" = Template.theoremHeader (lit "a1") (lit "conjecture0")
        o.hypothesisName ++ (Block.goal law'.statement.vars (.citing [])).write o := by
    rw [Template.theoremHeader_problem, Block.write_goal_citing some]
    simp only [List.append_assoc]
  rw [ofHypothesis, ofConjecture, ← schema, ← schema', ofTheorem]
  simp only [script, Script.write, name, name', List.map_nil, List.map_cons, List.append_nil,
    List.cons_append, List.nil_append, joinLines, join_singleton]

/-- From `x ◇ (y ◇ x) = y` to the commutative law. -/
theorem ofTranscript_problem_commutativity :
    let l : Term := .op (.var (lit "x")) (.op (.var (lit "y")) (.var (lit "x")))
    let r : Term := .var (lit "y")
    let l' : Term := .op (.var (lit "x")) (.var (lit "y"))
    let r' : Term := .op (.var (lit "y")) (.var (lit "x"))
    ∃ A C t f f' body body',
      Clause.ofLean (lit "x ◇ (y ◇ x) = y") = .ok A ∧
      Clause.ofLean (lit "x ◇ y = y ◇ x") = .ok C ∧
      Clause.States (lit "x ◇ (y ◇ x) = y") l r ∧ Clause.States (lit "x ◇ y = y ◇ x") l' r' ∧
      lit "op" ∉ l.names ++ r.names ∧ lit "op" ∉ l'.names ++ r'.names ∧
      (ofTranscript (Clause.problem A C) Options.standard).2 = .ok t ∧
      t.hypothesis = lit "a1" ∧ t.conjecture = lit "conjecture0" ∧ t.lemmaCount = 0 ∧
      t.retainedAxioms = [] ∧
      t.document = joinLines
        [ Template.preamble,
          lit "abbrev Equation_a1 (G : Type _) [Magma G] :=\n  ∀ x0 x1 : G, " ++ body ++ lit "\n",
          lit "abbrev Equation_conjecture0 (G : Type _) [Magma G] :=\n  ∀ x0 x1 : G, " ++ body' ++
            lit "\n",
          lit "theorem Equation_a1_implies_Equation_conjecture0 (G : Type _) [Magma G]\n" ++
            lit "    (op_law : Equation_a1 G) : Equation_conjecture0 G :=\n" ++
            lit "  show _ by\n    intros x0 x1\n    duper [*]\n" ] ∧
      Statement.Says [lit "x0", lit "x1"] body (l.rename f) (r.rename f) ∧
      Statement.Says [lit "x0", lit "x1"] body' (l'.rename f') (r'.rename f') := by
  intro l r l' r'
  have statesA : Clause.States (lit "x ◇ (y ◇ x) = y") l r :=
    ⟨lit "x ◇ (y ◇ x) ", lit " y", rfl, by decide, toOption_eq_some_iff.mp (by decide +kernel),
      toOption_eq_some_iff.mp (by decide +kernel)⟩
  have statesC : Clause.States (lit "x ◇ y = y ◇ x") l' r' :=
    ⟨lit "x ◇ y ", lit " y ◇ x", rfl, by decide, toOption_eq_some_iff.mp (by decide +kernel),
      toOption_eq_some_iff.mp (by decide +kernel)⟩
  have acceptsA := Clause.ofLean_ok_iff.mpr ⟨l, r, statesA, rfl⟩
  have acceptsC := Clause.ofLean_ok_iff.mpr ⟨l', r', statesC, rfl⟩
  have notOp : lit "op" ∉ l.names ++ r.names := by decide
  have notOp' : lit "op" ∉ l'.names ++ r'.names := by decide
  obtain ⟨t, vars, vars', body, body', f, f', translated, hypothesis, conjecture, lemmas, axioms,
    document, injective, said, injective', said'⟩ :=
    ofTranscript_problem acceptsA acceptsC statesA statesC notOp notOp' Options.standard
  have two : vars = [lit "x0", lit "x1"] :=
    (said.vars_of_injOn injective).trans (by decide +kernel)
  have two' : vars' = [lit "x0", lit "x1"] :=
    (said'.vars_of_injOn injective').trans (by decide +kernel)
  subst two two'
  refine ⟨_, _, t, f, f', body, body', acceptsA, acceptsC, statesA, statesC, notOp, notOp',
    translated, hypothesis, conjecture, lemmas, axioms, document.trans ?_, said, said'⟩
  have ofHypothesis : lit "abbrev Equation_a1 (G : Type _) [Magma G] :=\n  ∀ x0 x1 : G, " =
      lit "abbrev Equation_a1 (G : Type _) [Magma G] :=\n  ∀ " ++
        join (lit " ") [lit "x0", lit "x1"] ++ lit " : G, " := by
    simp only [join_lit_pair, ← lit_append, String.reduceAppend]
  have ofConjecture :
      lit "abbrev Equation_conjecture0 (G : Type _) [Magma G] :=\n  ∀ x0 x1 : G, " =
      lit "abbrev Equation_conjecture0 (G : Type _) [Magma G] :=\n  ∀ " ++
        join (lit " ") [lit "x0", lit "x1"] ++ lit " : G, " := by
    simp only [join_lit_pair, ← lit_append, String.reduceAppend]
  have ofTheorem : lit "theorem Equation_a1_implies_Equation_conjecture0 (G : Type _) [Magma G]\n" ++
      lit "    (op_law : Equation_a1 G) : Equation_conjecture0 G :=\n" ++
      lit "  show _ by\n    intros x0 x1\n    duper [*]\n" =
      lit "theorem Equation_a1_implies_Equation_conjecture0 (G : Type _) [Magma G]\n    (" ++
        Options.standard.hypothesisName ++ lit " : Equation_a1 G) : Equation_conjecture0 G :=\n" ++
        lit "  show _ by\n    intros " ++ join (lit " ") [lit "x0", lit "x1"] ++ lit "\n    " ++
        Options.standard.tactic ++ lit " [*]\n" := by
    simp only [Options.standard, join_lit_pair, ← lit_append, String.reduceAppend]
  rw [ofHypothesis, ofConjecture, ofTheorem]

end Translation

end MagmaTrace
