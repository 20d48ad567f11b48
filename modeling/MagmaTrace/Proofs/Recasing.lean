import MagmaTrace.Proofs.Capture
import MagmaTrace.Proofs.Formulas
import MagmaTrace.Proofs.Normalization
import MagmaTrace.Proofs.Statements

/-! # Constants and variables

A prover negates the conjecture, so the goal is about constants whose names are those of the
conjecture's variables in another case. Both are written in variables named by rank, and the ranks
go by the lower-case forms. So the goal's block introduces the very variables that the conjecture
is quantified over, in that order (`Translation.intros_of_goal`), and the chain of its proof is
the same in whatever case each line writes them (`CalcStep.ofBlock_recased`).
-/

namespace MagmaTrace

open Text

/-! ## Case -/

namespace Text

theorem isLetter_lowerLetter (u : CodeUnit) : isLetter (lowerLetter u) = isLetter u := by
  rw [Bool.eq_iff_iff, isLetter_iff, isLetter_iff]
  rcases lowerLetter_cases u with same | ⟨shifted, capital⟩
  · rw [same]
  · omega

theorem isWord_lowerLetter (u : CodeUnit) : isWord (lowerLetter u) = isWord u := by
  rw [Bool.eq_iff_iff, isWord_iff, isWord_iff]
  rcases lowerLetter_cases u with same | ⟨shifted, capital⟩
  · rw [same]
  · omega

theorem isIdentifier_lowerLetters {name : Text} :
    IsIdentifier (lowerLetters name) ↔ IsIdentifier name := by
  cases name with
  | nil => exact Iff.rfl
  | cons u word =>
      simp [lowerLetters, IsIdentifier, isLetter_lowerLetter, isWord_lowerLetter]

theorem lower_eq_of_lowerLetters {a b : Text} (same : lowerLetters a = lowerLetters b) :
    lower a = lower b := by
  rw [← lower_lowerLetters a, same, lower_lowerLetters]

theorem Changed.lowerLetters_eq {R : Text → Text → Prop} {a b : Text} (h : Changed R a b)
    (agree : ∀ old new, R old new → lowerLetters old = lowerLetters new) :
    lowerLetters a = lowerLetters b := by
  have ofPieces {pieces pieces' : List Piece} (h : List.Forall₂ (Piece.Changes R) pieces pieces') :
      lowerLetters (pieces.flatMap (Piece.write id)) =
        lowerLetters (pieces'.flatMap (Piece.write id)) := by
    induction h with
    | nil => rfl
    | cons here _ ih =>
        rw [List.flatMap_cons, List.flatMap_cons, lowerLetters_append, lowerLetters_append, ih]
        cases here with
        | name allowed => exact congrArg (· ++ _) (agree _ _ allowed)
        | other u => rfl
  obtain ⟨pieces, changes, rfl⟩ := h
  rw [← ofPieces changes, Piece.write_cut]

end Text

namespace Renaming

variable {e : Expression} {old new : Text}

/-- What may be written for a name: the name, and for a variable any name that is the same but
    for the case of its letters. -/
def Recases (e : Expression) (old new : Text) : Prop :=
  old = new ∨ InScope e old ∧ lowerLetters old = lowerLetters new

theorem Recases.lowerLetters_eq (h : Recases e old new) :
    lowerLetters old = lowerLetters new := by
  obtain rfl | ⟨-, same⟩ := h
  · rfl
  · exact same

theorem Recases.lower_eq (h : Recases e old new) : lower old = lower new :=
  lower_eq_of_lowerLetters h.lowerLetters_eq

theorem Recases.isIdentifier (isName : IsIdentifier old) (h : Recases e old new) :
    IsIdentifier new := by
  rwa [← isIdentifier_lowerLetters, ← h.lowerLetters_eq, isIdentifier_lowerLetters]

/-- The operation's name stands for itself only. -/
theorem Recases.eq_of_operation (h : Recases e old new) (isOp : lower old = operation) :
    old = new := by
  obtain rfl | ⟨inScope, -⟩ := h
  · rfl
  · exact absurd isOp inScope.1

theorem apply_eq_of_lower (inScope : InScope e old) (same : lower old = lower new) :
    (scope e).apply old = (scope e).apply new := by
  have inScope' : InScope e new := by rwa [InScope, ← same]
  rw [apply_of_inScope inScope, apply_of_inScope inScope', rankIn, rankIn, same]

theorem Recases.apply_eq (h : Recases e old new) :
    (scope e).apply old = (scope e).apply new := by
  obtain rfl | ⟨inScope, same⟩ := h
  · rfl
  · exact apply_eq_of_lower inScope (lower_eq_of_lowerLetters same)

end Renaming

open Renaming

/-! ## The statement -/

namespace Expression

/-- Two expressions that differ in the case of their leaves. -/
abbrev SameButCase : Expression → Expression → Prop := Changed fun old new => lower old = lower new

theorem SameButCase.forms_eq {f g : Expression} (h : SameButCase f g) :
    forms f.names = forms g.names := by
  have lowered : f.rename lower = g.rename lower := h.rename_eq fun _ _ _ same => same
  rw [forms, ← names_rename, lowered, names_rename, forms]

theorem SameButCase.scope_eq {f g : Expression} (h : SameButCase f g) : scope f = scope g :=
  ofNames_eq_of_forms h.forms_eq

theorem SameButCase.ofExpression_eq {f g : Expression} (h : SameButCase f g)
    (notOp : ∀ name ∈ f.names, lower name ≠ operation) :
    Statement.ofExpression g = Statement.ofExpression f := by
  have agree : ∀ old ∈ f.names, ∀ new, lower old = lower new →
      (scope f).apply old = (scope f).apply new :=
    fun old mem _ same => apply_eq_of_lower ⟨notOp old mem, old, mem, rfl⟩ same
  have renamed : f.rename (scope f).apply = g.rename (scope f).apply := h.rename_eq agree
  rw [Statement.ofExpression, Statement.ofExpression, ← h.scope_eq, renamed]

end Expression

/-! ## The chain -/

namespace Term

theorem Spells.cut_append {t : Term} {spelling rest : Text} (h : Spells t spelling)
    (stops : t.Stops rest) :
    Piece.cut (spelling ++ rest) = Piece.cut spelling ++ Piece.cut rest := by
  cases h with
  | var => exact Piece.cut_stopped _ (stops _ rfl).1
  | @op _ _ gap a toComma b toClose =>
      have last : (gap ++ (opening ++ (a ++ (toComma ++ comma :: (b ++ (toClose ++
          [closeMark])))))).getLast? = some closeMark := by simp [List.getLast?_cons]
      refine Piece.cut_ended (fun u ended => ?_) rest
      rw [last] at ended
      cases ended
      decide

/-- A term is read off a changed text as well, with its leaves changed. -/
theorem exists_of_readAt_changed {R : Text → Text → Prop} {t : Term} {text text' : Text}
    {stop : Nat}
    (keeps : ∀ old new, IsIdentifier old → R old new → IsIdentifier new)
    (fixed : ∀ new, R (lit "op") new → new = lit "op")
    (fresh : ∀ old, R old (lit "op") → old = lit "op")
    (h : readAt text 0 = .ok (t, stop)) (changed : Text.Changed R text text') :
    ∃ t' stop', Changed R t t' ∧ readAt text' 0 = .ok (t', stop') := by
  obtain ⟨spelling, rest, split, spells, stops, -⟩ := readAt_ok_iff.mp h
  rw [List.drop_zero] at split
  subst split
  obtain ⟨spelling', rest', rfl, ofTerm, ofRest⟩ := changed.split_of_cut (spells.cut_append stops)
  obtain ⟨t', renamed, spells'⟩ := spells.changed keeps fixed ofTerm
  have stops' : t'.Stops rest' := by
    intro name isVar
    subst isVar
    cases renamed with
    | var allowed =>
        obtain ⟨stop, notOpen⟩ := stops _ rfl
        rw [ofRest.head?_eq stop]
        exact ⟨stop, fun isOp => notOpen (fresh _ (isOp ▸ allowed))⟩
  exact ⟨t', _, renamed, readAt_ok_iff.mpr ⟨spelling', rest', rfl, spells', stops', rfl⟩⟩

end Term

namespace CalcStep

theorem not_isJustification_of_readAt {text : Text} {t : Term} {stop : Nat}
    (h : Term.readAt text 0 = .ok (t, stop)) : isJustification text = false := by
  obtain ⟨spelling, rest, split, spells, -, -⟩ := Term.readAt_ok_iff.mp h
  obtain ⟨⟨gap, u, more, rfl, blank, letter, -⟩, -⟩ := spells.ends
  rw [List.drop_zero, List.append_assoc, List.cons_append] at split
  have notBlank (v : CodeUnit) (isBlank : isBlank v = true) : v ≠ '=' := by
    rintro rfl
    exact absurd isBlank (by decide)
  have notLetter : u ≠ '=' := by
    rintro rfl
    exact absurd letter (by decide)
  have noSign : strip? (lit "=") text = none :=
    strip?_of_head (split ▸ head?_gap blank notBlank notLetter (more ++ rest)) []
  simp [isJustification, noSign]

theorem side?_eq_some {line : ProofLine} {t : Term} :
    side? line = some t ↔ lower line.text ≠ lit "proof:" ∧
      ∃ stop, Term.readAt line.text 0 = .ok (t, stop) := by
  unfold side?
  constructor
  · intro h
    split at h
    · next possible =>
        obtain ⟨⟨_, stop⟩, found, rfl⟩ := Option.map_eq_some_iff.mp h
        have notHeading : lower line.text ≠ lit "proof:" := by
          simp only [isSide, Bool.and_eq_true, bne_iff_ne] at possible
          exact possible.1.2
        exact ⟨notHeading, stop, toOption_eq_some_iff.mp found⟩
    · cases h
  · rintro ⟨notHeading, stop, isRead⟩
    have nonempty : line.text ≠ [] := by
      obtain ⟨spelling, rest, split, spells, -⟩ := Term.readAt_ok_iff.mp isRead
      rw [List.drop_zero] at split
      exact split ▸ List.append_ne_nil_of_left_ne_nil spells.ne_nil rest
    have possible : isSide line.text = true := by
      simp [isSide, nonempty, notHeading, not_isJustification_of_readAt isRead]
    rw [if_pos possible, isRead]
    rfl

variable {e : Expression} {n : Naming}

/-- The second line is the first, or it states a term and writes the variables of an expression
    in it in whatever case. -/
inductive Recased (e : Expression) : ProofLine → ProofLine → Prop where
  | same (line : ProofLine) : Recased e line line
  | term {old new : Text} {line : Nat} {t : Term} (states : side? ⟨old, line⟩ = some t)
      (changed : Text.Changed (Recases e) old new) : Recased e ⟨old, line⟩ ⟨new, line⟩

theorem exists_side?_of_changed {old new : Text} {line : Nat} {t : Term}
    (states : side? ⟨old, line⟩ = some t) (changed : Text.Changed (Recases e) old new) :
    ∃ t', side? ⟨new, line⟩ = some t' ∧
      t.rename (scope e).apply = t'.rename (scope e).apply := by
  obtain ⟨notHeading, stop, isRead⟩ := side?_eq_some.mp states
  have fixed : ∀ new, Recases e (lit "op") new → new = lit "op" :=
    fun _ allowed => (allowed.eq_of_operation (by decide)).symm
  have fresh : ∀ old, Recases e old (lit "op") → old = lit "op" :=
    fun _ allowed => allowed.eq_of_operation (allowed.lower_eq.trans (by decide))
  obtain ⟨t', stop', renamed, isRead'⟩ := Term.exists_of_readAt_changed
    (fun _ _ => Recases.isIdentifier) fixed fresh isRead changed
  have sameCase : lower old = lower new :=
    lower_eq_of_lowerLetters (changed.lowerLetters_eq fun _ _ => Recases.lowerLetters_eq)
  exact ⟨t', side?_eq_some.mpr ⟨sameCase ▸ notHeading, stop', isRead'⟩,
    renamed.rename_eq fun _ _ _ => Recases.apply_eq⟩

theorem readSide_recased {side : Neighbour} {justification : ProofLine}
    {line line' : Option ProofLine} (h : Option.Rel (Recased e) line line') :
    readSide (scope e) side justification line' = readSide (scope e) side justification line := by
  cases h with
  | none => rfl
  | some recased =>
      cases recased with
      | same => rfl
      | @term old new line t states changed =>
          obtain ⟨t', states', same⟩ := exists_side?_of_changed states changed
          have readOld : readSide (scope e) side justification (some ⟨old, line⟩) =
              .ok (t.rename (scope e).apply).lean := readSide_ok_iff.mpr ⟨t, states, rfl⟩
          have readNew : readSide (scope e) side justification (some ⟨new, line⟩) =
              .ok (t'.rename (scope e).apply).lean := readSide_ok_iff.mpr ⟨t', states', rfl⟩
          rw [readOld, readNew, same]

theorem ofLinesAfter_recased {lines lines' : List ProofLine}
    (h : List.Forall₂ (Recased e) lines lines') {before before' : Option ProofLine}
    (previous : Option.Rel (Recased e) before before') :
    ofLinesAfter (scope e) n before' lines' = ofLinesAfter (scope e) n before lines := by
  -- On the lines to come, with the last line passed as a side that may be recased as well.
  induction h generalizing before before' with
  | nil => rfl
  | @cons line line' rest rest' here others ih =>
      have next : Option.Rel (Recased e) rest.head? rest'.head? := by
        cases others with
        | nil => exact .none
        | cons following _ => exact .some following
      cases here with
      | same =>
          simp only [ofLinesAfter, ofLines, readSide_recased previous, readSide_recased next,
            ih (.some (.same line))]
      | term states changed =>
          obtain ⟨t', states', -⟩ := exists_side?_of_changed states changed
          obtain ⟨-, _, isRead⟩ := side?_eq_some.mp states
          obtain ⟨-, _, isRead'⟩ := side?_eq_some.mp states'
          rw [ofLinesAfter, ofLinesAfter, not_isJustification_of_readAt isRead,
            not_isJustification_of_readAt isRead', ih (.some (.term states changed))]
          rfl

/-- In the scope of an expression the chain of a proof does not depend on the case of the
    expression's variables in its terms. -/
theorem ofBlock_recased {block : ProofBlock} {lines : List ProofLine}
    (h : List.Forall₂ (Recased e) block.lines lines) :
    ofBlock (scope e) n { block with lines := lines } = ofBlock (scope e) n block :=
  ofLinesAfter_recased h .none

end CalcStep

/-! ## The goal -/

/-- When a translation succeeds and one lemma proves the conjecture, with the conjecture's
    expression but for the case of the leaves, both have the same statement. The script ends with
    the goal's block, which introduces the variables in the order in which the conjecture's law is
    quantified over them. Its chain is the same if the lines write the variables in other cases. -/
theorem Translation.intros_of_goal {text : Text} {o : Options} {t : Translation}
    (h : (ofTranscript text o).2 = .ok t) : ∃ st : Stages text o, t.document = st.document ∧
      ∀ goal f, st.resolution.lemmas.filter (·.isConjecture) = [goal] →
        Expression.ofFormula st.conjecture.formula = .ok f →
        f.SameButCase goal.expression → (∀ name ∈ f.names, lower name ≠ operation) →
        Statement.ofExpression goal.expression = Statement.ofExpression f ∧
        ∃ earlier proof,
          st.script.blocks = earlier ++ [.goal (Statement.ofExpression f).vars proof] ∧
          (∀ b ∈ earlier, ∃ name statement how, b = .auxiliary name statement how) ∧
          (∃ before after, st.document = before ++
            (lit "abbrev Equation_" ++ st.conjecture.name ++
              lit " (G : Type _) [Magma G] :=\n  ∀ " ++
              join (lit " ") (Statement.ofExpression f).vars ++ lit " : G, " ++
              (Statement.ofExpression f).line ++ lit "\n") ++ after ++
            (lit "  show _ by\n    intros " ++
              join (lit " ") (Statement.ofExpression f).vars ++ lit "\n" ++
              proof.write o ++ lit "\n")) ∧
          ∀ block, goal.proof = some block → ∃ steps, proof = .chain steps ∧
            CalcStep.ofBlock (scope goal.expression) st.naming block = .ok steps ∧
            ∀ lines, List.Forall₂ (CalcStep.Recased goal.expression) block.lines lines →
              CalcStep.ofBlock (scope goal.expression) st.naming { block with lines := lines } =
                .ok steps := by
  obtain ⟨st, document⟩ := Stages.exists_of_ofTranscript h
  refine ⟨st, document, ?_⟩
  intro goal f only stated alike notOp
  have same := alike.ofExpression_eq notOp
  have some := Statement.vars_ne_nil notOp
  obtain ⟨earlier, proof, blocks, chains, others⟩ := st.exists_goal_block only
  rw [same] at blocks
  refine ⟨same, earlier, proof, blocks, others, ?_, ?_⟩
  · have law : st.script.conjecture = ⟨st.conjecture.name, Statement.ofExpression f⟩ := by
      obtain ⟨_, _, -, -, _, law, -, declares, script⟩ := Script.assemble_ok_iff.mp st.assembled
      rw [Law.ofDeclaration, stated] at declares
      cases declares
      rw [script]
    obtain ⟨before, after, whole⟩ := st.exists_around_schema blocks
    rw [law, Statement.writeSchema_quantified some, Block.write_goal some] at whole
    exact ⟨before, after, whole⟩
  · intro block proved
    obtain ⟨steps, chained, built⟩ := chains block proved
    exact ⟨steps, chained, built,
      fun lines recased => (CalcStep.ofBlock_recased recased).trans built⟩

/-! ## A goal about constants -/

namespace Translation

/-- A transcript whose goal writes the variables of the conjecture in either case. -/
def constants : Text := joinLines
  [ lit "fof(h,axiom,X=X).",
    lit "fof(g,conjecture,! [A,B] : op(A,B) = op(A,B)).",
    Event.proofMarker,
    lit "Goal 1: op(a, B) = op(A, b)",
    lit "op(a, b)",
    lit "= \x7b by axiom 1 (a1) \x7d",
    lit "op(a, b)" ]

/-- Its conjecture, and its goal. -/
def constantsConjecture : Expression :=
  .equation (.op (.var (lit "A")) (.var (lit "B"))) (.op (.var (lit "A")) (.var (lit "B")))

def constantsGoal : Expression :=
  .equation (.op (.var (lit "a")) (.var (lit "B"))) (.op (.var (lit "A")) (.var (lit "b")))

/-- The lines of its proof with the second side written in capitals. -/
def constantsLines (last : Text) : List ProofLine :=
  [⟨lit "op(a, b)", 5⟩, ⟨lit "= \x7b by axiom 1 (a1) \x7d", 6⟩, ⟨last, 7⟩]

theorem constants_evaluated :
    (ofTranscript constants Options.standard).2.isOk = true ∧
    (declared? constants).map (fun d => (d.2.name, Expression.ofFormula d.2.formula)) =
      some (lit "g", .ok constantsConjecture) ∧
    (resolution? constants Options.standard).map (fun r => (r.lemmas.filter (·.isConjecture)).map
      fun goal => (goal.expression, goal.proof)) =
    some [(constantsGoal, some ⟨lit "g", constantsLines (lit "op(a, b)")⟩)] := by
  decide +kernel

/-- In capitals the last line of the proof is the same side of the same step. -/
theorem recased_constants : List.Forall₂ (CalcStep.Recased constantsGoal)
    (constantsLines (lit "op(a, b)")) (constantsLines (lit "op(A, B)")) := by
  have states : CalcStep.side? ⟨lit "op(a, b)", 7⟩ =
      some (.op (.var (lit "a")) (.var (lit "b"))) := by decide +kernel
  have pieces : Piece.cut (lit "op(a, b)") = [.name (lit "op"), .other '(', .name (lit "a"),
      .other ',', .other ' ', .name (lit "b"), .other ')'] := by decide +kernel
  have changed : Text.Changed (Recases constantsGoal) (lit "op(a, b)") (lit "op(A, B)") := by
    refine ⟨[.name (lit "op"), .other '(', .name (lit "A"), .other ',', .other ' ',
      .name (lit "B"), .other ')'], ?_, rfl⟩
    rw [pieces]
    have ofA : Recases constantsGoal (lit "a") (lit "A") := .inr (by decide)
    have ofB : Recases constantsGoal (lit "b") (lit "B") := .inr (by decide)
    exact .cons (.name (.inl rfl)) (.cons (.other _) (.cons (.name ofA) (.cons (.other _)
      (.cons (.other _) (.cons (.name ofB) (.cons (.other _) .nil))))))
  exact .cons (.same _) (.cons (.same _) (.cons (.term states changed) .nil))

theorem intros_of_goal_constants : ∃ t, (ofTranscript constants Options.standard).2 = .ok t ∧
    ∃ st : Stages constants Options.standard, t.document = st.document ∧
      Statement.ofExpression constantsGoal = Statement.ofExpression constantsConjecture ∧
      (∃ before after proof, st.document = before ++
        lit "abbrev Equation_g (G : Type _) [Magma G] :=\n  ∀ x0 x1 : G, (x0 ◇ x1) = (x0 ◇ x1)\n" ++
        after ++ (lit "  show _ by\n    intros x0 x1\n" ++ proof ++ lit "\n")) ∧
      ∃ steps, CalcStep.ofBlock (scope constantsGoal) st.naming
          ⟨lit "g", constantsLines (lit "op(a, b)")⟩ = .ok steps ∧
        CalcStep.ofBlock (scope constantsGoal) st.naming
          ⟨lit "g", constantsLines (lit "op(A, B)")⟩ = .ok steps := by
  obtain ⟨translates, declares, goals⟩ := constants_evaluated
  obtain ⟨t, translated⟩ := isOk_iff.mp translates
  obtain ⟨st, document, linedUp⟩ := intros_of_goal translated
  rw [st.declared?_eq, Option.map_some, Option.some_inj] at declares
  obtain ⟨named, stated⟩ := Prod.mk.inj declares
  rw [st.resolution?_eq, Option.map_some, Option.some_inj, List.map_eq_singleton_iff] at goals
  obtain ⟨goal, only, found⟩ := goals
  obtain ⟨isGoal, proved⟩ := Prod.mk.inj found
  have alike : constantsConjecture.SameButCase constantsGoal :=
    .equation (.op (.var (by decide)) (.var (by decide)))
      (.op (.var (by decide)) (.var (by decide)))
  rw [← isGoal] at alike
  obtain ⟨same, _, proof, -, -, ⟨before, after, text⟩, chains⟩ :=
    linedUp goal constantsConjecture only stated alike (by decide)
  obtain ⟨steps, -, built, recased⟩ := chains _ proved
  have order : canonicalOrder constantsConjecture.names = [lit "a", lit "b"] :=
    sort_eq_of_perm (by decide) (by decide)
  have statement : Statement.ofExpression constantsConjecture =
      ⟨[lit "x0", lit "x1"], .equation (.op (.var (lit "x0")) (.var (lit "x1")))
        (.op (.var (lit "x0")) (.var (lit "x1")))⟩ := by
    simp only [Statement.ofExpression, scope, ofNames, order]
    decide +kernel
  have law :
      lit "abbrev Equation_g (G : Type _) [Magma G] :=\n  ∀ x0 x1 : G, (x0 ◇ x1) = (x0 ◇ x1)\n" =
      lit "abbrev Equation_" ++ lit "g" ++ lit " (G : Type _) [Magma G] :=\n  ∀ " ++
        join (lit " ") [lit "x0", lit "x1"] ++ lit " : G, " ++
        Statement.line ⟨[lit "x0", lit "x1"], .equation (.op (.var (lit "x0")) (.var (lit "x1")))
          (.op (.var (lit "x0")) (.var (lit "x1")))⟩ ++ lit "\n" := by
    decide +kernel
  have intros : lit "  show _ by\n    intros x0 x1\n" = lit "  show _ by\n    intros " ++
      join (lit " ") [lit "x0", lit "x1"] ++ lit "\n" := by
    simp only [join_lit_pair, ← lit_append, String.reduceAppend]
  rw [named, statement, ← law, ← intros] at text
  rw [isGoal] at same built recased
  exact ⟨t, translated, st, document, same, ⟨before, after, _, text⟩, steps, built,
    recased _ recased_constants⟩

end Translation

end MagmaTrace
