import MagmaTrace.Proofs.Language
import MagmaTrace.Proofs.Scan

/-! # Declared formulas

A text is put together from lines and taken apart again (`Text.lines_joinLines`). A declaration
of an equation under a quantifier reads back, on one line or on several.
-/

namespace MagmaTrace

open Text

namespace Text

/-! ## Lines -/

/-- A text without any unit that ends a line. -/
def IsUnbroken (text : Text) : Prop := ∀ u ∈ text, isLineEnd u = false

instance (text : Text) : Decidable (IsUnbroken text) := List.decidableBAll _ text

theorem isUnbroken_append {a b : Text} : IsUnbroken (a ++ b) ↔ IsUnbroken a ∧ IsUnbroken b :=
  List.forall_mem_append

theorem IsUnbroken.of_isSolid {text : Text} (solid : IsSolid text) : IsUnbroken text :=
  fun u mem => isLineEnd_of_not_isBlank (solid u mem)

/-- A text that stays whole when a line feed follows it. -/
structure IsLine (text : Text) : Prop where
  noFeed : newline ∉ text
  noReturn : text.getLast? ≠ some carriageReturn

theorem IsLine.of_isUnbroken {text : Text} (h : IsUnbroken text) : IsLine text := by
  refine ⟨fun mem => absurd (h _ mem) (by decide), fun last => ?_⟩
  exact absurd (h _ (List.mem_of_mem_getLast? last)) (by decide)

theorem lines_cons {u : CodeUnit} {rest first : Text} {others : List Text} (notFeed : u ≠ newline)
    (noEnd : u = carriageReturn → rest.head? ≠ some newline) (h : lines rest = first :: others) :
    lines (u :: rest) = (u :: first) :: others := by
  rw [lines.eq_def]
  split
  · next none => cases none
  · next more both =>
      cases both
      exact absurd rfl (noEnd rfl)
  · next more feed =>
      cases feed
      exact absurd rfl notFeed
  · next v more _ _ same =>
      cases same
      rw [h]
      rfl

theorem lines_append_newline {line : Text} (h : IsLine line) (rest : Text) :
    lines (line ++ newline :: rest) = line :: lines rest := by
  obtain ⟨noFeed, noReturn⟩ := h
  induction line with
  | nil => rfl
  | cons u more ih =>
      rw [List.mem_cons, not_or] at noFeed
      by_cases last : more = []
      · subst more
        have other : u ≠ carriageReturn := fun same => noReturn (congrArg some same)
        exact lines_cons (Ne.symm noFeed.1) (fun same => absurd same other) rfl
      · have sameEnd : (u :: more).getLast? = more.getLast? := List.getLast?_cons_of_ne_nil last
        refine lines_cons (Ne.symm noFeed.1) (fun _ next => ?_) (ih noFeed.2 (sameEnd ▸ noReturn))
        change (more ++ newline :: rest).head? = some newline at next
        rw [List.head?_append, Option.or_of_isSome (List.isSome_head?.mpr last)] at next
        exact noFeed.2 (List.mem_of_mem_head? next)

theorem lines_of_not_mem {line : Text} (h : newline ∉ line) : lines line = [line] := by
  induction line with
  | nil => rfl
  | cons u more ih =>
      rw [List.mem_cons, not_or] at h
      refine lines_cons (Ne.symm h.1) (fun _ next => ?_) (ih h.2)
      exact h.2 (List.mem_of_mem_head? next)

/-- Lines with line feeds between them are found again. -/
theorem lines_joinLines {pieces : List Text} (nonempty : pieces ≠ [])
    (whole : ∀ piece ∈ pieces, IsLine piece) : lines (joinLines pieces) = pieces := by
  unfold joinLines
  induction pieces with
  | nil => exact absurd rfl nonempty
  | cons piece more ih =>
      obtain ⟨here, later⟩ := List.forall_mem_cons.mp whole
      by_cases last : more = []
      · subst more
        rw [join_singleton, lines_of_not_mem here.noFeed]
      · rw [join_cons last, List.append_assoc, List.singleton_append, lines_append_newline here,
          ih last later]

/-! ## Fields -/

/-- A nonempty text without white space at its ends. -/
structure IsTrimmed (text : Text) : Prop where
  nonempty : text ≠ []
  first : ∀ u ∈ text.head?, isBlank u = false
  last : ∀ u ∈ text.getLast?, isBlank u = false

namespace IsTrimmed

theorem of_isSolid {text : Text} (solid : IsSolid text) (nonempty : text ≠ []) : IsTrimmed text :=
  ⟨nonempty, fun u first => solid u (List.mem_of_mem_head? first),
    fun u last => solid u (List.mem_of_mem_getLast? last)⟩

/-- Only the ends matter. -/
theorem around {a b : Text} (ha : IsTrimmed a) (middle : Text) (hb : IsTrimmed b) :
    IsTrimmed (a ++ (middle ++ b)) := by
  refine ⟨List.append_ne_nil_of_left_ne_nil ha.nonempty _, fun u first => ?_, fun u last => ?_⟩
  · rw [List.head?_append, Option.or_of_isSome (List.isSome_head?.mpr ha.nonempty)] at first
    exact ha.first u first
  · rw [← List.append_assoc, List.getLast?_append,
      Option.or_of_isSome (List.getLast?_isSome.mpr hb.nonempty)] at last
    exact hb.last u last

/-- Trimming takes off the white space around a trimmed text. -/
theorem trim_around {text lead tail : Text} (h : IsTrimmed text) (before : IsBlank lead)
    (after : IsBlank tail) : trim (lead ++ (text ++ tail)) = text := by
  have begins : ∀ u ∈ (text ++ tail).head?, isBlank u = false := by
    rw [List.head?_append, Option.or_of_isSome (List.isSome_head?.mpr h.nonempty)]
    exact h.first
  have dropped : skipBlanks (lead ++ (text ++ tail)) = text ++ tail := (cut_append before begins).2
  rw [trim, dropped, dropEndWhile_append h.last after]

theorem trim_indented {text lead : Text} (h : IsTrimmed text) (before : IsBlank lead) :
    trim (lead ++ text) = text := by
  have whole := h.trim_around before isBlank_nil
  rwa [List.append_nil] at whole

theorem trim_eq {text : Text} (h : IsTrimmed text) : trim text = text := by
  exact h.trim_indented isBlank_nil

end IsTrimmed

theorem strip?_of_head {a : CodeUnit} {text : Text} (other : ∀ u ∈ text.head?, u ≠ a)
    (lead : Text) : strip? (a :: lead) text = none := by
  cases text with
  | nil => rfl
  | cons u rest => rw [strip?, if_neg (Ne.symm (other u rfl))]

theorem occurs_append (mark rest : Text) : occurs mark (mark ++ rest) = true :=
  occurs_iff.mpr (List.prefix_append mark rest).isInfix

theorem endsWith_append (text tail : Text) : endsWith tail (text ++ tail) = true :=
  endsWith_iff.mpr (List.suffix_append text tail)

theorem occurs_of_not_mem {mark text : Text} {u : CodeUnit} (inside : u ∈ mark) (h : u ∉ text) :
    occurs mark text = false := by
  rw [← Bool.not_eq_true, occurs_iff]
  exact fun occurs => h (occurs.subset inside)

theorem mem_join {separator : Text} {pieces : List Text} {u : CodeUnit}
    (h : u ∈ join separator pieces) : u ∈ separator ∨ ∃ piece ∈ pieces, u ∈ piece := by
  induction pieces with
  | nil => cases h
  | cons piece more ih =>
      by_cases last : more = []
      · subst more
        rw [join_singleton] at h
        exact .inr ⟨piece, List.mem_cons_self, h⟩
      · rw [join_cons last, List.append_assoc, List.mem_append, List.mem_append] at h
        rcases h with here | between | later
        · exact .inr ⟨piece, List.mem_cons_self, here⟩
        · exact .inl between
        · exact (ih later).imp_right fun ⟨other, mem, inside⟩ =>
            ⟨other, List.mem_cons_of_mem _ mem, inside⟩

end Text

namespace Declaration

open Term (comma closeMark)

/-- The unit that a declaration ends with. -/
def period : CodeUnit := '.'

theorem ending_eq : ending = [closeMark, period] := by decide

theorem fieldText?_of_trim {field word : Text} (trimmed : trim field = word)
    (nonempty : word ≠ []) : fieldText? field = some word := by
  unfold fieldText?
  rw [trimmed]
  cases word with
  | nil => exact absurd rfl nonempty
  | cons u more => rfl

theorem field?_eq_some {text name rest : Text} : field? text = some (name, rest) ↔
    ∃ field, text = field ++ comma :: rest ∧ comma ∉ field ∧ fieldText? field = some name := by
  constructor
  · intro taken
    unfold field? at taken
    split at taken
    · cases taken
    · next u more dropped =>
        obtain ⟨x, found, same⟩ := Option.map_eq_some_iff.mp taken
        cases same
        obtain rfl : u = comma := eq_of_dropWhile_mark dropped
        refine ⟨_, ?_, notMem_takeWhile_mark comma text, found⟩
        rw [← dropped]
        exact List.takeWhile_append_dropWhile.symm
  · rintro ⟨field, rfl, noComma, found⟩
    obtain ⟨taken, dropped⟩ := cut_mark noComma rest
    have mark : (',' : CodeUnit) = comma := rfl
    simp only [field?, mark, dropped, taken, found, Option.map_some]

theorem beforeEnding?_eq_some {text body : Text} : beforeEnding? text = some body ↔
    ∃ gap, IsBlank gap ∧ text = body ++ closeMark :: (gap ++ [period]) := by
  have marks : lit ")" = [closeMark] ∧ lit "." = [period] := by decide
  unfold beforeEnding?
  simp only [Option.bind_eq_bind, Option.bind_eq_some_iff, Option.pure_def, Option.some.injEq,
    strip?_eq_some, marks.1, marks.2, List.reverse_eq_iff]
  constructor
  · rintro ⟨closing, last, formula, inner, rfl⟩
    obtain ⟨gap, blank, split⟩ := exists_gap closing
    refine ⟨gap.reverse, fun u mem => blank u (List.mem_reverse.mp mem), ?_⟩
    rw [last, split, inner]
    simp
  · rintro ⟨gap, blank, rfl⟩
    have blankBack : IsBlank gap.reverse := fun u mem => blank u (List.mem_reverse.mp mem)
    refine ⟨gap.reverse ++ closeMark :: body.reverse, by simp, body.reverse, ?_, by simp⟩
    rw [skipBlanks_blank_append blankBack]
    rfl

/-- The first field of a text ends at the first comma. -/
theorem field?_append {lead name : Text} (blank : IsBlank lead) (solid : IsSolid name)
    (nonempty : name ≠ []) (noComma : Term.comma ∉ name) (rest : Text) :
    field? (lead ++ (name ++ Term.comma :: rest)) = some (name, rest) := by
  have clear : Term.comma ∉ lead ++ name := by
    intro mem
    rcases List.mem_append.mp mem with gap | mem
    · exact absurd (blank _ gap) (by decide)
    · exact noComma mem
  have trimmed : trim (lead ++ name) = name := by
    have whole := trim_around blank solid isBlank_nil
    rwa [List.append_nil] at whole
  exact field?_eq_some.mpr ⟨lead ++ name, (List.append_assoc ..).symm, clear,
    fieldText?_of_trim trimmed nonempty⟩

theorem beforeEnding?_append (text : Text) : beforeEnding? (text ++ ending) = some text :=
  beforeEnding?_eq_some.mpr ⟨[], isBlank_nil, congrArg (text ++ ·) ending_eq⟩

/-- A declaration with its fields and the white space around its formula. -/
def spelled (name : Text) (role : Role) (gap formula toEnd : Text) : Text :=
  opening ++ (name ++ Term.comma :: (lit " " ++ (role.word ++ Term.comma :: (gap ++ (formula ++
    (toEnd ++ ending))))))

section

variable {name gap formula toEnd : Text} (solid : IsSolid name) (nonempty : name ≠ [])
  (noComma : Term.comma ∉ name) (role : Role) (before : IsBlank gap) (inside : IsTrimmed formula)
  (after : IsBlank toEnd)

include solid nonempty noComma before inside after

/-- A declaration reads back. -/
theorem read?_spelled (line : Nat) : read? (spelled name role gap formula toEnd) line =
    some ⟨name, role, formula, line⟩ := by
  have word : IsSolid role.word ∧ role.word ≠ [] ∧ Term.comma ∉ role.word ∧
      Role.ofWord? role.word = some role := by
    cases role <;> decide
  obtain ⟨wordSolid, wordNonempty, wordComma, known⟩ := word
  have opened (rest : Text) : strip? opening (opening ++ rest) = some rest :=
    strip?_eq_some.mpr rfl
  have firstField := field?_append isBlank_nil solid nonempty noComma
  have secondField := field?_append isBlank_space wordSolid wordNonempty wordComma
  have trimmed := inside.trim_around before after
  have whole : gap ++ (formula ++ (toEnd ++ ending)) = gap ++ (formula ++ toEnd) ++ ending := by
    simp only [List.append_assoc]
  have fields : fields? (spelled name role gap formula toEnd) = some (name, role.word, formula) := by
    simp only [List.nil_append] at firstField
    simp only [fields?, spelled, opened, Option.bind_eq_bind, Option.bind_some, firstField,
      secondField, whole, beforeEnding?_append, trimmed, Option.pure_def]
  simp only [read?, first?_of_some fields, Option.bind_eq_bind, Option.bind_some, known,
    Option.pure_def]

/-- A whole declaration is read at once, whatever was left unfinished before it. -/
theorem feed_spelled (pending : Collector) (line : Nat) :
    pending.feed (spelled name role gap formula toEnd) line =
      (none, some ⟨name, role, formula, line⟩) := by
  have begins : occurs opening (spelled name role gap formula toEnd) = true := occurs_append ..
  have ends : endsWith ending (spelled name role gap formula toEnd) = true := by
    have parts : spelled name role gap formula toEnd = (opening ++ (name ++ Term.comma ::
        (lit " " ++ (role.word ++ Term.comma :: (gap ++ (formula ++ toEnd)))))) ++ ending := by
      simp only [spelled, List.append_assoc, List.cons_append]
    rw [parts]
    exact endsWith_append ..
  simp only [Collector.feed, Collector.gather, begins, if_true, ends,
    read?_spelled solid nonempty noComma role before inside after]

end

end Declaration

/-! ## Declarations on several lines -/

namespace Collector

open Declaration

theorem endsWith_ending_concat {u : CodeUnit} (other : u ≠ '.') (text : Text) :
    endsWith ending (text ++ [u]) = false := by
  have back : strip? ending.reverse (text ++ [u]).reverse = none := by
    rw [List.reverse_append]
    exact strip?_of_head (fun v first => by cases first; exact other) (lit ")")
  rw [endsWith, startsWith, back, Option.isSome_none]

/-- A beginning starts a declaration anew. -/
theorem feed_beginning (pending : Collector) {text : Text} (begins : occurs opening text = true)
    (unfinished : endsWith ending text = false) (line : Nat) :
    pending.feed text line = (some ⟨text, line⟩, none) := by
  simp only [feed, gather, begins, if_true, unfinished, Bool.false_eq_true, if_false]

/-- Further text goes on with it. -/
theorem feed_further {p : Pending} {text : Text} (inside : occurs opening text = false)
    (unfinished : endsWith ending (p.text ++ lit " " ++ text) = false) (line : Nat) :
    feed (some p) text line = (some ⟨p.text ++ lit " " ++ text, p.line⟩, none) := by
  simp only [feed, gather, inside, Option.map_some, unfinished, Bool.false_eq_true, if_false]

/-- The text that ends it has it read, on the line on which it began. -/
theorem feed_ending {p : Pending} {text : Text} (inside : occurs opening text = false)
    (finished : endsWith ending (p.text ++ lit " " ++ text) = true) (line : Nat) :
    feed (some p) text line = (none, read? (p.text ++ lit " " ++ text) p.line) := by
  simp only [feed, gather, inside, Option.map_some, finished, Bool.false_eq_true, if_false, if_true]

end Collector

/-! ## Lines of the header -/

namespace Phase

open Event

/-- Unless it is an inline axiom, a declared lemma or the marker, what a line says depends on the
    phase. -/
theorem step_undeclared (phase : Phase) {rawLine : Text}
    (noAxiom : axiomLine? (trim rawLine) = none)
    (noMarker : startsWith proofMarker (trim rawLine) = false)
    (noLemma : ∀ mark ∈ lemmaMarks, startsWith mark (trim rawLine) = false) :
    phase.step rawLine = phase.stepInside (trim rawLine) := by
  have none : lemmaMarks.any (startsWith · (trim rawLine)) = false :=
    List.any_eq_false.mpr fun mark mem => by rw [noLemma mark mem]; exact Bool.false_ne_true
  unfold step
  simp only [noAxiom, noMarker, none, Bool.false_eq_true, if_false]

theorem step_plain (phase : Phase) {rawLine : Text}
    (plain : ∀ u ∈ (trim rawLine).head?, u ≠ 'A' ∧ u ≠ 'T' ∧ u ≠ '%') :
    phase.step rawLine = phase.stepInside (trim rawLine) := by
  refine phase.step_undeclared ?_ ?_ ?_
  · have none : strip? (lit "Axiom") (trim rawLine) = none :=
      strip?_of_head (fun u first => (plain u first).1) (lit "xiom")
    simp only [axiomLine?, none, Option.bind_eq_bind, Option.bind_none]
  · have none : strip? proofMarker (trim rawLine) = none :=
      strip?_of_head (fun u first => (plain u first).2.1)
        (lit "he conjecture is true! Here is a proof")
    rw [startsWith, none, Option.isSome_none]
  · intro mark mem
    have none : strip? mark (trim rawLine) = none := by
      rcases List.mem_pair.mp mem with rfl | rfl
      · exact strip?_of_head (fun u first => (plain u first).2.2) (lit " single_lemma_")
      · exact strip?_of_head (fun u first => (plain u first).2.2) (lit " history_lemma_")
    rw [startsWith, none, Option.isSome_none]

end Phase

namespace Scanner

variable {s : Scanner} {rawLine : Text} {line : Nat} {collector : Collector}

theorem feed_unfinished (header : s.phase = .header)
    (plain : ∀ u ∈ (trim rawLine).head?, u ≠ 'A' ∧ u ≠ 'T' ∧ u ≠ '%')
    (fed : s.collector.feed (trim rawLine) line = (collector, none)) :
    s.feed rawLine line = ({ s with collector := collector }, none) := by
  obtain ⟨phase, current, pending, records⟩ := s
  cases header
  simp only [feed, Phase.step_plain _ plain, Phase.stepInside, applyAll, apply, fed]

theorem feed_declared {d : Declaration} (header : s.phase = .header)
    (plain : ∀ u ∈ (trim rawLine).head?, u ≠ 'A' ∧ u ≠ 'T' ∧ u ≠ '%')
    (fed : s.collector.feed (trim rawLine) line = (collector, some d)) :
    s.feed rawLine line =
      ({ s with collector := collector, records := s.records.addDeclaration d }, none) := by
  obtain ⟨phase, current, pending, records⟩ := s
  cases header
  simp only [feed, Phase.step_plain _ plain, Phase.stepInside, applyAll, apply, fed]

end Scanner

/-! ## Formulas under a quantifier -/

namespace Expression

theorem mem_write {e : Expression} {u : CodeUnit} (mem : u ∈ e.write Term.tptp) :
    (∃ name ∈ e.names, u ∈ name) ∨ u ∈ lit "op(,) =" := by
  have marks {u : CodeUnit} (h : u ∈ lit "op(,)") : u ∈ lit "op(,) =" :=
    List.mem_append_left (lit " =") h
  cases e with
  | bare t => exact (Term.mem_tptp mem).imp_right marks
  | equation lhs rhs =>
      rw [write, List.mem_append, List.mem_append] at mem
      rcases mem with (onLeft | sign) | onRight
      · refine (Term.mem_tptp onLeft).imp ?_ marks
        rintro ⟨name, among, inside⟩
        exact ⟨name, List.mem_append_left _ among, inside⟩
      · rcases List.mem_cons.mp sign with rfl | sign
        · exact .inr (by decide)
        · rcases List.mem_pair.mp sign with rfl | rfl
          · exact .inr (by decide)
          · exact .inr (by decide)
      · refine (Term.mem_tptp onRight).imp ?_ marks
        rintro ⟨name, among, inside⟩
        exact ⟨name, List.mem_append_right _ among, inside⟩

/-- The mark that ends the list of quantified variables. -/
def bracket : CodeUnit := ']'

/-- An equation in parentheses under a quantifier. -/
def quantified (vars : Text) (lhs rhs : Term) : Text :=
  lit "! [" ++ (vars ++ lit "] : " ++
    Term.openMark :: ((equation lhs rhs).write Term.tptp ++ [Term.closeMark]))

theorem isTrimmed_enclosed (text : Text) :
    IsTrimmed (Term.openMark :: (text ++ [Term.closeMark])) :=
  .around (.of_isSolid (by decide : IsSolid [Term.openMark]) (by decide)) text
    (.of_isSolid (by decide) (by decide))

theorem isTrimmed_quantified (vars : Text) (lhs rhs : Term) :
    IsTrimmed (quantified vars lhs rhs) :=
  .around (.of_isSolid (by decide : IsSolid (lit "!")) (by decide))
    (lit " [" ++ (vars ++ lit "] : "))
    (isTrimmed_enclosed ((equation lhs rhs).write Term.tptp))

/-- A quantifier is stripped off whatever variables it names. -/
theorem ofFormula_quantified {vars : Text} (noBracket : bracket ∉ vars) {lhs rhs : Term}
    (hl : lhs.IsLettered) (hr : rhs.IsLettered) :
    ofFormula (quantified vars lhs rhs) = .ok (equation lhs rhs) := by
  let clause : Text := Term.openMark :: ((equation lhs rhs).write Term.tptp ++ [Term.closeMark])
  have begins : skipBlanks (quantified vars lhs rhs) = quantified vars lhs rhs := rfl
  have mark : strip? (lit "!") (quantified vars lhs rhs) =
      some (lit " [" ++ (vars ++ lit "] : " ++ clause)) := strip?_eq_some.mpr rfl
  have list : strip? (lit "[") (skipBlanks (lit " [" ++ (vars ++ lit "] : " ++ clause))) =
      some (vars ++ lit "] : " ++ clause) := strip?_eq_some.mpr rfl
  have names : (vars ++ lit "] : " ++ clause).dropWhile (· != (']' : CodeUnit)) =
      lit "] : " ++ clause := by
    rw [List.append_assoc]
    exact (cut_mark noBracket (lit " : " ++ clause)).2
  have closed : strip? (lit "]") (lit "] : " ++ clause) = some (lit " : " ++ clause) :=
    strip?_eq_some.mpr rfl
  have colon : strip? (lit ":") (skipBlanks (lit " : " ++ clause)) = some (lit " " ++ clause) :=
    strip?_eq_some.mpr rfl
  have stripped : afterQuantifier? (quantified vars lhs rhs) = some (lit " " ++ clause) := by
    simp only [afterQuantifier?, begins, mark, list, names, closed, colon, Option.bind_eq_bind,
      Option.bind_some]
  have trimmed : trim (lit " " ++ clause) = clause :=
    (isTrimmed_enclosed _).trim_indented isBlank_space
  rw [ofFormula, stripQuantifier, stripped, Option.getD_some, trimmed]
  exact read_enclosed hl hr

end Expression

end MagmaTrace
