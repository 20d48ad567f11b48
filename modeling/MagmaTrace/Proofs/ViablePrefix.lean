import MagmaTrace.Diagnostic.Kind
import MagmaTrace.Proofs.Offsets

/-! # Where a reader of terms is stuck

A reader of terms is stuck in the middle of a term, at the end of the text or at a unit that may
not come next (`Term.StuckAfter`). What it has passed over can still be completed to a term, and
with the unit at which it is stuck it never can. So the offset of an error is that of the first
unit that rules a term out (`Term.readAt_error_viable`).
-/

namespace MagmaTrace

open Text

/-! ## Marks and names that are not there -/

theorem readMark_error {mark : CodeUnit} {text : Text} {e : Stuck CodeUnit}
    (h : readMark mark text = .error e) : ∃ gap, IsBlank gap ∧ text = gap ++ e.rest ∧
      ∀ u ∈ e.rest.head?, isBlank u = false ∧ u ≠ mark := by
  obtain ⟨gap, blank, split⟩ := exists_gap text
  have stopped := List.head?_dropWhile_not isBlank text
  rw [← skipBlanks] at stopped
  unfold readMark at h
  split at h
  · next found =>
      cases h
      exact ⟨gap, blank, by rw [← found, ← split], by simp⟩
  · next u rest found =>
      split at h
      · cases h
      · next other =>
          cases h
          rw [found] at stopped
          refine ⟨gap, blank, by rw [← found, ← split], ?_⟩
          rintro _ ⟨⟩
          exact ⟨stopped, other⟩

theorem readName_error {text : Text} {e : Stuck CodeUnit} (h : readName text = .error e) :
    e.rest = text ∧ ∀ u ∈ text.head?, isLetter u = false := by
  unfold readName at h
  split at h
  · cases h
    simp
  · split at h
    · cases h
    · next u rest other =>
        cases h
        simpa using other

/-- A mark is not read where another unit stands. -/
theorem readMark_ne_ok {mark u : CodeUnit} {gap rest text : Text} (split : text = gap ++ u :: rest)
    (blank : IsBlank gap) (solid : isBlank u = false) (other : u ≠ mark)
    (isMark : isBlank mark = false) (r : Reading Unit text) : readMark mark text ≠ .ok r := by
  intro h
  obtain ⟨gap', blank', split'⟩ := readMark_sound h
  have here : skipBlanks text = u :: rest := by
    rw [split, skipBlanks_blank_append blank]
    simp [skipBlanks, solid]
  have there : skipBlanks text = mark :: r.rest := by
    conv_lhs => rw [split', skipBlanks_blank_append blank']
    simp [skipBlanks, isMark]
  rw [here] at there
  exact other (List.cons.inj there).1

namespace Term

/-- Texts in the middle of a term, with a unit that may not come next, or with the end of the
    text: after them a reader of terms is stuck. -/
inductive StuckAfter : Text → Option CodeUnit → Prop where
  | atTerm {gap : Text} {next : Option CodeUnit} (blank : IsBlank gap)
      (other : ∀ u ∈ next, isBlank u = false ∧ isLetter u = false) : StuckAfter gap next
  | inLeft {gap before : Text} {next : Option CodeUnit} (blank : IsBlank gap)
      (inside : StuckAfter before next) : StuckAfter (gap ++ (opening ++ before)) next
  | atComma {gap a toComma : Text} {left : Term} {next : Option CodeUnit} (blank : IsBlank gap)
      (hl : Spells left a) (blankComma : IsBlank toComma)
      (stops : left.Stops (toComma ++ next.toList))
      (other : ∀ u ∈ next, isBlank u = false ∧ u ≠ comma) :
      StuckAfter (gap ++ (opening ++ (a ++ toComma))) next
  | inRight {gap a toComma before : Text} {left : Term} {next : Option CodeUnit}
      (blank : IsBlank gap) (hl : Spells left a) (blankComma : IsBlank toComma)
      (inside : StuckAfter before next) :
      StuckAfter (gap ++ (opening ++ (a ++ (toComma ++ comma :: before)))) next
  | atClose {gap a toComma b toClose : Text} {left right : Term} {next : Option CodeUnit}
      (blank : IsBlank gap) (hl : Spells left a) (blankComma : IsBlank toComma)
      (hr : Spells right b) (blankClose : IsBlank toClose)
      (stops : right.Stops (toClose ++ next.toList))
      (other : ∀ u ∈ next, isBlank u = false ∧ u ≠ closeMark) :
      StuckAfter (gap ++ (opening ++ (a ++ (toComma ++ comma :: (b ++ toClose))))) next

/-- Only the first unit of what follows a term decides whether the term ends there. -/
theorem Stops.congr {t : Term} {rest rest' : Text} (h : t.Stops rest)
    (same : rest'.head? = rest.head?) : t.Stops rest' := by
  unfold Stops at h ⊢
  rw [same]
  exact h

theorem head?_append_toList (gap rest : Text) :
    (gap ++ rest.head?.toList).head? = (gap ++ rest).head? := by
  cases gap with
  | nil => cases rest <;> rfl
  | cons u gap => rfl

/-! ## How a reader gets stuck -/

/-- What a reader of terms has done when it is stuck: it was in the middle of an operation, or it
    found no operation and no name. -/
theorem read_error_cases {text : Text} {e : Stuck CodeUnit} (h : read text = .error e) :
    (∃ inside, skipBlanks text = opening ++ inside ∧
      (read inside = .error e ∨ ∃ left : Reading Term inside, read inside = .ok left ∧
      (readMark comma left.rest = .error e ∨
        ∃ toComma : Reading Unit left.rest, readMark comma left.rest = .ok toComma ∧
      (read toComma.rest = .error e ∨
        ∃ right : Reading Term toComma.rest, read toComma.rest = .ok right ∧
        readMark closeMark right.rest = .error e)))) ∨
    (strip? opening (skipBlanks text) = none ∧ readName (skipBlanks text) = .error e) := by
  rw [read.eq_def] at h
  split at h
  · next inside opened =>
      refine .inl ⟨inside, strip?_eq_some.mp opened, ?_⟩
      split at h
      · next failed =>
          cases h
          exact .inl failed
      · next left readLeft =>
          refine .inr ⟨left, readLeft, ?_⟩
          split at h
          · next failed =>
              cases h
              exact .inl failed
          · next toComma readComma =>
              refine .inr ⟨toComma, readComma, ?_⟩
              split at h
              · next failed =>
                  cases h
                  exact .inl failed
              · next right readRight =>
                  refine .inr ⟨right, readRight, ?_⟩
                  split at h
                  · next failed =>
                      cases h
                      exact failed
                  · cases h
  · next unopened =>
      refine .inr ⟨unopened, ?_⟩
      split at h
      · next failed =>
          cases h
          exact failed
      · cases h

/-- Where a reader of terms is stuck, it has passed over the middle of a term. -/
theorem stuckAfter_of_read {text : Text} {e : Stuck CodeUnit} (h : read text = .error e) :
    ∃ before, text = before ++ e.rest ∧ StuckAfter before e.rest.head? := by
  obtain ⟨gap, blank, split⟩ := exists_gap text
  rcases read_error_cases h with ⟨inside, opened, stuck⟩ | ⟨unopened, stuck⟩
  · have shorter : inside.length < text.length := by
      have mark : opening.length = 3 := by decide
      rw [split, opened]
      simp only [List.length_append]
      omega
    have whole : text = gap ++ (opening ++ inside) := by rw [← opened, ← split]
    rcases stuck with stuck | ⟨left, readLeft, stuck⟩
    · obtain ⟨before, parts, after⟩ := stuckAfter_of_read stuck
      exact ⟨_, by rw [whole, parts, List.append_assoc, List.append_assoc], .inLeft blank after⟩
    obtain ⟨a, splitLeft, spellsLeft, stopsLeft⟩ := read_sound readLeft
    rcases stuck with stuck | ⟨toComma, readComma, stuck⟩
    · obtain ⟨gapComma, blankComma, parts, other⟩ := readMark_error stuck
      refine ⟨gap ++ (opening ++ (a ++ gapComma)), ?_,
        .atComma blank spellsLeft blankComma ?_ other⟩
      · rw [whole, splitLeft, parts]
        simp only [List.append_assoc]
      · rw [parts] at stopsLeft
        exact stopsLeft.congr (head?_append_toList gapComma e.rest)
    obtain ⟨gapComma, blankComma, splitComma⟩ := readMark_sound readComma
    rcases stuck with stuck | ⟨right, readRight, stuck⟩
    · have atComma := left.shorter
      have afterComma := toComma.shorter
      obtain ⟨before, parts, after⟩ := stuckAfter_of_read stuck
      refine ⟨gap ++ (opening ++ (a ++ (gapComma ++ comma :: before))), ?_,
        .inRight blank spellsLeft blankComma after⟩
      rw [whole, splitLeft, splitComma, parts]
      simp only [List.append_assoc, List.cons_append]
    · obtain ⟨b, splitRight, spellsRight, stopsRight⟩ := read_sound readRight
      obtain ⟨gapClose, blankClose, parts, other⟩ := readMark_error stuck
      refine ⟨gap ++ (opening ++ (a ++ (gapComma ++ comma :: (b ++ gapClose)))), ?_,
        .atClose blank spellsLeft blankComma spellsRight blankClose ?_ other⟩
      · rw [whole, splitLeft, splitComma, splitRight, parts]
        simp only [List.append_assoc, List.cons_append]
      · rw [parts] at stopsRight
        exact stopsRight.congr (head?_append_toList gapClose e.rest)
  · obtain ⟨here, notLetter⟩ := readName_error stuck
    refine ⟨gap, by rw [here, ← split], .atTerm blank fun u first => ?_⟩
    rw [here] at first
    exact ⟨head?_dropWhile isBlank text u first, notLetter u first⟩
termination_by text.length

/-! ## What may still follow -/

/-- What was passed over can be completed to a term. -/
theorem StuckAfter.completable {before : Text} {next : Option CodeUnit}
    (h : StuckAfter before next) : ∃ t ending, Spells t (before ++ ending) := by
  have leaf : Spells (.var (lit "x")) (lit "x") := .var isBlank_nil (by decide)
  induction h with
  | atTerm blank other => exact ⟨_, lit "x", .var blank (by decide)⟩
  | inLeft blank inside ih =>
      obtain ⟨left, ending, hl⟩ := ih
      have whole := Spells.op blank hl isBlank_nil leaf isBlank_nil
      refine ⟨.op left (.var (lit "x")), ending ++ comma :: (lit "x" ++ [closeMark]), ?_⟩
      simpa using whole
  | @atComma _ _ _ left _ blank hl blankComma stops other =>
      have whole := Spells.op blank hl blankComma leaf isBlank_nil
      refine ⟨.op left (.var (lit "x")), comma :: (lit "x" ++ [closeMark]), ?_⟩
      simpa using whole
  | @inRight _ _ _ _ left _ blank hl blankComma inside ih =>
      obtain ⟨right, ending, hr⟩ := ih
      have whole := Spells.op blank hl blankComma hr isBlank_nil
      refine ⟨.op left right, ending ++ [closeMark], ?_⟩
      simpa using whole
  | @atClose _ _ _ _ _ left right _ blank hl blankComma hr blankClose stops other =>
      have whole := Spells.op blank hl blankComma hr blankClose
      refine ⟨.op left right, [closeMark], ?_⟩
      simpa using whole

/-- The parts of an operation that is read are read one after another. -/
theorem exists_operands_of_read {gap inside text : Text} (parts : text = gap ++ (opening ++ inside))
    (blank : IsBlank gap) {r : Reading Term text} (h : read text = .ok r) :
    ∃ left : Reading Term inside, read inside = .ok left ∧
    ∃ toComma : Reading Unit left.rest, readMark comma left.rest = .ok toComma ∧
    ∃ right : Reading Term toComma.rest, read toComma.rest = .ok right ∧
    ∃ toClose : Reading Unit right.rest, readMark closeMark right.rest = .ok toClose := by
  have opened : skipBlanks text = opening ++ inside := by
    rw [parts, skipBlanks_blank_append blank, skipBlanks_solid_append (by decide) (by decide)]
  rcases read_ok_cases h with
    ⟨found, split, left, readLeft, toComma, readComma, right, readRight, toClose, readClose, -, -⟩ |
    ⟨unopened, -⟩
  · obtain rfl := List.append_cancel_left (opened.symm.trans split)
    exact ⟨left, readLeft, toComma, readComma, right, readRight, toClose, readClose⟩
  · rw [opened, strip?_eq_some.mpr rfl] at unopened
    cases unopened

/-- A term is read up to the end of its spelling, if that is where it stops. -/
theorem rest_of_read {t : Term} {spelling gap rest text : Text} {u : CodeUnit}
    (spells : Spells t spelling) (stops : t.Stops (gap ++ [u]))
    (split : text = spelling ++ (gap ++ u :: rest)) {r : Reading Term text}
    (h : read text = .ok r) : r.rest = gap ++ u :: rest := by
  obtain ⟨r', isRead, -, after⟩ :=
    read_of_spells spells split (stops.congr (head?_append_toList gap (u :: rest)).symm)
  rw [h] at isRead
  rw [Except.ok.inj isRead, after]

/-- The right operand of an operation that is read is read, and a parenthesis after it. -/
theorem exists_right_of_read {gap a toComma inside text : Text} {left : Term}
    (parts : text = gap ++ (opening ++ (a ++ (toComma ++ comma :: inside)))) (blank : IsBlank gap)
    (hl : Spells left a) (blankComma : IsBlank toComma) {r : Reading Term text}
    (h : read text = .ok r) : ∃ right : Reading Term inside, read inside = .ok right ∧
    ∃ toClose : Reading Unit right.rest, readMark closeMark right.rest = .ok toClose := by
  obtain ⟨first, readLeft, mark, readComma, right, readRight, readClose⟩ :=
    exists_operands_of_read parts blank h
  have stops : left.Stops (toComma ++ [comma]) :=
    .of_gap left blankComma (by decide) (by decide) []
  have atMark := rest_of_read hl stops rfl readLeft
  obtain ⟨mark', readComma', after⟩ := readMark_gap atMark blankComma (by decide)
  obtain rfl := Except.ok.inj (readComma.symm.trans readComma')
  obtain ⟨_, rest, _⟩ := mark
  obtain rfl : rest = inside := after
  exact ⟨right, readRight, readClose⟩

/-- No text that goes on with the unit at which a reader is stuck begins with a term. -/
theorem StuckAfter.read_ne_ok {before : Text} {u : CodeUnit} {next : Option CodeUnit}
    (h : StuckAfter before next) (here : next = some u) {rest text : Text}
    (split : text = before ++ u :: rest) (r : Reading Term text) : read text ≠ .ok r := by
  intro isRead
  induction h generalizing rest text with
  | atTerm blank other =>
      obtain ⟨solid, notLetter⟩ := other u here
      obtain ⟨spelling, parts, spells, -⟩ := read_sound isRead
      obtain ⟨⟨gap, v, more, rfl, blank', letter, -⟩, -⟩ := spells.ends
      have begins : skipBlanks text = u :: rest := by
        rw [split, skipBlanks_blank_append blank]
        simp [skipBlanks, solid]
      have solid' : isBlank v = false := isBlank_of_isLetter letter
      have begins' : skipBlanks text = v :: (more ++ r.rest) := by
        conv_lhs => rw [parts, List.append_assoc, skipBlanks_blank_append blank']
        simp [skipBlanks, solid']
      rw [begins] at begins'
      rw [← (List.cons.inj begins').1, notLetter] at letter
      cases letter
  | inLeft blank inside ih =>
      rw [List.append_assoc, List.append_assoc] at split
      obtain ⟨left, readLeft, -⟩ := exists_operands_of_read split blank isRead
      exact ih here rfl left readLeft
  | atComma blank hl blankComma stops other =>
      subst here
      obtain ⟨solid, notComma⟩ := other u rfl
      rw [List.append_assoc, List.append_assoc, List.append_assoc] at split
      obtain ⟨left, readLeft, toComma, readComma, -⟩ := exists_operands_of_read split blank isRead
      have atMark := rest_of_read hl stops rfl readLeft
      exact readMark_ne_ok atMark blankComma solid notComma (by decide) toComma readComma
  | inRight blank hl blankComma inside ih =>
      simp only [List.append_assoc, List.cons_append] at split
      obtain ⟨right, readRight, -⟩ := exists_right_of_read split blank hl blankComma isRead
      exact ih here rfl right readRight
  | atClose blank hl blankComma hr blankClose stops other =>
      subst here
      obtain ⟨solid, notClose⟩ := other u rfl
      simp only [List.append_assoc, List.cons_append] at split
      obtain ⟨right, readRight, toClose, readClose⟩ :=
        exists_right_of_read split blank hl blankComma isRead
      have atMark := rest_of_read hr stops rfl readRight
      exact readMark_ne_ok atMark blankClose solid notClose (by decide) toClose readClose

/-! ## The offset of an error -/

theorem isOk_readAt_iff {text : Text} {start : Nat} : (readAt text start).isOk = true ↔
    ∃ r : Reading Term (text.drop start), read (text.drop start) = .ok r := by
  unfold readAt
  dsimp only
  split
  · next failed => simp [failed, Except.isOk, Except.toBool]
  · next r isRead => simp [isRead, Except.isOk, Except.toBool]

/-- An error is at the end of what the reader has passed over from the start on. -/
theorem exists_stuckAfter_of_readAt {text : Text} {start : Nat} {e : SyntaxError}
    (within : start ≤ text.length) (h : readAt text start = .error e) :
    ∃ lead before rest fault, text = lead ++ (before ++ rest) ∧ lead.length = start ∧
      StuckAfter before rest.head? ∧ e = .located fault text (start + before.length) := by
  unfold readAt at h
  dsimp only at h
  split at h
  · next stuck failed =>
      cases h
      obtain ⟨before, split, after⟩ := stuckAfter_of_read failed
      refine ⟨text.take start, before, stuck.rest, stuck.fault, ?_, ?_, after, ?_⟩
      · rw [← split, List.take_append_drop]
      · exact List.length_take_of_le within
      · have consumed : (text.drop start).length - stuck.rest.length = before.length := by
          conv_lhs => rw [split, List.length_append, Nat.add_sub_cancel]
        rw [consumed]
  · cases h

/-- An error of reading a term is a parse error at the first unit that rules a term out: the text
    before it can be completed to one that is read, and with that unit it no longer can. -/
theorem readAt_error_viable {text : Text} {start : Nat} {e : SyntaxError}
    (within : start ≤ text.length) (h : readAt text start = .error e) :
    (e.diagnostic : Diagnostic Details).code = .parse ∧
    ∃ p, (e.diagnostic : Diagnostic Details).span.map (·.start) = some p ∧
      start ≤ p ∧ p ≤ text.length ∧
      (∃ ending, (readAt (text.take p ++ ending) start).isOk = true) ∧
      (p < text.length → ∀ ending, (readAt (text.take (p + 1) ++ ending) start).isOk = false) := by
  obtain ⟨lead, before, rest, fault, rfl, rfl, stuck, rfl⟩ := exists_stuckAfter_of_readAt within h
  have passed : (lead ++ (before ++ rest)).take (lead.length + before.length) = lead ++ before := by
    rw [← List.append_assoc, ← List.length_append, List.take_left]
  refine ⟨rfl, lead.length + before.length, rfl, Nat.le_add_right _ _, ?_, ?_, ?_⟩
  · simp only [List.length_append]
    omega
  · obtain ⟨t, ending, spells⟩ := stuck.completable
    have ended : t.Stops [] := .of_head t (by simp)
    have whole := readAt_spelling spells ended lead
    rw [List.append_nil] at whole
    refine ⟨ending, ?_⟩
    rw [passed, List.append_assoc, whole]
    rfl
  · intro inside ending
    cases rest with
    | nil => simp at inside
    | cons u rest =>
        have shown : (lead ++ (before ++ u :: rest)).take (lead.length + before.length + 1) =
            lead ++ (before ++ [u]) := by
          have regroup : lead ++ (before ++ u :: rest) = lead ++ (before ++ [u]) ++ rest := by simp
          have length : lead.length + before.length + 1 = (lead ++ (before ++ [u])).length := by
            simp [Nat.add_assoc]
          rw [regroup, length, List.take_left]
        have onward : (lead ++ (before ++ [u]) ++ ending).drop lead.length =
            before ++ u :: ending := by
          rw [List.append_assoc, List.drop_left, List.append_assoc, List.singleton_append]
        rw [shown, Bool.eq_false_iff, ne_eq, isOk_readAt_iff]
        rintro ⟨r, isRead⟩
        exact stuck.read_ne_ok rfl onward r isRead

/-- Reading an operation from the second unit on is stuck at a semicolon: a second operand could
    have begun there. -/
theorem readAt_error_viable_semicolon :
    1 ≤ (lit "= op( op ,;)").length ∧
    readAt (lit "= op( op ,;)") 1 = .error (.located (.notVariable ';') (lit "= op( op ,;)") 10) ∧
    (∃ ending, (readAt (lit "= op( op ," ++ ending) 1).isOk = true) ∧
    ∀ ending, (readAt (lit "= op( op ,;" ++ ending) 1).isOk = false := by
  have within : 1 ≤ (lit "= op( op ,;)").length := by decide
  have failed : readAt (lit "= op( op ,;)") 1 =
      .error (.located (.notVariable ';') (lit "= op( op ,;)") 10) := by decide +kernel
  obtain ⟨-, p, place, -, -, completed, ruledOut⟩ := readAt_error_viable within failed
  obtain rfl : 10 = p := Option.some.inj place
  exact ⟨within, failed, completed, ruledOut (by decide)⟩

end Term

end MagmaTrace
