import MagmaTrace.Proofs.Diamond
import MagmaTrace.Proofs.Digits
import MagmaTrace.Term.Tptp

/-! # The grammar of the prover's form

A term may be spelled with white space before any of its parts. However it is spelled, it is read
up to the end of the spelling (`Term.read_of_spells`).
-/

namespace MagmaTrace

open Text

/-- What a variable of the prover is called: a letter, then word units. -/
def IsIdentifier : Text → Prop
  | [] => False
  | u :: rest => isLetter u = true ∧ ∀ v ∈ rest, isWord v = true

instance : DecidablePred IsIdentifier
  | [] => instDecidableFalse
  | _ :: rest => @instDecidableAnd _ _ _ (List.decidableBAll _ rest)

theorem isIdentifier_numbered {u : CodeUnit} (letter : isLetter u = true) (n : Nat) :
    IsIdentifier (u :: decimal n) := by
  refine ⟨letter, fun v mem => ?_⟩
  have digit := isDigit_of_mem_decimal n v mem
  simp [isWord, digit]

theorem IsIdentifier.isName {name : Text} (h : IsIdentifier name) : IsName name := by
  cases name with
  | nil => exact h.elim
  | cons u rest => exact ⟨by simp [isWordStart, h.1], h.2⟩

theorem IsIdentifier.ne_nil {name : Text} (h : IsIdentifier name) : name ≠ [] := by
  rintro rfl
  exact h

theorem IsIdentifier.isSolid {name : Text} (h : IsIdentifier name) : IsSolid name :=
  h.isName.isSolid

namespace Term

/-- A term whose leaves the prover can name. -/
def IsLettered (t : Term) : Prop := ∀ name ∈ t.names, IsIdentifier name

instance (t : Term) : Decidable t.IsLettered := List.decidableBAll _ t.names

theorem IsLettered.left {left right : Term} (h : (op left right).IsLettered) : left.IsLettered :=
  fun name mem => h name (List.mem_append_left _ mem)

theorem IsLettered.right {left right : Term} (h : (op left right).IsLettered) : right.IsLettered :=
  fun name mem => h name (List.mem_append_right _ mem)

/-- The mark between the operands of an operation. -/
def comma : CodeUnit := ','

/-- What an operation begins with. -/
def opening : Text := lit "op("

theorem tptp_op (left right : Term) : (op left right).tptp =
    opening ++ (left.tptp ++ comma :: (right.tptp ++ [closeMark])) := by
  have comma : lit "," = [comma] := rfl
  have closes : lit ")" = [closeMark] := rfl
  simp only [tptp, opening, comma, closes, List.append_assoc, List.cons_append, List.nil_append]

/-- The units of a term in the prover's form are those of its names and a few marks. -/
theorem mem_tptp {t : Term} {u : CodeUnit} (mem : u ∈ t.tptp) :
    (∃ name ∈ t.names, u ∈ name) ∨ u ∈ lit "op(,)" := by
  induction t with
  | var name => exact .inl ⟨name, List.mem_singleton_self name, mem⟩
  | op left right ihl ihr =>
      rw [tptp_op, List.mem_append, List.mem_append, List.mem_cons, List.mem_append,
        List.mem_singleton] at mem
      rcases mem with opens | onLeft | rfl | onRight | rfl
      · exact .inr (List.mem_append_left (lit ",)") opens)
      · exact (ihl onLeft).imp_left fun ⟨name, among, inside⟩ =>
          ⟨name, List.mem_append_left _ among, inside⟩
      · exact .inr (by decide)
      · exact (ihr onRight).imp_left fun ⟨name, among, inside⟩ =>
          ⟨name, List.mem_append_right _ among, inside⟩
      · exact .inr (by decide)

/-- Texts that spell a term: the prover's form with white space before any of its parts. -/
inductive Spells : Term → Text → Prop where
  | var {gap name : Text} (blank : IsBlank gap) (isName : IsIdentifier name) :
      Spells (.var name) (gap ++ name)
  | op {left right : Term} {gap a toComma b toClose : Text} (blank : IsBlank gap)
      (hl : Spells left a) (blankComma : IsBlank toComma) (hr : Spells right b)
      (blankClose : IsBlank toClose) : Spells (.op left right)
        (gap ++ (opening ++ (a ++ (toComma ++ comma :: (b ++ (toClose ++ [closeMark]))))))

theorem spells_tptp {t : Term} (h : t.IsLettered) : Spells t t.tptp := by
  induction t with
  | var name => exact .var isBlank_nil (h name (List.mem_singleton_self name))
  | op left right ihl ihr =>
      rw [tptp_op]
      exact .op isBlank_nil (ihl h.left) isBlank_nil (ihr h.right) isBlank_nil

theorem begins_tptp {t : Term} (h : t.IsLettered) :
    ∃ u more, t.tptp = u :: more ∧ isLetter u = true := by
  cases t with
  | var name =>
      have isName := h name (List.mem_singleton_self name)
      cases name with
      | nil => exact isName.elim
      | cons u word => exact ⟨u, word, rfl, isName.1⟩
  | op left right =>
      rw [tptp_op]
      exact ⟨_, _, rfl, by decide⟩

theorem Spells.append_gap {t : Term} {text gap : Text} (h : Spells t text) (blank : IsBlank gap) :
    Spells t (gap ++ text) := by
  have both (first second : Text) (hf : IsBlank first) (hs : IsBlank second) :
      IsBlank (first ++ second) := by
    intro u mem
    rcases List.mem_append.mp mem with mem | mem
    · exact hf u mem
    · exact hs u mem
  cases h with
  | @var inner name inside isName =>
      rw [← List.append_assoc]
      exact .var (both gap inner blank inside) isName
  | @op left right inner a toComma b toClose inside hl blankComma hr blankClose =>
      rw [← List.append_assoc]
      exact .op (both gap inner blank inside) hl blankComma hr blankClose

/-! ## Reading -/

/-- What may follow the spelling of a term: nothing that a variable could go on with, and no
    parenthesis after the variable with the operation's name. -/
def Stops (t : Term) (rest : Text) : Prop :=
  ∀ name, t = .var name → (∀ u ∈ rest.head?, isWord u = false) ∧
    (name = lit "op" → rest.head? ≠ some openMark)

theorem Stops.of_head {rest : Text} (t : Term)
    (h : ∀ u ∈ rest.head?, isWord u = false ∧ u ≠ openMark) : t.Stops rest := by
  intro name _
  exact ⟨fun u first => (h u first).1, fun _ first => (h openMark first).2 rfl⟩

theorem Stops.of_gap (t : Term) {gap : Text} (blank : IsBlank gap) {mark : CodeUnit}
    (notWord : isWord mark = false) (notOpen : mark ≠ openMark) (more : Text) :
    t.Stops (gap ++ mark :: more) := by
  apply Stops.of_head
  refine head?_gap blank ?_ ⟨notWord, notOpen⟩ more
  intro u isBlank
  refine ⟨not_isWord_of_isBlank isBlank, ?_⟩
  rintro rfl
  exact absurd isBlank (by decide)

theorem readMark_gap {mark : CodeUnit} {gap more text : Text} (split : text = gap ++ mark :: more)
    (blank : IsBlank gap) (solid : isBlank mark = false) :
    ∃ r : Reading Unit text, readMark mark text = .ok r ∧ r.rest = more := by
  have skipped : skipBlanks text = mark :: more := by
    rw [split, skipBlanks_blank_append blank]
    simp [skipBlanks, solid]
  unfold readMark
  split
  · next found =>
      rw [skipped] at found
      cases found
  · next u rest found =>
      rw [skipped] at found
      obtain ⟨rfl, rfl⟩ := List.cons.inj found
      simp

theorem strip?_opening_of_var {name rest : Text} (isName : IsIdentifier name)
    (stops : (var name).Stops rest) : strip? opening (name ++ rest) = none := by
  rw [Option.eq_none_iff_forall_ne_some]
  intro more stripped
  have split := strip?_eq_some.mp stripped
  obtain ⟨stop, notOpening⟩ := stops name rfl
  -- The longest run of word units on both sides is the name.
  have cutName := cut_append isName.isName.isWord_of_mem stop
  have parts : opening ++ more = lit "op" ++ openMark :: more := rfl
  have cutOp : (lit "op" ++ openMark :: more).takeWhile isWord = lit "op" ∧
      (lit "op" ++ openMark :: more).dropWhile isWord = openMark :: more :=
    cut_append (List.all_eq_true.mp (by decide)) (forall_mem_head?_cons (by decide) more)
  rw [split, parts, cutOp.1, cutOp.2] at cutName
  obtain ⟨rfl, rfl⟩ := cutName
  exact notOpening rfl rfl

/-- However a term is spelled, it is read up to the end of the spelling. -/
theorem read_of_spells {t : Term} {spelling : Text} (h : Spells t spelling) {rest text : Text}
    (split : text = spelling ++ rest) (stops : t.Stops rest) :
    ∃ r : Reading Term text, read text = .ok r ∧ r.value = t ∧ r.rest = rest := by
  induction h generalizing rest text with
  | @var gap name blank isName =>
      have skipped : skipBlanks text = name ++ rest := by
        rw [split, List.append_assoc, skipBlanks_blank_append blank,
          skipBlanks_solid_append isName.isSolid isName.ne_nil]
      have noOperation := strip?_opening_of_var isName stops
      obtain ⟨stop, -⟩ := stops name rfl
      rw [read.eq_def]
      split
      · next inside opened =>
          rw [skipped] at opened
          rw [opening] at noOperation
          rw [noOperation] at opened
          cases opened
      · cases name with
        | nil => exact isName.elim
        | cons u word =>
            obtain ⟨letter, words⟩ := isName
            obtain ⟨taken, dropped⟩ := cut_append words stop
            have named : ∃ r : Reading Text (skipBlanks text),
                readName (skipBlanks text) = .ok r ∧ r.value = u :: word ∧ r.rest = rest := by
              rw [skipped]
              refine ⟨⟨u :: word, rest, by simp only [List.length_append, List.length_cons]; omega⟩,
                ?_, rfl, rfl⟩
              simp [readName, letter, taken, dropped]
            obtain ⟨found, readName, value, after⟩ := named
            simp only [readName, value, after]
            exact ⟨_, rfl, rfl, rfl⟩
  | @op left right gap a toComma b toClose blank hl blankComma hr blankClose ihl ihr =>
      have skipped : skipBlanks text = opening ++ (a ++ (toComma ++ comma :: (b ++ (toClose ++
          closeMark :: rest)))) := by
        rw [split, List.append_assoc, skipBlanks_blank_append blank]
        simp only [List.append_assoc, List.cons_append, List.nil_append]
        exact skipBlanks_solid_append (by decide) (by decide) _
      rw [read.eq_def]
      split
      · next inside opened =>
          rw [skipped] at opened
          have inner := (List.append_cancel_left (strip?_eq_some.mp opened)).symm
          obtain ⟨first, readFirst, valueFirst, afterFirst⟩ :=
            ihl inner (.of_gap left blankComma (by decide) (by decide) _)
          obtain ⟨mark, readComma, afterComma⟩ := readMark_gap afterFirst blankComma (by decide)
          obtain ⟨second, readSecond, valueSecond, afterSecond⟩ :=
            ihr afterComma (.of_gap right blankClose (by decide) (by decide) rest)
          obtain ⟨close, readClose, afterClose⟩ := readMark_gap afterSecond blankClose (by decide)
          have comma : (',' : CodeUnit) = comma := rfl
          have closeMark : (')' : CodeUnit) = closeMark := rfl
          simp only [readFirst, comma, readComma, readSecond, closeMark, readClose, valueFirst,
            valueSecond, afterClose]
          exact ⟨_, rfl, rfl, rfl⟩
      · next unopened =>
          have opened : strip? (lit "op(") (skipBlanks text) = some _ := strip?_eq_some.mpr skipped
          rw [opened] at unopened
          cases unopened

/-! ## Sides of an equation -/

/-- A spelling starts with white space and a letter, and ends with a word unit or a parenthesis. -/
theorem Spells.ends {t : Term} {spelling : Text} (h : Spells t spelling) :
    (∃ gap u more, spelling = gap ++ u :: more ∧ IsBlank gap ∧ isLetter u = true ∧
      Spells t (u :: more)) ∧
    ∃ front u, spelling = front ++ [u] ∧ (isWord u = true ∨ u = closeMark) := by
  cases h with
  | @var gap name blank isName =>
      cases name with
      | nil => exact isName.elim
      | cons u word =>
          refine ⟨⟨gap, u, word, rfl, blank, isName.1, .var isBlank_nil isName⟩, ?_⟩
          have last := List.dropLast_concat_getLast (List.cons_ne_nil u word)
          refine ⟨gap ++ (u :: word).dropLast, (u :: word).getLast (List.cons_ne_nil u word), ?_,
            .inl (isName.isName.isWord_of_mem _ (List.getLast_mem _))⟩
          rw [List.append_assoc, last]
  | @op left right gap a toComma b toClose blank hl blankComma hr blankClose =>
      refine ⟨⟨gap, 'o', lit "p(" ++ (a ++ (toComma ++ comma :: (b ++ (toClose ++ [closeMark])))),
        rfl, blank, by decide, .op isBlank_nil hl blankComma hr blankClose⟩, ?_⟩
      exact ⟨gap ++ (opening ++ (a ++ (toComma ++ comma :: (b ++ toClose)))), closeMark, by simp,
        .inr rfl⟩

theorem isTrailing_of_isWord {u : CodeUnit} (h : isWord u = true) : isTrailing u = false := by
  unfold isTrailing
  rw [isBlank_of_isWord h, Bool.false_or, beq_eq_false_iff_ne]
  rintro rfl
  exact absurd h (by decide)

/-- A text that ends with a term does not end with white space or a period. -/
theorem Spells.getLast_not_trailing {t : Term} {spelling : Text} (h : Spells t spelling)
    (before : Text) : ∀ u ∈ (before ++ spelling).getLast?, isTrailing u = false := by
  obtain ⟨-, front, u, rfl, last⟩ := h.ends
  intro v final
  rw [← List.append_assoc, List.getLast?_concat] at final
  cases final
  rcases last with word | rfl
  · exact isTrailing_of_isWord word
  · decide

end Term

/-- What comes after the last unit of another kind is dropped, and nothing else. -/
theorem Text.dropEndWhile_append {p : CodeUnit → Bool} {text tail : Text}
    (last : ∀ u ∈ text.getLast?, p u = false) (all : ∀ u ∈ tail, p u = true) :
    dropEndWhile p (text ++ tail) = text := by
  have back : (tail.reverse ++ text.reverse).dropWhile p = text.reverse :=
    (cut_append (fun u mem => all u (List.mem_reverse.mp mem))
      (fun u first => last u (by rwa [List.head?_reverse] at first))).2
  unfold dropEndWhile
  rw [List.reverse_append, back, List.reverse_reverse]

end MagmaTrace
