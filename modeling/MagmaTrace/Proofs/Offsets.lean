import MagmaTrace.Proofs.Prefix

/-! # Terms within a text

A term is read wherever its spelling stands in a text, up to the end of the spelling
(`Term.readAt_spelling`). Conversely a reader that gives a term has passed over a spelling of it
and nothing else (`Term.read_sound`), so the text between the two offsets is the printed term
with white space in it (`Term.spelled_of_readAt`). The text between two given offsets is read
when it is a spelling with periods after it (`Term.readBetween_ok_iff`).
-/

namespace MagmaTrace

open Text

theorem Text.exists_dropped (p : CodeUnit → Bool) (text : Text) :
    ∃ tail, text = dropEndWhile p text ++ tail ∧ ∀ u ∈ tail, p u = true := by
  refine ⟨(text.reverse.takeWhile p).reverse, ?_, ?_⟩
  · rw [dropEndWhile, ← List.reverse_append, List.takeWhile_append_dropWhile, List.reverse_reverse]
  · intro u mem
    exact List.mem_takeWhile_imp (List.mem_reverse.mp mem)

theorem Text.exists_gap (text : Text) : ∃ gap, IsBlank gap ∧ text = gap ++ skipBlanks text :=
  ⟨text.takeWhile isBlank, fun _ mem => List.mem_takeWhile_imp mem,
    (List.takeWhile_append_dropWhile).symm⟩

/-- Around a trimmed text there was nothing but white space. -/
theorem Text.exists_margins (text : Text) :
    ∃ lead tail, IsBlank lead ∧ IsBlank tail ∧ text = lead ++ (trim text ++ tail) := by
  obtain ⟨lead, before, split⟩ := exists_gap text
  obtain ⟨tail, dropped, after⟩ := exists_dropped isBlank (skipBlanks text)
  refine ⟨lead, tail, before, after, ?_⟩
  rw [trim, ← dropped, ← split]

theorem Text.infix_trim (text : Text) : trim text <:+: text := by
  obtain ⟨lead, tail, -, -, split⟩ := exists_margins text
  exact ⟨lead, tail, by rw [List.append_assoc, ← split]⟩

/-! ## Marks and names -/

theorem readMark_sound {mark : CodeUnit} {text : Text} {r : Reading Unit text}
    (h : readMark mark text = .ok r) : ∃ gap, IsBlank gap ∧ text = gap ++ mark :: r.rest := by
  obtain ⟨gap, blank, split⟩ := exists_gap text
  unfold readMark at h
  split at h
  · cases h
  · next u rest found =>
      split at h
      · next same =>
          cases h
          exact ⟨gap, blank, by rw [← same, ← found, ← split]⟩
      · cases h

theorem readName_sound {text : Text} {r : Reading Text text} (h : readName text = .ok r) :
    IsIdentifier r.value ∧ text = r.value ++ r.rest ∧ ∀ u ∈ r.rest.head?, isWord u = false := by
  unfold readName at h
  split at h
  · cases h
  · next u rest =>
      split at h
      · next letter =>
          cases h
          exact ⟨⟨letter, fun v mem => List.mem_takeWhile_imp mem⟩, by simp,
            head?_dropWhile isWord rest⟩
      · cases h

namespace Term

/-- What a reader of terms has done when it gives one: it took an operation apart, or it found no
    operation and took a name. -/
theorem read_ok_cases {text : Text} {r : Reading Term text} (h : read text = .ok r) :
    (∃ inside, skipBlanks text = opening ++ inside ∧
      ∃ left : Reading Term inside, read inside = .ok left ∧
      ∃ toComma : Reading Unit left.rest, readMark comma left.rest = .ok toComma ∧
      ∃ right : Reading Term toComma.rest, read toComma.rest = .ok right ∧
      ∃ toClose : Reading Unit right.rest, readMark closeMark right.rest = .ok toClose ∧
        r.value = .op left.value right.value ∧ r.rest = toClose.rest) ∨
    (strip? opening (skipBlanks text) = none ∧
      ∃ name : Reading Text (skipBlanks text), readName (skipBlanks text) = .ok name ∧
        r.value = .var name.value ∧ r.rest = name.rest) := by
  rw [read.eq_def] at h
  split at h
  · next inside opened =>
      split at h
      · cases h
      · next left readLeft =>
          split at h
          · cases h
          · next toComma readComma =>
              split at h
              · cases h
              · next right readRight =>
                  split at h
                  · cases h
                  · next toClose readClose =>
                      cases h
                      exact .inl ⟨inside, strip?_eq_some.mp opened, left, readLeft, toComma,
                        readComma, right, readRight, toClose, readClose, rfl, rfl⟩
  · next unopened =>
      split at h
      · cases h
      · next name readName =>
          cases h
          exact .inr ⟨unopened, name, readName, rfl, rfl⟩

/-- A term that is read has been spelled, and the rest of the text does not go on with it. -/
theorem read_sound {text : Text} {r : Reading Term text} (h : read text = .ok r) :
    ∃ spelling, text = spelling ++ r.rest ∧ Spells r.value spelling ∧ r.value.Stops r.rest := by
  obtain ⟨gap, blank, split⟩ := exists_gap text
  rcases read_ok_cases h with
    ⟨inside, opened, left, readLeft, toComma, readComma, right, readRight, toClose, readClose,
      value, rest⟩ |
    ⟨unopened, name, named, value, rest⟩
  · have shorter : inside.length < text.length := by
      have mark : opening.length = 3 := by decide
      rw [split, opened]
      simp only [List.length_append]
      omega
    have atComma := left.shorter
    have afterComma := toComma.shorter
    obtain ⟨a, splitLeft, spellsLeft, -⟩ := read_sound readLeft
    obtain ⟨gapComma, blankComma, splitComma⟩ := readMark_sound readComma
    obtain ⟨b, splitRight, spellsRight, -⟩ := read_sound readRight
    obtain ⟨gapClose, blankClose, splitClose⟩ := readMark_sound readClose
    have spells := Spells.op blank spellsLeft blankComma spellsRight blankClose
    refine ⟨_, ?_, value ▸ spells, ?_⟩
    · calc text
        _ = gap ++ (opening ++ inside) := by rw [← opened, ← split]
        _ = gap ++ (opening ++ (a ++ (gapComma ++ comma :: (b ++ (gapClose ++ closeMark ::
              toClose.rest))))) := by rw [← splitClose, ← splitRight, ← splitComma, ← splitLeft]
        _ = _ := by simp only [rest, List.append_assoc, List.cons_append, List.nil_append]
    · rw [value]
      intro name isVar
      cases isVar
  · obtain ⟨isName, splitName, stop⟩ := readName_sound named
    refine ⟨gap ++ name.value, ?_, value ▸ .var blank isName, ?_⟩
    · rw [rest, List.append_assoc, ← splitName, ← split]
    · rw [value, rest]
      intro found isVar
      cases isVar
      refine ⟨stop, ?_⟩
      intro isOp opens
      obtain ⟨more, follows⟩ := List.head?_eq_some_iff.mp opens
      have opened : strip? opening (skipBlanks text) = some more :=
        strip?_eq_some.mpr (by rw [splitName, isOp, follows]; rfl)
      rw [unopened] at opened
      cases opened
termination_by text.length

/-! ## What a spelling holds -/

theorem Spells.isLettered {t : Term} {spelling : Text} (h : Spells t spelling) : t.IsLettered := by
  induction h with
  | var blank isName =>
      intro name mem
      rw [List.mem_singleton.mp mem]
      exact isName
  | op blank hl blankComma hr blankClose ihl ihr =>
      intro name mem
      rcases List.mem_append.mp mem with onLeft | onRight
      · exact ihl name onLeft
      · exact ihr name onRight

theorem Spells.ne_nil {t : Term} {spelling : Text} (h : Spells t spelling) : spelling ≠ [] := by
  obtain ⟨-, front, u, rfl, -⟩ := h.ends
  exact List.concat_ne_nil u front

/-- Without its white space a spelling is the printed term. -/
theorem Spells.solid_eq {t : Term} {spelling : Text} (h : Spells t spelling) :
    solid spelling = t.tptp := by
  induction h with
  | var blank isName =>
      rw [solid_append, solid_of_isBlank blank, solid_of_isSolid isName.isSolid]
      rfl
  | @op left right gap a toComma b toClose blank hl blankComma hr blankClose ihl ihr =>
      have mark : solid opening = opening := solid_of_isSolid (by decide)
      have comma : solid [comma] = [comma] := solid_of_isSolid (by decide)
      have closes : solid [closeMark] = [closeMark] := solid_of_isSolid (by decide)
      rw [tptp_op, List.append_cons toComma, List.append_cons left.tptp]
      simp only [solid_append, solid_of_isBlank blank, solid_of_isBlank blankComma,
        solid_of_isBlank blankClose, mark, comma, closes, ihl, ihr, List.nil_append,
        List.append_assoc]

/-! ## Between two offsets -/

/-- From an offset on a term is read exactly when the text goes on with a spelling of it, and the
    answer's offset is the end of the spelling. -/
theorem readAt_ok_iff {text : Text} {start next : Nat} {t : Term} :
    readAt text start = .ok (t, next) ↔ ∃ spelling rest, text.drop start = spelling ++ rest ∧
      Spells t spelling ∧ t.Stops rest ∧ next = start + spelling.length := by
  have consumed {spelling rest : Text} (split : text.drop start = spelling ++ rest) :
      (text.drop start).length - rest.length = spelling.length := by
    rw [split, List.length_append, Nat.add_sub_cancel]
  unfold readAt
  dsimp only
  constructor
  · intro h
    split at h
    · cases h
    · next r readAll =>
        cases h
        obtain ⟨spelling, split, spells, stops⟩ := read_sound readAll
        exact ⟨spelling, r.rest, split, spells, stops, by rw [consumed split]⟩
  · rintro ⟨spelling, rest, split, spells, stops, rfl⟩
    obtain ⟨r, readAll, rfl, rfl⟩ := read_of_spells spells split stops
    simp only [readAll, consumed split]

/-- A term is read wherever it is spelled, unless it is a variable that the text goes on with. -/
theorem readAt_spelling {t : Term} {spelling rest : Text} (h : Spells t spelling)
    (stops : t.Stops rest) (before : Text) :
    readAt (before ++ (spelling ++ rest)) before.length =
      .ok (t, before.length + spelling.length) :=
  readAt_ok_iff.mpr ⟨spelling, rest, List.drop_left, h, stops, rfl⟩

/-- An operation is read whose first operand is called like it, and a variable called so before a
    parenthesis that does not follow at once. -/
theorem readAt_spelling_op :
    Spells (.op (.var (lit "op")) (.var (lit "y_1"))) (lit " op( op ,\n y_1 )") ∧
      readAt (lit "X = op( op ,\n y_1 )(") 3 = .ok (.op (.var (lit "op")) (.var (lit "y_1")), 19) ∧
      Spells (.var (lit "op")) (lit "op") ∧ (var (lit "op")).Stops (lit " (X)") ∧
      readAt (lit "op (X)") 0 = .ok (.var (lit "op"), 2) := by
  have operand : Spells (.var (lit "op")) (lit "op") := .var isBlank_nil (by decide)
  have first : Spells (.var (lit "op")) (lit " op") := .var isBlank_space (by decide)
  have second : Spells (.var (lit "y_1")) (lit "\n y_1") :=
    .var (by decide : IsBlank (lit "\n ")) (by decide)
  have operation : Spells (.op (.var (lit "op")) (.var (lit "y_1"))) (lit " op( op ,\n y_1 )") :=
    .op isBlank_space first isBlank_space second isBlank_space
  have ended : (op (.var (lit "op")) (.var (lit "y_1"))).Stops (lit "(") := by
    intro name isVar
    cases isVar
  have apart : (var (lit "op")).Stops (lit " (X)") :=
    .of_gap _ isBlank_nil (by decide) (by decide) (lit "(X)")
  exact ⟨operation, readAt_spelling operation ended (lit "X ="), operand, apart,
    readAt_spelling operand apart []⟩

/-- The text that was read is the printed term but for white space, and it ends where the term
    does. -/
theorem spelled_of_readAt {text : Text} {start next : Nat} {t : Term}
    (h : readAt text start = .ok (t, next)) :
    start < next ∧ next ≤ text.length ∧ solid ((text.take next).drop start) = t.tptp ∧
      t.IsLettered ∧ ∀ name, t = .var name → ∀ u ∈ text[next]?, isWord u = false := by
  obtain ⟨spelling, rest, split, spells, stops, rfl⟩ := readAt_ok_iff.mp h
  have nonempty := List.length_pos_of_ne_nil spells.ne_nil
  have whole : text.length - start = spelling.length + rest.length := by
    rw [← List.length_drop, split, List.length_append]
  refine ⟨by omega, by omega, ?_, spells.isLettered, ?_⟩
  · rw [List.drop_take, Nat.add_sub_cancel_left, split, List.take_left, spells.solid_eq]
  · intro name isVar u follows
    have first : u ∈ rest.head? := by
      rw [← List.head?_drop, ← List.drop_drop, split, List.drop_left] at follows
      exact follows
    exact (stops name isVar).1 u first

/-- An operation ends with its parenthesis, a variable where no word unit follows. -/
theorem spelled_of_readAt_op :
    readAt (lit "= op( op,b1 )c") 1 = .ok (.op (.var (lit "op")) (.var (lit "b1")), 13) ∧
      solid (lit " op( op,b1 )") = lit "op(op,b1)" ∧
      readAt (lit "op (X)") 0 = .ok (.var (lit "op"), 2) ∧
      ∀ u ∈ (lit "op (X)")[2]?, isWord u = false := by
  have operation : readAt (lit "= op( op,b1 )c") 1 =
      .ok (.op (.var (lit "op")) (.var (lit "b1")), 13) :=
    toOption_eq_some_iff.mp (by decide +kernel)
  have leaf : readAt (lit "op (X)") 0 = .ok (.var (lit "op"), 2) :=
    toOption_eq_some_iff.mp (by decide +kernel)
  obtain ⟨-, -, printed, -, -⟩ := spelled_of_readAt operation
  obtain ⟨-, -, -, -, ended⟩ := spelled_of_readAt leaf
  exact ⟨operation, printed, leaf, ended _ rfl⟩

/-! ## A term with periods after it -/

theorem isTrailing_of_isBlank {gap : Text} (blank : IsBlank gap) :
    ∀ u ∈ gap, isTrailing u = true := by
  intro u mem
  simp [isTrailing, blank u mem]

/-- Texts that state a term: a spelling of it, then white space and periods. White space before
    the term belongs to the spelling. -/
def IsSide (t : Term) (text : Text) : Prop :=
  ∃ spelling tail, text = spelling ++ tail ∧ Spells t spelling ∧ ∀ u ∈ tail, isTrailing u = true

theorem IsSide.prepend {t : Term} {gap text : Text} (h : IsSide t text) (blank : IsBlank gap) :
    IsSide t (gap ++ text) := by
  obtain ⟨spelling, tail, rfl, spells, trailing⟩ := h
  exact ⟨gap ++ spelling, tail, (List.append_assoc ..).symm, spells.append_gap blank, trailing⟩

theorem IsSide.append {t : Term} {text tail : Text} (h : IsSide t text)
    (trailing : ∀ u ∈ tail, isTrailing u = true) : IsSide t (text ++ tail) := by
  obtain ⟨spelling, more, rfl, spells, moreTrailing⟩ := h
  refine ⟨spelling, more ++ tail, List.append_assoc .., spells, ?_⟩
  intro u mem
  exact (List.mem_append.mp mem).elim (moreTrailing u) (trailing u)

/-- Between two offsets a term is read exactly when the text there states it. -/
theorem readBetween_ok_iff {t : Term} {inside : Text} (before after : Text) :
    readBetween (before ++ (inside ++ after)) before.length (before.length + inside.length) =
      .ok t ↔ IsSide t inside := by
  have cut : ((before ++ (inside ++ after)).take (before.length + inside.length)).drop
      before.length = inside := by
    rw [← List.append_assoc, ← List.length_append, List.take_left, List.drop_left]
  have within : before.length + inside.length ≤ (before ++ (inside ++ after)).length := by
    simp only [List.length_append]
    omega
  unfold readBetween
  dsimp only
  rw [cut, if_pos within]
  constructor
  · intro h
    split at h
    · cases h
    · next r readAll =>
        split at h
        · next ended =>
            cases h
            obtain ⟨spelling, split, spells, -⟩ := read_sound readAll
            obtain ⟨tail, dropped, trailing⟩ := exists_dropped isTrailing inside
            have blank : IsBlank r.rest := List.dropWhile_eq_nil_iff.mp ended.1
            have kept : IsSide r.value (dropEndWhile isTrailing inside) :=
              ⟨spelling, r.rest, split, spells, isTrailing_of_isBlank blank⟩
            have whole := kept.append trailing
            rwa [← dropped] at whole
        · cases h
  · rintro ⟨spelling, tail, rfl, spells, trailing⟩
    have ends : ∀ u ∈ spelling.getLast?, isTrailing u = false := spells.getLast_not_trailing []
    rw [dropEndWhile_append ends trailing]
    obtain ⟨r, readAll, value, rest⟩ := read_of_spells spells (List.append_nil spelling).symm
      (Stops.of_head t (by simp))
    have nothing : skipBlanks r.rest = [] := by rw [rest]; rfl
    simp only [readAll, nothing, within, value, true_and, if_true]

end Term

end MagmaTrace
