import MagmaTrace.Proofs.Entries

/-! # What the lines of a proof cite

A term cites nothing. A reason cites the token that its name ends with, or the lemma whose number
it gives, and nothing else.
-/

namespace MagmaTrace

open Text

namespace Dependency

open Term (openMark closeMark comma)

/-! ## References -/

/-- A reference is a token in parentheses. -/
theorem reference?_eq_some {text token : Text} (h : reference? text = some token) :
    IsToken token ∧ ∃ rest, text = openMark :: (token ++ closeMark :: rest) := by
  simp only [reference?, Option.bind_eq_bind, Option.bind_eq_some_iff, Prod.exists, strip?_eq_some,
    Option.pure_def, Option.some.injEq] at h
  obtain ⟨_, rfl, _, _, taken, rest, rfl, rfl⟩ := h
  obtain ⟨rfl, known⟩ := token?_sound taken
  exact ⟨known, rest, rfl⟩

theorem reference?_of_head {text : Text} (other : ∀ u ∈ text.head?, u ≠ openMark) :
    reference? text = none := by
  rw [Option.eq_none_iff_forall_ne_some]
  intro token found
  obtain ⟨-, rest, rfl⟩ := reference?_eq_some found
  exact other openMark rfl rfl

theorem references_of_not_mem {text : Text} (h : openMark ∉ text) (rest : Text) :
    references (text ++ rest) = references rest := by
  refine scan_append_of_none fun before later split nonempty => reference?_of_head fun u first => ?_
  rw [List.head?_append, Option.or_of_isSome (List.isSome_head?.mpr nonempty)] at first
  rintro rfl
  exact h (split ▸ List.mem_append_right _ (List.mem_of_mem_head? first))

/-- After the word that follows a parenthesis comes the parenthesis that closes it, if there is a
    reference. -/
theorem reference?_of_word {word rest : Text} (all : ∀ u ∈ word, isWord u = true) {mark : CodeUnit}
    (notWord : isWord mark = false) (other : mark ≠ closeMark) :
    reference? (openMark :: (word ++ mark :: rest)) = none := by
  rw [Option.eq_none_iff_forall_ne_some]
  intro token found
  obtain ⟨known, more, split⟩ := reference?_eq_some found
  have stop : ∀ u ∈ (mark :: rest).head?, isWord u = false := by
    intro u first
    cases first
    exact notWord
  have stopToken : ∀ u ∈ (closeMark :: more).head?, isWord u = false :=
    forall_mem_head?_cons (by decide) _
  have here := (cut_append all stop).2
  rw [(List.cons.inj split).2, (cut_append known.isWord_of_mem stopToken).2] at here
  exact other (List.cons.inj here).1.symm

/-- A term starts with a word, and a mark follows it that closes nothing. -/
theorem exists_word_of_tptp {t : Term} (lettered : t.IsLettered) (rest : Text) :
    ∃ word mark more, t.tptp ++ comma :: rest = word ++ mark :: more ∧
      (∀ u ∈ word, isWord u = true) ∧ isWord mark = false ∧ mark ≠ closeMark := by
  cases t with
  | var name =>
      have isName := (lettered name (List.mem_singleton_self name)).isName
      exact ⟨name, comma, rest, rfl, isName.isWord_of_mem, by decide, by decide⟩
  | op left right =>
      have opens : Term.opening = lit "op" ++ [openMark] := rfl
      refine ⟨lit "op", openMark, left.tptp ++ comma :: (right.tptp ++ closeMark :: comma :: rest),
        ?_, List.all_eq_true.mp (by decide), by decide, by decide⟩
      simp only [Term.tptp_op, opens, List.append_assoc, List.cons_append, List.nil_append]

/-- There is no reference in a term. -/
theorem references_tptp {t : Term} (lettered : t.IsLettered) (rest : Text) :
    references (t.tptp ++ rest) = references rest := by
  induction t generalizing rest with
  | var name =>
      have isName := (lettered name (List.mem_singleton_self name)).isName
      exact references_of_not_mem (fun mem => absurd (isName.isWord_of_mem _ mem) (by decide)) rest
  | op left right ihl ihr =>
      have single {u : CodeUnit} (other : openMark ∉ [u]) (rest : Text) :
          references (u :: rest) = references rest := references_of_not_mem other rest
      have parts : (Term.op left right).tptp ++ rest = lit "op" ++ openMark :: (left.tptp ++
          comma :: (right.tptp ++ closeMark :: rest)) := by
        have opens : Term.opening = lit "op" ++ [openMark] := rfl
        simp only [Term.tptp_op, opens, List.append_assoc, List.cons_append, List.nil_append]
      obtain ⟨word, mark, more, starts, all, notWord, other⟩ :=
        exists_word_of_tptp lettered.left (right.tptp ++ closeMark :: rest)
      have closed : reference? (openMark :: (left.tptp ++ comma ::
          (right.tptp ++ closeMark :: rest))) = none := by
        rw [starts]
        exact reference?_of_word all notWord other
      have opened : references (openMark :: (left.tptp ++ comma ::
          (right.tptp ++ closeMark :: rest))) =
          references (left.tptp ++ comma :: (right.tptp ++ closeMark :: rest)) := by
        rw [references, scan, closed]
        rfl
      rw [parts, references_of_not_mem (by decide), opened, ihl lettered.left,
        single (by decide), ihr lettered.right, single (by decide)]

/-! ## Names in parentheses -/

/-- A name in parentheses is a reference if it is a token as a whole. -/
theorem reference?_enclosed {name : Text} (noClose : closeMark ∉ name) (tail : Text) :
    reference? (openMark :: (name ++ closeMark :: tail)) =
      if IsToken name then some name else none := by
  have opened : strip? (lit "(") (openMark :: (name ++ closeMark :: tail)) =
      some (name ++ closeMark :: tail) := strip?_eq_some.mpr rfl
  have closed : strip? (lit ")") (closeMark :: tail) = some tail := strip?_eq_some.mpr rfl
  by_cases known : IsToken name
  · have stop : ∀ u ∈ (closeMark :: tail).head?, isDigit u = false :=
      forall_mem_head?_cons (by decide) _
    have taken := token?_complete known stop
    rw [if_pos known]
    simp only [reference?, opened, taken, closed, Option.bind_eq_bind, Option.bind_some,
      Option.pure_def]
  · rw [if_neg known, Option.eq_none_iff_forall_ne_some]
    intro token found
    obtain ⟨isToken, more, split⟩ := reference?_eq_some found
    have noCloseToken : closeMark ∉ token :=
      fun mem => absurd (isToken.isWord_of_mem _ mem) (by decide)
    -- The first closing parenthesis ends both the name and the token.
    have same := (cut_mark noClose tail).1
    rw [(List.cons.inj split).2, (cut_mark noCloseToken more).1] at same
    exact known (same ▸ isToken)

/-- Of a name in parentheses the part after its last parenthesis can be a reference. -/
theorem references_enclosed {last tail : Text} (noOpen : openMark ∉ last)
    (noClose : closeMark ∉ last) (noTail : openMark ∉ tail) : references (openMark :: (last ++ closeMark :: tail)) =
      if IsToken last then [last] else [] := by
  have clear : openMark ∉ last ++ closeMark :: tail := by
    simp only [List.mem_append, List.mem_cons, noOpen, noTail, or_false, false_or]
    decide
  have later : references (last ++ closeMark :: tail) = [] := by
    have whole := references_of_not_mem clear []
    rwa [List.append_nil] at whole
  rw [references, scan, reference?_enclosed noClose]
  split
  · rw [Option.toList_some, List.singleton_append]
    exact congrArg (last :: ·) later
  · exact later

/-- No reference begins before the last parenthesis. -/
theorem references_before_last {earlier last : Text} (noCloseEarlier : closeMark ∉ earlier)
    (noClose : closeMark ∉ last) (tail : Text) :
    references (earlier ++ openMark :: (last ++ closeMark :: tail)) =
      references (openMark :: (last ++ closeMark :: tail)) := by
  refine scan_append_of_none fun before rest split nonempty => ?_
  cases rest with
  | nil => exact absurd rfl nonempty
  | cons u more =>
      by_cases opens : u = openMark
      · subst opens
        let name : Text := more ++ openMark :: last
        have noCloseName : closeMark ∉ name := by
          have noCloseMore : closeMark ∉ more := fun mem =>
            noCloseEarlier (split ▸ List.mem_append_right _ (List.mem_cons_of_mem _ mem))
          simp only [name, List.mem_append, List.mem_cons, noCloseMore, noClose, or_false, false_or]
          decide
        have notToken : ¬ IsToken name := by
          intro known
          have word := known.isWord_of_mem openMark (List.mem_append_right more List.mem_cons_self)
          exact absurd word (by decide)
        have found := reference?_enclosed noCloseName tail
        rw [if_neg notToken] at found
        simpa only [name, List.append_assoc, List.cons_append] using found
      · exact reference?_of_head fun v first => by
          cases first
          exact opens

/-- What a name in parentheses refers to. -/
theorem references_name {name tail : Text} (noClose : closeMark ∉ name) (noTail : openMark ∉ tail) :
    references (openMark :: (name ++ closeMark :: tail)) = Manuscript.Reason.tokenOf name := by
  let last : Text := (name.reverse.takeWhile (· != openMark)).reverse
  have noOpen : openMark ∉ last := fun mem =>
    notMem_takeWhile_mark openMark name.reverse (List.mem_reverse.mp mem)
  -- Either there is no parenthesis in the name, or there is one just before the last part.
  have parts : ∃ earlier, openMark :: name = earlier ++ openMark :: last := by
    have whole := List.takeWhile_append_dropWhile (p := (· != openMark)) (l := name.reverse)
    rcases rest : name.reverse.dropWhile (· != openMark) with _ | ⟨u, more⟩
    · rw [rest, List.append_nil] at whole
      exact ⟨[], by rw [List.nil_append, ← List.reverse_reverse name, ← whole]⟩
    · rw [rest, eq_of_dropWhile_mark rest] at whole
      refine ⟨openMark :: more.reverse, ?_⟩
      have back := congrArg List.reverse whole
      rw [List.reverse_reverse, List.reverse_append, List.reverse_cons, List.append_assoc,
        List.singleton_append] at back
      rw [← back, List.cons_append]
  obtain ⟨earlier, split⟩ := parts
  have noCloseEarlier : closeMark ∉ earlier ∧ closeMark ∉ last := by
    have clear : closeMark ∉ earlier ++ openMark :: last := by
      rw [← split, List.mem_cons, not_or]
      exact ⟨by decide, noClose⟩
    simp only [List.mem_append, List.mem_cons, not_or] at clear
    exact ⟨clear.1, clear.2.2⟩
  rw [← List.cons_append, split, List.append_assoc, List.cons_append,
    references_before_last noCloseEarlier.1 noCloseEarlier.2,
    references_enclosed noOpen noCloseEarlier.2 noTail]
  rfl

/-! ## Mentions -/

/-- A mention takes two spaces. -/
theorem mention?_of_few_blanks {text : Text} (few : text.countP isBlank ≤ 1) :
    mention? text = none := by
  have space : ∀ u, (lowerLetter u == 0x20) = true → isBlank u = true := by
    intro u same
    rw [beq_iff_eq] at same
    unfold lowerLetter at same
    split at same
    · next capital =>
        have zero : u = 0 := by simpa using same
        rw [zero] at capital
        exact absurd capital (by decide)
    · rw [same]
      decide
  rw [Option.eq_none_iff_forall_ne_some]
  intro name found
  obtain ⟨word, digits, rest, -, rfl, spelled, -⟩ := mention?_eq_some.mp found
  have two : (lowerLetters word).countP (· == 0x20) = 2 := by
    rw [spelled]
    rfl
  have blanks : (lowerLetters word).countP (· == 0x20) ≤ word.countP isBlank := by
    rw [lowerLetters, List.countP_map]
    exact List.countP_mono_left fun u _ => space u
  simp only [List.countP_append] at few
  omega

theorem mentions_of_few_blanks {text : Text} (few : text.countP isBlank ≤ 1) :
    mentions text = [] := by
  have passed : mentions (text ++ []) = mentions [] := by
    refine scan_append_of_none fun before rest split _ => mention?_of_few_blanks ?_
    rw [split, List.countP_append] at few
    rw [List.append_nil]
    omega
  rwa [List.append_nil] at passed

/-- No mention begins where there is no letter `b`. -/
theorem mentions_append {passed : Text} (noB : ('b' : CodeUnit) ∉ lowerLetters passed) (text : Text) :
    mentions (passed ++ text) = mentions text := by
  refine scan_append_of_none fun before rest split nonempty => ?_
  cases rest with
  | nil => exact absurd rfl nonempty
  | cons u more =>
      have other : lowerLetter u ≠ 'b' := by
        intro same
        have among : u ∈ passed := split ▸ List.mem_append_right before List.mem_cons_self
        exact noB (same ▸ List.mem_map_of_mem among)
      have noWord : stripCaseless? (lit "by lemma ") (u :: (more ++ text)) = none :=
        if_neg (Ne.symm other)
      rw [List.cons_append, mention?, noWord]
      rfl

end Dependency

/-! ## The lines of a proof -/

theorem Term.isSolid_tptp {t : Term} (lettered : t.IsLettered) : IsSolid t.tptp := by
  intro u mem
  rcases mem_tptp mem with ⟨name, among, inside⟩ | mark
  · exact (lettered name among).isSolid u inside
  · exact (by decide : IsSolid (lit "op(,)")) u mark

/-- A term cites nothing. -/
theorem Term.cites_nothing {t : Term} (lettered : t.IsLettered) :
    Dependency.references t.tptp = [] ∧ Dependency.mentions t.tptp = [] := by
  constructor
  · have whole := Dependency.references_tptp lettered []
    rwa [List.append_nil] at whole
  · have noBlank : t.tptp.countP isBlank = 0 := List.countP_eq_zero.mpr fun u mem =>
      Bool.eq_false_iff.mp (isSolid_tptp lettered u mem)
    exact Dependency.mentions_of_few_blanks (noBlank ▸ Nat.zero_le 1)

namespace Manuscript.Reason

theorem references_line (reason : Reason) :
    Dependency.references reason.line = reason.references := by
  cases reason with
  | byAxiom number name =>
      have parts : line (.byAxiom number name) = (lit "= \x7b by axiom " ++ (number ++ lit " ")) ++
          Term.openMark :: (name ++ Term.closeMark :: lit " \x7d") := by
        have opens : lit " (" = lit " " ++ [Term.openMark] := rfl
        have closes : lit ") \x7d" = Term.closeMark :: lit " \x7d" := rfl
        simp only [line, opens, closes, List.append_assoc, List.cons_append, List.nil_append]
      have clear : Term.openMark ∉ lit "= \x7b by axiom " ++ (number ++ lit " ") := by
        simp only [List.mem_append, not_or]
        refine ⟨by decide, fun mem => ?_, by decide⟩
        exact absurd (number.2.2 _ mem) (by decide)
      rw [parts, Dependency.references_of_not_mem clear,
        Dependency.references_name name.2.2.2 (by decide)]
      rfl
  | byLemma number =>
      have clear : Term.openMark ∉ line (.byLemma number) := by
        simp only [line, List.mem_append, not_or]
        refine ⟨⟨by decide, fun mem => ?_⟩, by decide⟩
        exact absurd (number.2.2 _ mem) (by decide)
      have none := Dependency.references_of_not_mem clear []
      rw [List.append_nil] at none
      exact none

theorem notMem_lowerLetters_digits (number : Digits) : ('b' : CodeUnit) ∉ lowerLetters number := by
  rw [lowerLetters_digits number.2.2]
  exact fun mem => absurd (number.2.2 _ mem) (by decide)

theorem mentions_byAxiom (number : Digits) (name : EnclosedName) :
    Dependency.mentions (line (.byAxiom number name)) = [] := by
  have parts : line (.byAxiom number name) = lit "= \x7b " ++ (lit "by axiom " ++
      (number ++ (lit " (" ++ (name ++ lit ") \x7d")))) := by
    have start : lit "= \x7b by axiom " = lit "= \x7b " ++ lit "by axiom " := rfl
    simp only [line, start, List.append_assoc]
  have noB : ('b' : CodeUnit) ∉ lowerLetters (lit "y axiom ") := by decide
  have word (rest : Text) : Dependency.mentions (lit "by axiom " ++ rest) =
      Dependency.mentions rest := Dependency.mentions_append noB rest
  have few : (name ++ lit ") \x7d").countP isBlank ≤ 1 := by
    have solid : name.1.countP isBlank = 0 :=
      List.countP_eq_zero.mpr fun u mem => Bool.eq_false_iff.mp (name.2.2.1 u mem)
    have one : (lit ") \x7d").countP isBlank = 1 := rfl
    rw [List.countP_append, solid, one]
  rw [parts, Dependency.mentions_append (by decide), word,
    Dependency.mentions_append (notMem_lowerLetters_digits number),
    Dependency.mentions_append (by decide), Dependency.mentions_of_few_blanks few]

theorem mentions_byLemma (number : Digits) :
    Dependency.mentions (line (.byLemma number)) = [Dependency.lemmaName number] := by
  have parts : line (.byLemma number) = lit "= \x7b " ++ (lit "by lemma " ++
      (number ++ lit " \x7d")) := by
    have start : lit "= \x7b by lemma " = lit "= \x7b " ++ lit "by lemma " := rfl
    simp only [line, start, List.append_assoc]
  have found : Dependency.mention? (lit "by lemma " ++ (number ++ lit " \x7d")) =
      some (Dependency.lemmaName number) := by
    refine Dependency.mention?_eq_some.mpr ⟨lit "by lemma ", number, lit " \x7d", rfl,
      (List.append_assoc ..).symm, rfl, number.2.1, number.2.2, fun u first => ?_⟩
    cases first
    decide
  have later : Dependency.mentions (lit "y lemma " ++ (number ++ lit " \x7d")) = [] := by
    rw [Dependency.mentions_append (by decide),
      Dependency.mentions_append (notMem_lowerLetters_digits number)]
    rfl
  have first : Dependency.mentions (lit "by lemma " ++ (number ++ lit " \x7d")) =
      (Dependency.mention? (lit "by lemma " ++ (number ++ lit " \x7d"))).toList ++
        Dependency.mentions (lit "y lemma " ++ (number ++ lit " \x7d")) := rfl
  rw [parts, Dependency.mentions_append (by decide), first, found, later]
  rfl

/-- What is found on the line of a reason is what the reason cites. -/
theorem cited_line (reason : Reason) :
    Dependency.references reason.line ++ Dependency.mentions reason.line = reason.cited := by
  rw [references_line]
  cases reason with
  | byAxiom number name => rw [mentions_byAxiom, List.append_nil, references, cited]
  | byLemma number =>
      rw [mentions_byLemma, references, List.nil_append, cited, Dependency.lemmaName]

end Manuscript.Reason

end MagmaTrace
