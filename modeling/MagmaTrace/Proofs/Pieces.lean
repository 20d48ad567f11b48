import MagmaTrace.Proofs.Outcome
import MagmaTrace.Proofs.Prefix
import MagmaTrace.Renaming

/-! # Changing the names in a text

A text is cut into names and the units between them without a look at its grammar. In a spelled
term the names are the leaves, and the word `op` of each operation. So changing the names in the
text changes the leaves and nothing else, as long as `op` is left alone (`Term.Spells.changed`).
-/

namespace MagmaTrace

open Text

namespace Text

theorem isLetter_of_not_isWord {u : CodeUnit} (h : isWord u = false) : isLetter u = false := by
  rw [isWord, Bool.or_eq_false_iff, Bool.or_eq_false_iff] at h
  exact h.1.1

theorem isLetter_of_isBlank {gap : Text} (blank : IsBlank gap) :
    ∀ u ∈ gap, isLetter u = false :=
  fun u mem => isLetter_of_not_isWord (not_isWord_of_isBlank (blank u mem))

end Text

namespace Piece

/-! ## Where a text is cut -/

theorem cut_cons_other {u : CodeUnit} (h : isLetter u = false) (rest : Text) :
    cut (u :: rest) = other u :: cut rest := by
  rw [cut]
  simp [h]

theorem cut_unlettered {gap : Text} (h : ∀ u ∈ gap, isLetter u = false) (rest : Text) :
    cut (gap ++ rest) = gap.map other ++ cut rest := by
  induction gap with
  | nil => rfl
  | cons u gap ih =>
      obtain ⟨here, others⟩ := List.forall_mem_cons.mp h
      simp [cut_cons_other here, ih others]

theorem cut_identifier {n : Text} (h : IsIdentifier n) : cut n = [name n] := by
  cases n with
  | nil => exact h.elim
  | cons u word =>
      obtain ⟨letter, words⟩ := h
      have taken : word.takeWhile isWord = word := List.takeWhile_eq_self_iff.mpr words
      have dropped : word.dropWhile isWord = [] := List.dropWhile_eq_nil_iff.mpr words
      rw [cut, if_pos letter, taken, dropped, cut]

/-- A text is cut wherever no name goes on. -/
theorem cut_stopped (a : Text) {b : Text} (stop : ∀ u ∈ b.head?, isWord u = false) :
    cut (a ++ b) = cut a ++ cut b := by
  fun_induction cut a with
  | case1 => rfl
  | case2 u rest letter ih =>
      have ended : ∀ v ∈ (rest.dropWhile isWord ++ b).head?, isWord v = false := by
        intro v first
        rw [List.head?_append] at first
        have within := List.head?_dropWhile_not isWord rest
        cases inside : (rest.dropWhile isWord).head? with
        | none => exact stop v (by simpa [inside] using first)
        | some w =>
            rw [inside] at first within
            cases first
            exact within
      have parts : rest ++ b = rest.takeWhile isWord ++ (rest.dropWhile isWord ++ b) := by
        rw [← List.append_assoc, List.takeWhile_append_dropWhile]
      have words : ∀ v ∈ rest.takeWhile isWord, isWord v = true :=
        fun v mem => List.mem_takeWhile_imp mem
      obtain ⟨taken, dropped⟩ := Text.cut_append words ended
      rw [← parts] at taken dropped
      rw [List.cons_append, cut, if_pos letter, taken, dropped, ih, List.cons_append]
  | case3 u rest letter ih =>
      rw [List.cons_append, cut_cons_other (by simpa using letter), ih, List.cons_append]

/-- A text is cut after a unit that no name holds. -/
theorem cut_ended {a : Text} (ended : ∀ u ∈ a.getLast?, isWord u = false) (b : Text) :
    cut (a ++ b) = cut a ++ cut b := by
  rcases List.eq_nil_or_concat' a with rfl | ⟨before, u, rfl⟩
  · rw [List.nil_append, cut, List.nil_append]
  · have stop : isWord u = false := ended u (by simp)
    have mark : isLetter u = false := isLetter_of_not_isWord stop
    have stops (rest : Text) : ∀ v ∈ (u :: rest).head?, isWord v = false := by
      rintro _ ⟨rfl⟩
      exact stop
    rw [List.append_assoc, List.singleton_append, cut_stopped before (stops b),
      cut_stopped before (stops []), cut_cons_other mark, cut_cons_other mark, cut,
      List.append_assoc, List.singleton_append]

theorem write_cut (text : Text) : (cut text).flatMap (write id) = text := by
  fun_induction cut text with
  | case1 => rfl
  | case2 u rest letter ih => simp [write, ih]
  | case3 u rest letter ih => simp [write, ih]

/-! ## Changed pieces -/

/-- What a piece may become: a name as the relation allows, another unit only itself. -/
inductive Changes (R : Text → Text → Prop) : Piece → Piece → Prop where
  | name {old new : Text} (h : R old new) : Changes R (name old) (name new)
  | other (u : CodeUnit) : Changes R (other u) (other u)

end Piece

namespace Text

/-- The second text is the first with its names changed as a relation allows. -/
def Changed (R : Text → Text → Prop) (a b : Text) : Prop :=
  ∃ pieces, List.Forall₂ (Piece.Changes R) (Piece.cut a) pieces ∧
    b = pieces.flatMap (Piece.write id)

variable {R : Text → Text → Prop}

/-- Where a text is cut, both parts are changed by themselves. -/
theorem Changed.split_of_cut {a b c : Text} (h : Changed R (a ++ b) c)
    (apart : Piece.cut (a ++ b) = Piece.cut a ++ Piece.cut b) :
    ∃ a' b', c = a' ++ b' ∧ Changed R a a' ∧ Changed R b b' := by
  obtain ⟨pieces, changes, rfl⟩ := h
  rw [apart] at changes
  obtain ⟨inA, inB, rfl, ofA, ofB⟩ := exists_append_of_forall₂ changes
  exact ⟨_, _, List.flatMap_append, ⟨inA, ofA, rfl⟩, ⟨inB, ofB, rfl⟩⟩

theorem Changed.split {a b c : Text} (h : Changed R (a ++ b) c)
    (stop : ∀ u ∈ b.head?, isWord u = false) :
    ∃ a' b', c = a' ++ b' ∧ Changed R a a' ∧ Changed R b b' :=
  h.split_of_cut (Piece.cut_stopped a stop)

theorem Changed.skip {gap b c : Text} (h : Changed R (gap ++ b) c)
    (unlettered : ∀ u ∈ gap, isLetter u = false) : ∃ b', c = gap ++ b' ∧ Changed R b b' := by
  obtain ⟨pieces, changes, rfl⟩ := h
  rw [Piece.cut_unlettered unlettered] at changes
  clear unlettered
  induction gap generalizing pieces with
  | nil => exact ⟨_, rfl, pieces, changes, rfl⟩
  | cons u gap ih =>
      cases changes with
      | cons here others =>
          cases here
          obtain ⟨b', same, changed⟩ := ih _ others
          exact ⟨b', by simp [Piece.write, same], changed⟩

theorem Changed.skip_mark {u : CodeUnit} {b c : Text} (h : Changed R (u :: b) c)
    (mark : isLetter u = false) : ∃ b', c = u :: b' ∧ Changed R b b' := by
  have alone : ∀ v ∈ [u], isLetter v = false := by simpa using mark
  exact Changed.skip (show Changed R ([u] ++ b) c from h) alone

theorem Changed.eq_of_unlettered {gap c : Text} (h : Changed R gap c)
    (unlettered : ∀ u ∈ gap, isLetter u = false) : c = gap := by
  rw [← List.append_nil gap] at h
  obtain ⟨b', rfl, pieces, changes, rfl⟩ := h.skip unlettered
  rw [Piece.cut] at changes
  cases changes
  simp

theorem Changed.head?_eq {b c : Text} (h : Changed R b c)
    (stop : ∀ u ∈ b.head?, isWord u = false) : c.head? = b.head? := by
  cases b with
  | nil => rw [h.eq_of_unlettered (List.forall_mem_nil _)]
  | cons u b =>
      obtain ⟨_, rfl, -⟩ := h.skip_mark (isLetter_of_not_isWord (stop u rfl))
      rfl

theorem Changed.of_identifier {name c : Text} (h : Changed R name c) (isName : IsIdentifier name) :
    R name c := by
  obtain ⟨pieces, changes, rfl⟩ := h
  rw [Piece.cut_identifier isName] at changes
  cases changes with
  | cons here others =>
      cases here
      cases others
      simpa [Piece.write] using ‹R name _›

end Text

/-! ## Changed terms -/

namespace Term

/-- The second term is the first with its leaves changed as a relation allows. -/
inductive Changed (R : Text → Text → Prop) : Term → Term → Prop where
  | var {old new : Text} (h : R old new) : Changed R (.var old) (.var new)
  | op {l l' r r' : Term} (left : Changed R l l') (right : Changed R r r') :
      Changed R (.op l r) (.op l' r')

theorem Changed.rename_eq {R : Text → Text → Prop} {f g : Text → Text} {t t' : Term}
    (h : Changed R t t') (agree : ∀ old ∈ t.names, ∀ new, R old new → f old = g new) :
    t.rename f = t'.rename g := by
  induction h with
  | @var old new h => rw [rename, agree old (List.mem_singleton_self old) new h, rename]
  | op _ _ ihl ihr =>
      rw [rename, ihl fun old mem => agree old (List.mem_append_left _ mem),
        ihr fun old mem => agree old (List.mem_append_right _ mem), rename]

theorem Changed.eq_rename {f : Text → Text} {t t' : Term}
    (h : Changed (fun old new => new = f old) t t') : t' = t.rename f := by
  induction h with
  | var h => rw [h, rename]
  | op _ _ ihl ihr => rw [ihl, ihr, rename]

variable {R : Text → Text → Prop}
  (keeps : ∀ old new, IsIdentifier old → R old new → IsIdentifier new)
  (fixed : ∀ new, R (lit "op") new → new = lit "op")
include keeps fixed

/-- Changing the names in the spelling of a term changes its leaves. -/
theorem Spells.changed {t : Term} {spelling c : Text} (h : Spells t spelling)
    (changed : Text.Changed R spelling c) : ∃ t', Changed R t t' ∧ Spells t' c := by
  induction h generalizing c with
  | @var gap name blank isName =>
      obtain ⟨new, rfl, ofName⟩ := changed.skip (isLetter_of_isBlank blank)
      have allowed := ofName.of_identifier isName
      exact ⟨.var new, .var allowed, .var blank (keeps name new isName allowed)⟩
  | @op left right gap a toComma b toClose blank hl blankComma hr blankClose ihl ihr =>
      have word : IsIdentifier (lit "op") := by decide
      have mark (rest : Text) : opening ++ rest = lit "op" ++ openMark :: rest := rfl
      have toRight : ∀ u ∈ (toComma ++ comma :: (b ++ (toClose ++ [closeMark]))).head?,
          isWord u = false :=
        head?_gap blankComma (fun _ => not_isWord_of_isBlank) (by decide) _
      have toEnd : ∀ u ∈ (toClose ++ [closeMark]).head?, isWord u = false :=
        head?_gap blankClose (fun _ => not_isWord_of_isBlank) (by decide) _
      -- The parts are taken off one after another; what is left is changed by itself.
      obtain ⟨_, rfl, fromWord⟩ := changed.skip (isLetter_of_isBlank blank)
      rw [mark] at fromWord
      obtain ⟨o, _, rfl, ofWord, fromMark⟩ := fromWord.split (forall_mem_head?_cons (by decide) _)
      obtain rfl := fixed o (ofWord.of_identifier word)
      obtain ⟨_, rfl, fromLeft⟩ := fromMark.skip_mark (by decide)
      obtain ⟨a', _, rfl, ofLeft, fromGap⟩ := fromLeft.split toRight
      obtain ⟨_, rfl, fromComma⟩ := fromGap.skip (isLetter_of_isBlank blankComma)
      obtain ⟨_, rfl, fromRight⟩ := fromComma.skip_mark (by decide)
      obtain ⟨b', _, rfl, ofRight, toClosing⟩ := fromRight.split toEnd
      obtain ⟨_, rfl, ofClosing⟩ := toClosing.skip (isLetter_of_isBlank blankClose)
      obtain ⟨_, rfl, ofNothing⟩ := ofClosing.skip_mark (by decide)
      obtain rfl := ofNothing.eq_of_unlettered (List.forall_mem_nil _)
      obtain ⟨left', changedLeft, spellsLeft⟩ := ihl ofLeft
      obtain ⟨right', changedRight, spellsRight⟩ := ihr ofRight
      exact ⟨.op left' right', .op changedLeft changedRight,
        .op blank spellsLeft blankComma spellsRight blankClose⟩

end Term

end MagmaTrace
