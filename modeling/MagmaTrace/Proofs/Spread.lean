import MagmaTrace.Proofs.Problems
import MagmaTrace.Proofs.Wrapping

/-! # White space between words

A text is spread out by writing any white space, line ends included, for each unit of white space
in it. Its words stay what they are. So an equation between two terms states the same clause
however its words are spaced (`Clause.ofLean_of_spaced`).
-/

namespace MagmaTrace

open Text

namespace Text

/-! ## Spreading a text -/

/-- The second text is the first with some white space for each unit of white space in it. -/
inductive Spread : Text → Text → Prop where
  | nil : Spread [] []
  | solid {u : CodeUnit} {a b : Text} (solid : isBlank u = false) (more : Spread a b) :
      Spread (u :: a) (u :: b)
  | gap {u : CodeUnit} {gap a b : Text} (blank : isBlank u = true) (wide : gap ≠ [])
      (blankGap : IsBlank gap) (more : Spread a b) : Spread (u :: a) (gap ++ b)

namespace Spread

variable {a b c : Text}

theorem split (h : Spread (a ++ b) c) :
    ∃ a' b', c = a' ++ b' ∧ Spread a a' ∧ Spread b b' := by
  induction a generalizing c with
  | nil => exact ⟨[], c, rfl, .nil, h⟩
  | cons u a ih =>
      cases h with
      | solid solid more =>
          obtain ⟨a', b', rfl, first, second⟩ := ih more
          exact ⟨u :: a', b', rfl, .solid solid first, second⟩
      | @gap _ gap _ _ blank wide blankGap more =>
          obtain ⟨a', b', rfl, first, second⟩ := ih more
          exact ⟨gap ++ a', b', (List.append_assoc ..).symm, .gap blank wide blankGap first, second⟩

theorem eq_of_isSolid (h : Spread a b) (solid : IsSolid a) : b = a := by
  induction h with
  | nil => rfl
  | solid _ _ ih => rw [ih fun u mem => solid u (List.mem_cons_of_mem _ mem)]
  | gap blank _ _ _ _ =>
      have notBlank := solid _ List.mem_cons_self
      rw [blank] at notBlank
      cases notBlank

theorem isBlank (h : Spread a b) (blank : IsBlank a) : IsBlank b := by
  induction h with
  | nil => exact isBlank_nil
  | solid solid _ _ =>
      have isBlank := blank _ List.mem_cons_self
      rw [solid] at isBlank
      cases isBlank
  | gap _ _ blankGap _ ih =>
      intro u mem
      rcases List.mem_append.mp mem with here | later
      · exact blankGap u here
      · exact ih (fun v among => blank v (List.mem_cons_of_mem _ among)) u later

theorem ne_nil (h : Spread a b) (nonempty : a ≠ []) : b ≠ [] := by
  cases h with
  | nil => exact nonempty
  | solid => exact List.cons_ne_nil _ _
  | gap _ wide _ _ => exact List.append_ne_nil_of_left_ne_nil wide _

/-- Spreading adds and takes away nothing but white space. -/
theorem solid_eq (h : Spread a b) : Text.solid b = Text.solid a := by
  induction h with
  | nil => rfl
  | @solid u _ _ solid _ ih =>
      rw [Text.solid, Text.solid, List.filter_cons, List.filter_cons, solid]
      exact congrArg (u :: ·) ih
  | @gap u _ _ _ blank _ blankGap _ ih =>
      rw [solid_append, solid_of_isBlank blankGap, ih, List.nil_append, Text.solid, Text.solid,
        List.filter_cons, blank]
      rfl

end Spread

theorem mem_solid {u : CodeUnit} (h : isBlank u = false) {text : Text} :
    u ∈ solid text ↔ u ∈ text := by
  rw [solid, List.mem_filter, h]
  exact and_iff_left rfl

/-! ## The words of a text -/

/-- The words of a text with one space after each. -/
def spaced (text : Text) : Text := squeezeAfter true (text ++ [space])

theorem squeezeAfter_run {gap : Text} (wide : gap ≠ []) (blank : IsBlank gap) (before : Bool)
    (rest : Text) : squeezeAfter before (gap ++ rest) =
      squeezeAfter before [space] ++ squeezeAfter true rest := by
  cases before with
  | false => exact squeezeAfter_gap blank wide rest
  | true => exact squeezeAfter_more blank rest

theorem Spread.squeezeAfter_eq {a b : Text} (h : Spread a b) (before : Bool) (rest : Text) :
    squeezeAfter before (b ++ rest) = squeezeAfter before (a ++ rest) := by
  induction h generalizing before with
  | nil => rfl
  | solid solid _ ih =>
      rw [List.cons_append, List.cons_append, squeezeAfter, squeezeAfter, solid]
      exact congrArg (_ :: ·) (ih false)
  | @gap u gap a _ blank wide blankGap _ ih =>
      have single : IsBlank [u] := fun v mem => List.mem_singleton.mp mem ▸ blank
      have one : u :: a ++ rest = [u] ++ (a ++ rest) := rfl
      rw [List.append_assoc, squeezeAfter_run wide blankGap, ih true, one,
        squeezeAfter_run (List.cons_ne_nil u []) single]

theorem Spread.spaced_eq {a b : Text} (h : Spread a b) : spaced b = spaced a :=
  h.squeezeAfter_eq true [space]

/-- Every text is spread from its words. -/
theorem spread_squeezeAfter (text : Text) : Spread (squeezeAfter false text) text ∧
    ∃ gap rest, IsBlank gap ∧ text = gap ++ rest ∧ Spread (squeezeAfter true text) rest := by
  induction text with
  | nil => exact ⟨.nil, [], [], isBlank_nil, rfl, .nil⟩
  | cons u text ih =>
      obtain ⟨within, gap, rest, blankGap, split, afterGap⟩ := ih
      by_cases blank : isBlank u = true
      · have blankRun : IsBlank (u :: gap) := List.forall_mem_cons.mpr ⟨blank, blankGap⟩
        have whole : u :: text = u :: gap ++ rest := congrArg (u :: ·) split
        have isSpace : isBlank space = true := by decide
        simp only [squeezeAfter, blank, if_true, Bool.false_eq_true, if_false]
        exact ⟨whole ▸ .gap isSpace (List.cons_ne_nil u gap) blankRun afterGap,
          u :: gap, rest, blankRun, whole, afterGap⟩
      · have solid : isBlank u = false := by simpa using blank
        simp only [squeezeAfter, solid, Bool.false_eq_true, if_false]
        exact ⟨.solid solid within, [], u :: text, isBlank_nil, rfl, .solid solid within⟩

/-- A text with given words is spread from them, with white space around it. -/
theorem exists_spread_of_spaced {body text : Text} (same : spaced text = body ++ [space]) :
    ∃ lead middle tail, text = lead ++ middle ++ tail ∧ IsBlank lead ∧ Spread body middle ∧
      IsBlank tail := by
  obtain ⟨-, lead, rest, before, split, spread⟩ := spread_squeezeAfter (text ++ [space])
  rw [← spaced, same] at spread
  obtain ⟨middle, tail, rfl, within, ending⟩ := spread.split
  have after : IsBlank tail := ending.isBlank (by decide)
  have wide : tail ≠ [] := ending.ne_nil (List.cons_ne_nil _ _)
  rw [← List.dropLast_append_getLast wide, ← List.append_assoc, ← List.append_assoc] at split
  exact ⟨lead, middle, tail.dropLast, (List.append_inj' split rfl).1, before, within,
    fun u mem => after u (List.mem_of_mem_dropLast mem)⟩

/-- White space ends a word, so that it may be cut there. -/
theorem squeezeAfter_append_blank {u : CodeUnit} (blank : isBlank u = true) (before : Bool)
    (a b : Text) : squeezeAfter before (a ++ u :: b) =
      squeezeAfter before (a ++ [space]) ++ squeezeAfter true b := by
  induction a generalizing before with
  | nil =>
      have single : IsBlank [u] := fun v mem => List.mem_singleton.mp mem ▸ blank
      exact squeezeAfter_run (List.cons_ne_nil u []) single before b
  | cons v a ih =>
      rw [List.cons_append, List.cons_append, squeezeAfter, squeezeAfter, ih, ih]
      split_ifs <;> rfl

theorem spaced_append {u : CodeUnit} (blank : isBlank u = true) (a b : Text) :
    spaced (a ++ u :: b) = spaced a ++ spaced b := by
  rw [spaced, List.append_assoc, List.cons_append, squeezeAfter_append_blank blank]
  rfl

theorem spaced_nil : spaced [] = [] := rfl

theorem spaced_gap {gap : Text} (blank : IsBlank gap) (text : Text) :
    spaced (gap ++ text) = spaced text := by
  rw [spaced, List.append_assoc, squeezeAfter_more blank]
  rfl

theorem spaced_append_gap {gap : Text} (blank : IsBlank gap) (text : Text) :
    spaced (text ++ gap) = spaced text := by
  cases gap with
  | nil => rw [List.append_nil]
  | cons u gap =>
      obtain ⟨isBlank, others⟩ := List.forall_mem_cons.mp blank
      have gone : spaced gap = [] := by
        rw [← List.append_nil gap, spaced_gap others, spaced_nil]
      rw [spaced_append isBlank, gone, List.append_nil]

theorem spaced_trim (text : Text) : spaced (trim text) = spaced text := by
  obtain ⟨lead, tail, before, after, split⟩ := exists_margins text
  calc spaced (trim text)
    _ = spaced (trim text ++ tail) := (spaced_append_gap after _).symm
    _ = spaced (lead ++ (trim text ++ tail)) := (spaced_gap before _).symm
    _ = spaced text := by rw [← split]

theorem spaced_join {u : CodeUnit} (blank : isBlank u = true) (pieces : List Text) :
    spaced (join [u] pieces) = pieces.flatMap spaced := by
  induction pieces with
  | nil => rfl
  | cons piece pieces ih =>
      by_cases last : pieces = []
      · subst last
        rw [join_singleton, List.flatMap_cons, List.flatMap_nil, List.append_nil]
      · rw [join_cons last, List.append_assoc, List.singleton_append, spaced_append blank, ih,
          List.flatMap_cons]

/-- The words of a text are those of its lines. -/
theorem spaced_splitAt (text : Text) : (splitAt newline text).flatMap spaced = spaced text := by
  rw [← spaced_join (by decide : isBlank newline = true), splitAt_eq_splitOn, join,
    List.intercalate_splitOn]

end Text

/-! ## Spread terms -/

namespace Term

theorem spread_op {left right : Term} {text : Text} (h : Spread (op left right).lean text) :
    ∃ a toSign toRight b, text = openMark :: (a ++ (toSign ++ diamond :: (toRight ++ (b ++
        [closeMark])))) ∧
      IsBlank toSign ∧ IsBlank toRight ∧ Spread left.lean a ∧ Spread right.lean b := by
  have parts : (op left right).lean = [openMark] ++ (left.lean ++ ([space] ++ ([diamond] ++
      ([space] ++ (right.lean ++ [closeMark]))))) := by
    simp [lean_op, space]
  rw [parts] at h
  obtain ⟨o, _, rfl, opens, h⟩ := h.split
  obtain ⟨a, _, rfl, atLeft, h⟩ := h.split
  obtain ⟨toSign, _, rfl, gap, h⟩ := h.split
  obtain ⟨s, _, rfl, sign, h⟩ := h.split
  obtain ⟨toRight, _, rfl, gap', h⟩ := h.split
  obtain ⟨b, c, rfl, atRight, closes⟩ := h.split
  obtain rfl := opens.eq_of_isSolid (by decide)
  obtain rfl := sign.eq_of_isSolid (by decide)
  obtain rfl := closes.eq_of_isSolid (by decide)
  exact ⟨a, toSign, toRight, b, by simp, gap.isBlank (by decide), gap'.isBlank (by decide),
    atLeft, atRight⟩

variable {t : Term} (named : t.IsNamed) {text : Text} (h : Spread t.lean text)
include named h

theorem loose_of_spread (place : Place) : t.Loose place text := by
  induction t generalizing place text with
  | var name =>
      have solid : IsSolid name := (named name (List.mem_singleton_self name)).isSolid
      obtain rfl := h.eq_of_isSolid solid
      exact .name _
  | op left right ihl ihr =>
      obtain ⟨a, toSign, toRight, b, rfl, blankSign, blankRight, atLeft, atRight⟩ := spread_op h
      have notRight : Place.whole ≠ .right := by decide
      have inside := Loose.bare notRight (ihl named.left atLeft .left) blankSign blankRight
        (ihr named.right atRight .right)
      have whole : Loose place (.op left right) _ := .enclosed isBlank_nil inside isBlank_nil
      simpa using whole

theorem trim_of_spread : trim text = text := by
  cases t with
  | var name =>
      have solid : IsSolid name := (named name (List.mem_singleton_self name)).isSolid
      obtain rfl := h.eq_of_isSolid solid
      exact Layout.trim_lean named
  | op left right =>
      obtain ⟨a, toSign, toRight, b, rfl, -, -, -, -⟩ := spread_op h
      apply trim_of_solid_ends
      · exact forall_mem_head?_cons (by decide) _
      · intro u last
        have ending : openMark :: (a ++ (toSign ++ diamond :: (toRight ++ (b ++ [closeMark])))) =
            openMark :: (a ++ (toSign ++ diamond :: (toRight ++ b))) ++ [closeMark] := by simp
        rw [ending, List.getLast?_concat] at last
        cases last
        decide

/-- A printed term reads back from however it is spread. -/
theorem ofLean_of_spread {lead tail : Text} (before : IsBlank lead) (after : IsBlank tail) :
    ofLean (trim (lead ++ text ++ tail)) = .ok t := by
  have trimmed : trim (lead ++ text ++ tail) = text := by
    rw [trim_append_blank after, trim, skipBlanks_blank_append before]
    exact trim_of_spread named h
  obtain ⟨ts, grammar, -, lexed⟩ := Token.tokensFrom_loose named (loose_of_spread named h .whole) 0
  have whole := ofLean_of_tokens grammar isBlank_nil isBlank_nil lexed
  rw [List.nil_append, List.append_nil] at whole
  rwa [trimmed]

end Term

/-! ## Spread equations -/

namespace Clause

open Expression (equalsMark)

theorem parts_of_equation (lhs rhs : Term) (tail : Text) :
    lhs.lean ++ lit " = " ++ rhs.lean ++ tail =
      lhs.lean ++ ([space] ++ ([equalsMark] ++ ([space] ++ (rhs.lean ++ tail)))) := by
  have marks : lit " = " = [space, equalsMark, space] := by decide
  simp [marks]

variable {lhs rhs : Term} (left : lhs.IsNamed) (right : rhs.IsNamed)
include left right

/-- A printed equation has single spaces between its words. -/
theorem spaced_equation :
    spaced (lhs.lean ++ lit " = " ++ rhs.lean) = lhs.lean ++ lit " = " ++ rhs.lean ++ [space] := by
  have gap : IsBlank [space] := by decide
  have sign : IsSolid [equalsMark] := by decide
  rw [spaced, parts_of_equation, Term.squeezeAfter_lean left,
    squeezeAfter_gap gap (List.cons_ne_nil _ _), squeezeAfter_solid sign (List.cons_ne_nil _ _),
    squeezeAfter_gap gap (List.cons_ne_nil _ _), Term.squeezeAfter_lean right]
  rfl

/-- A text with the words of a printed equation states it. -/
theorem states_of_spaced {text : Text}
    (same : spaced text = spaced (lhs.lean ++ lit " = " ++ rhs.lean)) : States text lhs rhs := by
  rw [spaced_equation left right] at same
  obtain ⟨lead, middle, tail, rfl, before, spread, after⟩ := exists_spread_of_spaced same
  have parts := parts_of_equation lhs rhs []
  rw [List.append_nil, List.append_nil] at parts
  rw [parts] at spread
  obtain ⟨a, _, rfl, atLeft, spread⟩ := spread.split
  obtain ⟨toSign, _, rfl, gap, spread⟩ := spread.split
  obtain ⟨sign, _, rfl, isSign, spread⟩ := spread.split
  obtain ⟨toRight, b, rfl, gap', atRight⟩ := spread.split
  obtain rfl := isSign.eq_of_isSolid (by decide)
  have clear : equalsMark ∉ lead ++ a ++ toSign := by
    have notBlank : isBlank equalsMark = false := by decide
    rw [← mem_solid notBlank, solid_append, solid_append, solid_of_isBlank before,
      atLeft.solid_eq, solid_of_isBlank (gap.isBlank (by decide)), List.nil_append,
      List.append_nil, mem_solid notBlank]
    exact Term.equalsMark_notMem_lean left
  exact ⟨lead ++ a ++ toSign, toRight ++ b ++ tail, by simp, clear,
    Term.ofLean_of_spread left atLeft before (gap.isBlank (by decide)),
    Term.ofLean_of_spread right atRight (gap'.isBlank (by decide)) after⟩

/-- However the words of a printed equation are spaced, it gives the same clause. -/
theorem ofLean_of_spaced {text : Text}
    (same : spaced text = spaced (lhs.lean ++ lit " = " ++ rhs.lean)) :
    ofLean text = .ok (ofTerms lhs rhs) :=
  ofLean_ok_iff.mpr ⟨lhs, rhs, states_of_spaced left right same, rfl⟩

end Clause

end MagmaTrace
